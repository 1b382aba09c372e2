import Mathlib.Data.List.ReduceOption
import Chainloop.Api.Material
import Chainloop.Renderer.Encoding

namespace Chainloop.Renderer

open Go Structpb Map

structure WorkflowMetadata where
  name : String
  team : String
  project : String
  version : String
  prerelease : Bool
  organization : String
  contractName : String
  schemaRevision : String
deriving DecidableEq

inductive VerificationStatus where
  | unspecified | verified | unverified | unavailable | notApplicable
deriving DecidableEq

def VerificationStatus.name : VerificationStatus → String
  | .unspecified => "unspecified"
  | .verified => "verified"
  | .unverified => "unverified"
  | .unavailable => "unavailable"
  | .notApplicable => "not_applicable"

structure CommitVerification where
  status : VerificationStatus
  signatureAlgorithm : String
deriving DecidableEq

structure Remote where
  name : String
  url : String
deriving DecidableEq

-- The date stands in its RFC 3339 form.
structure Commit where
  hash : String
  authorEmail : String
  authorName : String
  message : String
  date : String
  remotes : List Remote
  signature : String
  platformVerification : Option CommitVerification
deriving DecidableEq

structure CraftedAttestation extends Attestation where
  workflow : WorkflowMetadata
  materials : Map String Api.Material
  annotations : Map String String
  head : Option Commit

structure Statement where
  subject : List Intoto.ResourceDescriptor
  predicateType : String
  predicate : List (String × Value)

def predicateTypeV02 : String := "chainloop.dev/attestation/v0.2"

def subjectGitHead : String := "git.head"

def detectSignatureType (signature : String) : String :=
  let sig := trimSpace signature
  if signature = "" then ""
  else if startsWith sig "-----BEGIN PGP SIGNATURE-----" then "PGP"
  else if startsWith sig "-----BEGIN SSH SIGNATURE-----" then "SSH"
  else if startsWith sig "-----BEGIN SIGNED MESSAGE-----" then "X509"
  else if startsWith sig "-----BEGIN PGP MESSAGE-----" then "PGP"
  else "UNKNOWN"

def commitAnnotations (c : Commit) : Map String Value :=
  let annotations := ((((empty.set "date" (.string c.date)).set
    "author.email" (.string c.authorEmail)).set "author.name" (.string c.authorName)).set
    "message" (.string c.message))
  let annotations := if c.signature = "" then annotations
    else annotations.set "signature" (.string c.signature)
  let annotations := match c.platformVerification with
    | none => annotations
    | some pv => annotations.set "author.verification_status" (.string pv.status.name)
  -- The algorithm that the platform reports comes first.
  let reported := (c.platformVerification.map (·.signatureAlgorithm)).getD ""
  let algorithm := if reported = "" then detectSignatureType c.signature else reported
  let annotations := if algorithm = "" then annotations
    else annotations.set "signature.algorithm" (.string algorithm)
  if c.remotes = [] then annotations
  else annotations.set "remotes" (.list (c.remotes.map fun r =>
    .struct [("name", .string r.name), ("url", .string r.url)]))

def outputMaterial (onlyOutput : Bool) (name : String) (m : Api.Material) :
    Run (Option Intoto.ResourceDescriptor) := do
  let nMaterial ← m.normalizedOutput.wrapErr "error normalizing material"
  if onlyOutput && !nMaterial.isOutput then return none
  let material ← (m.craftingStateToIntotoDescriptor name).wrapErr "rendering material"
  return some material

def outputMaterials (materials : Map String Api.Material) (onlyOutput : Bool) :
    Run (List Intoto.ResourceDescriptor) := do
  let sorted := materials.entries.insertionSort fun a b => a.1 ≤ b.1
  let res ← sorted.mapM fun e => outputMaterial onlyOutput e.1 e.2
  return res.reduceOption

-- The outside world of a renderer: structpb.NewStruct on a policy reference, the hash
-- of the marshalled attestation, and where the evaluations went if they were stored.
structure RenderEnv where
  newStruct : Policies.Reference → Except GoError Unit
  attestationDigest : String
  policyEvaluationsRef : Option PolicyEvaluationsRef

def renderSubject (env : RenderEnv) (att : CraftedAttestation) :
    Run (List Intoto.ResourceDescriptor) := do
  let workflow : Intoto.ResourceDescriptor :=
    ⟨Api.createAnnotation ("workflow." ++ att.workflow.name), "",
      empty.set "sha256" env.attestationDigest, [], .empty⟩
  let head : List Intoto.ResourceDescriptor := match att.head with
    | none => []
    | some head => [⟨subjectGitHead, "", empty.set "sha1" head.hash, [], commitAnnotations head⟩]
  let normalizedMaterials ← (outputMaterials att.materials true).wrapErr "error normalizing materials"
  let materials := (normalizedMaterials.filter fun m => !m.digest.entries.isEmpty).map fun m =>
    { m with uri := "", content := [] }
  return workflow :: head ++ materials

def getChainloopMeta (w : WorkflowMetadata) : AttestationMetadata where
  name := w.name
  project := w.project
  projectVersion := w.version
  projectVersionPrerelease := w.prerelease
  team := w.team
  organization := w.organization
  contractName := w.contractName
  contractVersion := w.schemaRevision

def renderPredicate (env : RenderEnv) (att : CraftedAttestation) : Run ProvenancePredicateV02 := do
  let normalizedMaterials ← (outputMaterials att.materials false).wrapErr "error normalizing materials"
  let policy ← Run.ofExcept
    (predicate env.newStruct env.policyEvaluationsRef.isSome att.toAttestation)
  return {
    toPredicate := policy
    metadata := some (getChainloopMeta att.workflow)
    annotations := att.annotations
    materials := normalizedMaterials
    policyEvaluationsRef := env.policyEvaluationsRef
    policyEvaluationsFallback := .empty }

-- RendererV02.Statement. The predicate goes through JSON on its way into the statement.
def renderStatement (env : RenderEnv) (att : CraftedAttestation) : Run Statement := do
  let subject ← (renderSubject env att).wrapErr "error creating subject"
  let predicate ← (renderPredicate env att).wrapErr "error creating predicate"
  return ⟨subject, predicateTypeV02, predicateFields.write predicate⟩

def Statement.extractPredicate (s : Statement) : Except GoError ProvenancePredicateV02 :=
  if s.predicateType = predicateTypeV02 then
    wrapErr "extracting predicate" (Renderer.extractPredicate s.predicate)
  else .error (.new ("unsupported predicate type: " ++ s.predicateType))

theorem renderStatement_spec {s : Statement} (h : renderStatement env att = .ok s) :
    ∃ p, renderPredicate env att = .ok p ∧ renderSubject env att = .ok s.subject ∧
      s.predicateType = predicateTypeV02 ∧ s.predicate = predicateFields.write p := by
  obtain ⟨subject, hsubject, h⟩ := bind_eq_ok.mp h
  obtain ⟨p, hp, h⟩ := bind_eq_ok.mp h
  cases h
  exact ⟨p, (Run.wrapErr_eq_ok ..).mp hp, (Run.wrapErr_eq_ok ..).mp hsubject, rfl, rfl⟩

theorem renderPredicate_spec {env : RenderEnv} {att : CraftedAttestation}
    {p : ProvenancePredicateV02} (h : renderPredicate env att = .ok p) :
    predicate env.newStruct env.policyEvaluationsRef.isSome att.toAttestation = .ok p.toPredicate ∧
      outputMaterials att.materials false = .ok p.materials ∧
      p.metadata = some (getChainloopMeta att.workflow) ∧ p.annotations = att.annotations ∧
      p.policyEvaluationsFallback = .empty := by
  obtain ⟨materials, hmaterials, h⟩ := bind_eq_ok.mp h
  obtain ⟨policy, hpolicy, h⟩ := bind_eq_ok.mp h
  cases h
  exact ⟨(Run.ofExcept_eq_ok ..).mp hpolicy, (Run.wrapErr_eq_ok ..).mp hmaterials, rfl, rfl, rfl⟩

theorem extractPredicate_renderStatement {s : Statement} (h : renderStatement env att = .ok s) :
    ∃ p, renderPredicate env att = .ok p ∧ s.extractPredicate = .ok p := by
  obtain ⟨p, hp, _, htype, hpredicate⟩ := renderStatement_spec h
  obtain ⟨_, _, _, _, hfallback⟩ := renderPredicate_spec hp
  refine ⟨p, hp, ?_⟩
  rw [Statement.extractPredicate, if_pos htype, wrapErr_eq_ok, hpredicate]
  exact extractPredicate_write p hfallback

variable {materials : Map String Api.Material}

theorem mem_outputMaterials
    (h : outputMaterials materials onlyOutput = .ok ds) (d : Intoto.ResourceDescriptor) :
    d ∈ ds ↔ ∃ e ∈ materials.entries, outputMaterial onlyOutput e.1 e.2 = .ok (some d) := by
  obtain ⟨res, hres, h⟩ := bind_eq_ok.mp h
  cases h
  have hall := mapM_eq_ok_iff.mp hres
  have hperm := List.perm_insertionSort (fun a b : String × Api.Material => a.1 ≤ b.1)
    materials.entries
  rw [List.reduceOption_mem_iff]
  constructor
  · intro hd
    obtain ⟨e, he, hout⟩ := forall₂_exists_of_mem_right hall hd
    exact ⟨e, hperm.mem_iff.mp he, hout⟩
  · rintro ⟨e, he, hout⟩
    obtain ⟨o, ho, hout'⟩ := forall₂_exists_of_mem_left hall (hperm.mem_iff.mpr he)
    rw [hout] at hout'
    cases hout'
    exact ho

theorem outputMaterial_eq_some {m : Api.Material} :
    outputMaterial onlyOutput name m = .ok (some d) ↔
      ∃ n, m.normalizedOutput = .ok n ∧ (onlyOutput = true → n.isOutput = true) ∧
        m.craftingStateToIntotoDescriptor name = .ok d := by
  rw [outputMaterial, bind_eq_ok]
  refine exists_congr fun n => ?_
  rw [Run.wrapErr_eq_ok]
  cases onlyOutput <;> cases n.isOutput
  all_goals simp [pure, Except.pure, bind_eq_ok]

theorem outputMaterial_ok
    (h : outputMaterials materials onlyOutput = .ok ds) (he : e ∈ materials.entries) :
    ∃ o, outputMaterial onlyOutput e.1 e.2 = .ok o := by
  obtain ⟨res, hres, _⟩ := bind_eq_ok.mp h
  have hperm := List.perm_insertionSort (fun a b : String × Api.Material => a.1 ≤ b.1)
    materials.entries
  obtain ⟨o, _, ho⟩ := forall₂_exists_of_mem_left (mapM_eq_ok_iff.mp hres) (hperm.mem_iff.mpr he)
  exact ⟨o, ho⟩

end Chainloop.Renderer
