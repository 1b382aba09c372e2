import Chainloop.Intoto.Descriptor
import Chainloop.Renderer.Predicate

namespace Chainloop.Renderer

open Go Structpb
open Policies (Finding)

structure AttestationMetadata where
  name : String
  project : String
  projectVersion : String
  projectVersionPrerelease : Bool
  team : String
  organization : String
  contractName : String
  contractVersion : String
deriving DecidableEq

structure PolicyEvaluationsRef where
  descriptor : Intoto.ResourceDescriptor
  sizeBytes : Nat

structure ProvenancePredicateV02 extends Predicate where
  metadata : Option AttestationMetadata
  annotations : Map String String
  materials : List Intoto.ResourceDescriptor
  policyEvaluationsRef : Option PolicyEvaluationsRef
  policyEvaluationsFallback : Map String (List PolicyEvaluation)

-- The message of the strategy is a text. Only ENFORCED is ever asked for.
def strategyCodec : Codec BlockingStrategy :=
  Codec.string.via (fun | .enforced => "ENFORCED" | .advisory => "ADVISORY")
    (fun s => if s = "ENFORCED" then .enforced else .advisory) (by intro s; cases s <;> rfl)
    (by intro s h; cases s <;> simp [Codec.string] at h)

def findingFields : Fields Finding :=
  ((Fields.field "type" .string).both (Fields.field "body" .string) (by decide)).as
    (fun f => (f.findingType, f.body)) (fun p => ⟨p.1, p.2⟩) (fun _ => rfl)

-- The source has a key for each kind of finding. The predicate has none of them.
def violationCodec : Codec PolicyViolation :=
  (((Fields.field "subject" .string).both ((Fields.field "message" .string).both
    ((Fields.omitEmpty "suppress" .bool).both
      (Fields.omitEmpty "finding" (findingFields.pointer ⟨"", ""⟩))
      (by decide)) (by decide)) (by decide)).as
    (fun v => (v.subject, v.message, v.suppress, v.finding))
    (fun p => ⟨p.1, p.2.1, p.2.2.1, p.2.2.2⟩) (fun _ => rfl)).object ⟨"", "", false, none⟩

-- The name of a reference stands in it twice.
def referenceFields : Fields ResourceDescriptor :=
  let annotations := ((Fields.field "name" .string).both (Fields.field "organization" .string)
    (by decide)).object ("", "")
  let digest := (Fields.field "sha256" .string).object ""
  ((Fields.omitEmpty "name" .string).both ((Fields.omitEmpty "uri" .string).both
    ((Fields.field "digest" digest).both (Fields.field "annotations" annotations)
      (by decide)) (by decide)) (by decide)).as
    (fun d => (d.name, d.uri, d.sha256, d.name, d.organization))
    (fun p => ⟨p.1, p.2.1, p.2.2.1, p.2.2.2.2⟩) (fun _ => rfl)

def referencePointer : Codec (Option ResourceDescriptor) := referenceFields.pointer ⟨"", "", "", ""⟩

-- A field that old attestations have under another key, which wins if it is set.
def renamed {α : Type} (key old : String) (c : Codec α) (h : ∀ k ∈ [key], k ∉ [old])
    (hzero : c.empty c.zero = true) : Fields α :=
  ((Fields.omitEmpty key c).both (Fields.omitEmpty old c) h).as (fun a => (a, c.zero))
    (fun p => if c.empty p.2 then p.1 else p.2) (fun a => by simp [hzero])

def evaluationCodec : Codec PolicyEvaluation :=
  (((Fields.field "name" .string).both
    ((renamed "materialName" "material_name" .string (by decide) rfl).both
    ((Fields.omitEmpty "sources" (.slice .string)).both
    ((renamed "policyReference" "policy_reference" referencePointer (by decide) rfl).both
    ((Fields.omitEmpty "description" .string).both
    ((Fields.omitEmpty "annotations" (.dict .string)).both
    ((Fields.omitEmpty "violations" (.slice violationCodec)).both
    ((Fields.omitEmpty "with" (.dict .string)).both
    ((Fields.field "type" .string).both
    ((Fields.field "skipped" .bool).both
    ((Fields.omitEmpty "skipReasons" (.slice .string)).both
    ((Fields.omitEmpty "groupReference" referencePointer).both
    ((Fields.omitEmpty "requirements" (.slice .string)).both
      (Fields.omitEmpty "gate" .bool) (by decide)) (by decide)) (by decide)) (by decide))
      (by decide)) (by decide)) (by decide)) (by decide)) (by decide)) (by decide)) (by decide))
      (by decide)) (by decide)).as
    (fun e => (e.name, e.materialName, e.sources, e.policyReference, e.description, e.annotations,
      e.violations, e.withArgs, e.type, e.skipped, e.skipReasons, e.groupReference, e.requirements,
      e.gate))
    (fun ⟨name, materialName, sources, policyReference, description, annotations, violations,
        withArgs, type, skipped, skipReasons, groupReference, requirements, gate⟩ =>
      ⟨name, materialName, sources, policyReference, description, annotations, violations, withArgs,
        type, skipped, skipReasons, groupReference, requirements, gate⟩)
    (fun _ => rfl)).object
  ⟨"", "", [], none, "", .empty, [], .empty, "", false, [], none, [], false⟩

def metadataFields : Fields AttestationMetadata :=
  ((Fields.field "name" .string).both ((Fields.field "project" .string).both
    ((Fields.field "projectVersion" .string).both
    ((Fields.field "projectVersionPrerelease" .bool).both
    ((Fields.field "team" .string).both
    ((Fields.field "organization" .string).both
    ((Fields.field "contractName" .string).both
      (Fields.field "contractVersion" .string) (by decide)) (by decide)) (by decide)) (by decide))
      (by decide)) (by decide)) (by decide)).as
    (fun m => (m.name, m.project, m.projectVersion, m.projectVersionPrerelease, m.team,
      m.organization, m.contractName, m.contractVersion))
    (fun ⟨name, project, projectVersion, projectVersionPrerelease, team, organization, contractName,
        contractVersion⟩ =>
      ⟨name, project, projectVersion, projectVersionPrerelease, team, organization, contractName,
        contractVersion⟩)
    (fun _ => rfl)

def refFields : Fields PolicyEvaluationsRef :=
  (Intoto.ResourceDescriptor.fields.both (Fields.omitEmpty "size" .int) (by decide)).as
    (fun r => (r.descriptor, r.sizeBytes)) (fun p => ⟨p.1, p.2⟩) (fun _ => rfl)

def evaluationsCodec : Codec (Map String (List PolicyEvaluation)) := .dict (.slice evaluationCodec)

def renderedFields :=
  (Fields.field "metadata" (metadataFields.pointer ⟨"", "", "", false, "", "", "", ""⟩)).both
    ((Fields.omitEmpty "annotations" (.dict .string)).both
    ((Fields.omitEmpty "materials" (.slice Intoto.ResourceDescriptor.codec)).both
    ((Fields.omitEmpty "policyEvaluations" evaluationsCodec).both
    ((Fields.omitEmpty "policyEvaluationsRef"
        (refFields.pointer ⟨⟨"", "", .empty, [], .empty⟩, 0⟩)).both
    ((Fields.field "policyHasViolations" .bool).both
    ((Fields.field "policyEvaluationsCount" .int).both
    ((Fields.field "policyViolationsCount" .int).both
    ((Fields.omitEmpty "policySkippedCount" .int).both
    ((Fields.omitEmpty "policyPassedCount" .int).both
    ((Fields.omitEmpty "policySuppressedCount" .int).both
    ((Fields.omitEmpty "policyHasGatedViolations" .bool).both
    ((Fields.omitEmpty "policyHasGates" .bool).both
    ((Fields.field "policyCheckBlockingStrategy" strategyCodec).both
    ((Fields.field "policyBlockBypassEnabled" .bool).both
      (Fields.field "policyAttBlocked" .bool) (by decide)) (by decide)) (by decide)) (by decide))
      (by decide)) (by decide)) (by decide)) (by decide)) (by decide)) (by decide)) (by decide))
      (by decide)) (by decide)) (by decide)) (by decide)

def predicateFields : Fields ProvenancePredicateV02 :=
  (renderedFields.both (Fields.omitEmpty "policy_evaluations" evaluationsCodec) (by decide)).as
    (fun p => ((p.metadata, p.annotations, p.materials, p.policyEvaluations, p.policyEvaluationsRef,
      p.policyHasViolations, p.policyEvaluationsCount, p.policyViolationsCount,
      p.policySkippedCount, p.policyPassedCount, p.policySuppressedCount,
      p.policyHasGatedViolations, p.policyHasGates, p.policyCheckBlockingStrategy,
      p.policyBlockBypassEnabled, p.policyAttBlocked), p.policyEvaluationsFallback))
    (fun ⟨⟨metadata, annotations, materials, evaluations, ref, hasViolations, evaluationsCount,
        violationsCount, skippedCount, passedCount, suppressedCount, hasGatedViolations, hasGates,
        strategy, bypassEnabled, attBlocked⟩, fallback⟩ =>
      ⟨⟨evaluations, hasViolations, evaluationsCount, violationsCount, skippedCount, passedCount,
        suppressedCount, hasGatedViolations, hasGates, strategy, bypassEnabled, attBlocked⟩,
        metadata, annotations, materials, ref, fallback⟩)
    (fun _ => rfl)

-- Old statements have the number of the material type where newer ones have its name.
def fixType : Value → Value
  | .number n => .string ((MaterialType.all[n]?.map MaterialType.name).getD "")
  | v => v

def fixEvaluation : Value → Value
  | .struct fields => .struct (fields.map fun e => if e.1 = "type" then (e.1, fixType e.2) else e)
  | v => v

def fixEvaluations : Value → Value
  | .struct fields => .struct (fields.map fun e => match e.2 with
      | .list evaluations => (e.1, .list (evaluations.map fixEvaluation))
      | v => (e.1, v))
  | v => v

def fixPolicyTypeField (predicate : List (String × Value)) : List (String × Value) :=
  predicate.map fun e => if e.1 = "policy_evaluations" then (e.1, fixEvaluations e.2) else e

def extractPredicate (predicate : List (String × Value)) : Except GoError ProvenancePredicateV02 := do
  let v ← wrapErr "un-marshaling predicate" (predicateFields.read (fixPolicyTypeField predicate))
  -- Fix compatibility with old versions
  if v.policyEvaluationsFallback.entries = [] then return v
  return { v with policyEvaluations := v.policyEvaluationsFallback }

theorem fixPolicyTypeField_eq_self {predicate : List (String × Value)}
    (h : ∀ e ∈ predicate, e.1 ≠ "policy_evaluations") :
    fixPolicyTypeField predicate = predicate := by
  refine (List.map_congr_left fun e he => ?_).trans (List.map_id _)
  rw [if_neg (h e he)]
  rfl

theorem extractPredicate_write (p : ProvenancePredicateV02)
    (h : p.policyEvaluationsFallback = .empty) :
    extractPredicate (predicateFields.write p) = .ok p := by
  have hkeys (e) (he : e ∈ predicateFields.write p) : e.1 ≠ "policy_evaluations" := by
    rcases List.mem_append.mp he with he | he
    · have hkey := renderedFields.write_keys _ e he
      intro hold
      rw [hold] at hkey
      exact absurd hkey (by decide)
    · simp only [h] at he
      cases he
  have hread := predicateFields.read_write p [] [] (by simp) (by simp)
  rw [List.append_nil] at hread
  rw [← fixPolicyTypeField_eq_self hkeys] at hread
  refine bind_eq_ok.mpr ⟨p, (wrapErr_eq_ok ..).mpr hread, ?_⟩
  rw [h]
  rfl

end Chainloop.Renderer
