import Chainloop.Renderer.Normalize
import Chainloop.Renderer.Status

namespace Chainloop.Referrers

open Go Structpb Renderer

@[ext] structure Ref where
  digest : String
  kind : String
deriving DecidableEq

structure Referrer extends Ref where
  downloadable : Bool
  references : List Ref
  metadata : Map String String
  annotations : Map String String
deriving DecidableEq

def referrerAttestationType : String := "ATTESTATION"

def referrerGitHeadType : String := "GIT_HEAD_COMMIT"

def newRef (digest kind : String) : String := kind ++ "-" ++ digest

def Ref.mapID (r : Ref) : String := newRef r.digest r.kind

structure Envelope where
  extractStatement : Except GoError Statement

-- The map of referrers while it is filled. The attestation, which is in it under its
-- own key, is kept apart, since its list of references grows.
structure Draft where
  attestation : Referrer
  others : Map String Referrer

def Draft.has (d : Draft) (key : String) : Prop :=
  key = d.attestation.mapID ∨ key ∈ d.others.keys

instance (d : Draft) (key : String) : Decidable (d.has key) :=
  inferInstanceAs (Decidable (_ ∨ _))

-- A new referrer with a link to the attestation and one back, unless its key is taken.
def Draft.link (d : Draft) (r : Referrer) : Draft :=
  if d.has r.mapID then d
  else
    { attestation := { d.attestation with references := d.attestation.references ++ [r.toRef] }
      others := d.others.set r.mapID { r with references := [d.attestation.toRef] } }

def materialReferrer (m : NormalizedMaterial) (hash : Hash) : Referrer :=
  ⟨⟨hash.toString, m.type⟩, m.uploadedToCAS, [], .empty, .empty⟩

-- An attestation as a material has to be in the system already.
def checkAttestation (exist : String → Except GoError Bool) (m : NormalizedMaterial) (hash : Hash) :
    Except GoError Unit :=
  if m.type = referrerAttestationType then
    match exist hash.toString with
    | .error e => .error (e.wrap "checking if attestation exists")
    | .ok true => .ok ()
    | .ok false => .error (.new ("attestation material does not exist \"" ++ hash.toString ++ "\""))
  else .ok ()

def addMaterial (exist : String → Except GoError Bool) (d : Draft) (m : NormalizedMaterial) :
    Except GoError Draft :=
  match m.hash with
  | none => .ok d
  | some hash => do
    checkAttestation exist m hash
    return d.link (materialReferrer m hash)

-- v.(string) and v.(bool)
def assertString : Value → Run String
  | .string s => .ok s
  | _ => .error .panic

def assertBool : Value → Run Bool
  | .bool b => .ok b
  | _ => .error .panic

structure SubjectInfo where
  materialType : String
  uploadedToCAS : Bool

-- One round of the loop over the annotations of a subject.
def SubjectInfo.read (info : SubjectInfo) (e : String × Value) : Run SubjectInfo :=
  if e.1 = Api.annotationMaterialType then do
    let s ← assertString e.2
    return { info with materialType := s }
  else if e.1 = Api.annotationMaterialCAS then do
    let b ← assertBool e.2
    return { info with uploadedToCAS := b }
  else .ok info

-- One digest of a descriptor. Go fixes no order among several.
def digestText (r : Intoto.ResourceDescriptor) : String :=
  match r.digest.entries with
  | [] => ""
  | (alg, val) :: _ => alg ++ ":" ++ val

def intotoSubjectToReferrer (r : Intoto.ResourceDescriptor) : Run (Option Referrer) :=
  if r.name = subjectGitHead then
    if digestText r = "" then .error (.error (.new ("no digest found for subject " ++ r.name)))
    else .ok (some ⟨⟨digestText r, referrerGitHeadType⟩, false, [], .empty, .empty⟩)
  else do
    let info ← r.annotations.entries.foldlM SubjectInfo.read ⟨"", false⟩
    if info.materialType = "" then return none
    if digestText r = "" then
      throw (.error (.new ("no digest found for subject " ++ r.name)))
    return some ⟨⟨digestText r, info.materialType⟩, info.uploadedToCAS, [], .empty, .empty⟩

def addSubject (d : Draft) (subject : Intoto.ResourceDescriptor) : Run Draft := do
  let referrer ← (intotoSubjectToReferrer subject).wrapErr "transforming subject to referrer"
  match referrer with
  | none => return d
  | some r => return d.link r

def attestationMetadata (m : AttestationMetadata) (status : PolicyEvaluationStatus) :
    Map String String :=
  .ofList [("name", m.name), ("team", m.team), ("project", m.project),
    ("hasPolicyViolations", toString status.hasViolations),
    ("hasGatedPolicyViolations", toString status.hasGatedViolations),
    ("projectVersion", m.projectVersion),
    ("projectVersionPrerelease", toString m.projectVersionPrerelease),
    ("organization", m.organization), ("contractName", m.contractName),
    ("contractVersion", m.contractVersion)]

def getMaterials (print : Value → String) (p : ProvenancePredicateV02) : List NormalizedMaterial :=
  p.materials.filterMap fun m => (normalizeMaterial print m).toOption

def Draft.referrers (d : Draft) : List Referrer :=
  (((d.attestation.mapID, d.attestation) :: d.others.entries).insertionSort
    fun a b => a.1 ≤ b.1).map Prod.snd

-- A predicate without metadata is a nil dereference.
def attestationReferrer (digest : String) (p : ProvenancePredicateV02) : Run Referrer :=
  match p.metadata with
  | none => .error .panic
  | some metadata => .ok ⟨⟨digest, referrerAttestationType⟩, true, [],
      attestationMetadata metadata p.getPolicyEvaluationStatus, p.annotations⟩

def extractReferrers (print : Value → String) (exist : String → Except GoError Bool)
    (att : Envelope) (digest : String) : Run (List Referrer) := do
  let statement ← Run.ofExcept (wrapErr "extracting predicate"
    (wrapErr "extracting statement" att.extractStatement))
  let predicate ← Run.ofExcept (wrapErr "extracting predicate" statement.extractPredicate)
  let attestation ← attestationReferrer digest predicate
  let d ← Run.ofExcept
    ((getMaterials print predicate).foldlM (addMaterial exist) ⟨attestation, .empty⟩)
  let d ← statement.subject.foldlM addSubject d
  return d.referrers

theorem extractReferrers_eq {s : Statement} (hp : s.extractPredicate = .ok p)
    (hattestation : attestationReferrer digest p = .ok attestation) :
    extractReferrers print exist ⟨.ok s⟩ digest = (do
      let d ← Run.ofExcept
        ((getMaterials print p).foldlM (addMaterial exist) ⟨attestation, .empty⟩)
      let d ← s.subject.foldlM addSubject d
      return d.referrers) := by
  change (Run.ofExcept (wrapErr "extracting predicate" s.extractPredicate) >>= _) = _
  rw [hp]
  change (attestationReferrer digest p >>= _) = _
  rw [hattestation]
  rfl

end Chainloop.Referrers
