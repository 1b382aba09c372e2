import Chainloop.Crafter.Evaluate

namespace Chainloop.Action

open Go Policies Materials Crafting

structure PolicyInputFromFile where
  policy : String
  input : String
  column : String
  file : String
deriving DecidableEq

structure InlineInput where
  policy : String
  input : String
  value : String
deriving DecidableEq

inductive ArchiveFormat where
  | none | zip | tar | tarGz
deriving DecidableEq

structure AddRequest where
  materialName : String
  materialValue : String
  materialType : String
  annotations : Map String String
  policyInputFiles : List PolicyInputFromFile
  policyInputs : List InlineInput
deriving DecidableEq

-- The outside world of one run of the action. The adds that it makes, of the
-- material and of its evidence, each have their own.
structure RunEnv where
  newCrafter : Except GoError Unit
  extractColumnValues : String → String → Except GoError (List String)
  alreadyInitialized : Except GoError Bool
  loadCraftingState : Except GoError Unit
  getCASBackend : Except GoError Unit
  detectPath : String → Except GoError ArchiveFormat
  archive : ArchiveFormat → ArchiveEnv
  add : Nat → AddEnv
  evidence : Nat → AddEnv
  setMaterialValue : Material → Except GoError Unit

def explodableKinds : List String :=
  [MaterialType.sbomCyclonedxJson.name, MaterialType.sbomSpdxJson.name, MaterialType.sarif.name]

def isExplodableKind (kind : String) : Bool := explodableKinds.contains kind

def shouldExplode (env : RunEnv) (materialType value : String) : Except GoError ArchiveFormat :=
  if isExplodableKind materialType then env.detectPath value else .ok .none

def addAppendInput (ri : RuntimeInputs) (policy input value : String) : RuntimeInputs :=
  let add := .ofList [(input, value)]
  if policy = "" then { ri with global := mergeRuntimeInputs ri.global add }
  else
    let merged := mergeRuntimeInputs (ri.scopedInputs.getD policy .empty) add
    { ri with scopedInputs := ri.scopedInputs.set policy merged }

def addOverrideInput (ri : RuntimeInputs) (policy input value : String) : RuntimeInputs :=
  if policy = "" then { ri with globalOverride := ri.globalOverride.set input value }
  else
    let overrides := (ri.scopedOverride.getD policy .empty).set input value
    { ri with scopedOverride := ri.scopedOverride.set policy overrides }

def buildRuntimeInputs (env : RunEnv) (policyInputFiles : List PolicyInputFromFile)
    (policyInputs : List InlineInput) : Except GoError (Option RuntimeInputs) := do
  if policyInputFiles = [] ∧ policyInputs = [] then return none
  let ri ← policyInputFiles.foldlM (fun ri pif => do
    let values ← wrapErr ("extracting " ++ quote pif.column ++ " from " ++ quote pif.file)
      (env.extractColumnValues pif.file pif.column)
    return addAppendInput ri pif.policy pif.input ("\n".intercalate values))
    (⟨.empty, .empty, .empty, .empty⟩ : RuntimeInputs)
  return some (policyInputs.foldl (fun ri pi => addOverrideInput ri pi.policy pi.input pi.value) ri)

def runtimeInputAddOpts : Option RuntimeInputs → Option RuntimeInputs
  | none => none
  | some ri =>
    if ri.global.size = 0 ∧ ri.scopedInputs.size = 0 ∧ ri.globalOverride.size = 0 ∧
      ri.scopedOverride.size = 0 then none
    else some ri

def isMaterialInContract (contract : Contract) (key : String) : Bool :=
  contract.materials.any fun d => d.name == key

-- The kinds in validation order, up to one that fits. An error that is no sign of
-- another kind ends the search.
def tryKinds (env : Nat → AddEnv) (name value : String) (annotations : Map String String)
    (opts : AddOpts) : List MaterialType → Nat → Crafter → Outcome Material × Crafter
  | [], _, c => (.failed (.new "failed to auto-discover material kind"), c)
  | kind :: rest, attempt, c =>
    match addMaterialContractFree (env attempt) c kind.name name value annotations opts with
    | (.failed e, c) =>
      if e.is .uploadAndCraft || e.is .policy || e.is .stateConflict || e.is .validation then
        (.failed e, c)
      else tryKinds env name value annotations opts rest (attempt + 1) c
    | returned => returned

def addMaterialContactFreeWithAutoDetectedKind (env : Nat → AddEnv) (c : Crafter)
    (name value : String) (annotations : Map String String) (opts : AddOpts) :
    Outcome Material × Crafter :=
  tryKinds env name value annotations opts MaterialType.inValidationOrder 0 c

def addSubject (env : Nat → AddEnv) (c : Crafter) (req : AddRequest) (opts : AddOpts) :
    Outcome Material × Crafter :=
  if req.materialName = "" ∧ req.materialType = "" then
    addMaterialContactFreeWithAutoDetectedKind env c "" req.materialValue req.annotations opts
  else if req.materialName ≠ "" ∧ isMaterialInContract c.state.contract req.materialName then
    addMaterialFromContract (env 0) c req.materialName req.materialValue req.annotations opts
  else if req.materialName ≠ "" ∧ req.materialType = "" then
    addMaterialContactFreeWithAutoDetectedKind env c req.materialName req.materialValue
      req.annotations opts
  else
    addMaterialContractFree (env 0) c req.materialType req.materialName req.materialValue
      req.annotations opts

def sanitizeMaterialNamePart (s : String) : String := nameOr "input" s

-- The names of the evidence, numbered where two files map to the same base.
def numberNames (base : List String) (seen : Map String Nat) : List String → List String
  | [] => []
  | b :: rest =>
    if 1 < base.count b then
      let n := seen.getD b 0 + 1
      (b ++ "-" ++ n.repr) :: numberNames base (seen.set b n) rest
    else b :: numberNames base seen rest

def policyInputEvidenceNames (materialName : String) (files : List PolicyInputFromFile) :
    List String :=
  let base := files.map fun pif => materialName ++ "-" ++ sanitizeMaterialNamePart pif.input
  numberNames base .empty base

def annotationPolicyInput : String := "chainloop.material.policy_input"

@[irreducible] def addEvidence (env : AddEnv) (c : Crafter) (subject name : String) (pif : PolicyInputFromFile) :
    Outcome Material × Crafter :=
  addMaterialContractFree env c MaterialType.evidence.name name pif.file
    (.ofList [(materialReferences, subject), (annotationPolicyInput, pif.input)]) ⟨none, false⟩

def recordEvidence (env : Nat → AddEnv) (subject : String) :
    List (String × PolicyInputFromFile) → Nat → Crafter → Outcome Unit × Crafter
  | [], _, c => (.ok (), c)
  | item :: rest, i, c =>
    match addEvidence (env i) c subject item.1 item.2 with
    | (.ok _, c) => recordEvidence env subject rest (i + 1) c
    | (.failed e, c) => (.failed (e.wrap ("adding evidence material " ++ quote item.1)), c)
    | (.panicked, c) => (.panicked, c)

-- The subject is the object that the materials map holds, so the reference shows
-- there. It is written with the evidence.
def referBack (c : Crafter) (subject : Material) (names : List String) : Crafter :=
  if names = [] then c
  else
    let materials := c.state.materials.set subject.id (addReference subject names)
    { c with state := { c.state with materials := materials } }

def addPolicyInputEvidence (env : Nat → AddEnv) (c : Crafter) (subject : Material)
    (files : List PolicyInputFromFile) : Outcome Unit × Crafter :=
  let names := policyInputEvidenceNames subject.id files
  recordEvidence env subject.id (names.zip files) 0 (referBack c subject names)

def attMaterialsToAction (env : RunEnv) (mts : List Material) : Except GoError Unit :=
  mts.forM fun mt =>
    wrapErr "converting material to action" (wrapErr "setting material value" (env.setMaterialValue mt))

def Outcome.ofExcept {α : Type} : Except GoError α → Outcome α
  | .ok a => .ok a
  | .error e => .failed e

def finish (env : RunEnv) (mts : List Material) (c : Crafter) : Outcome (List Material) × Crafter :=
  (Outcome.ofExcept ((attMaterialsToAction env mts).map fun _ => mts), c)

def runExplode (env : RunEnv) (c : Crafter) (req : AddRequest) (format : ArchiveFormat)
    (runtimeInputs : Option RuntimeInputs) : Outcome (List Material) × Crafter :=
  match addMaterialsFromArchive (env.archive format) c req.materialType req.materialName
      req.materialValue req.annotations ⟨runtimeInputs, true⟩ with
  | (.ok mts, c) => finish env mts c
  | (outcome, c) => (outcome.wrap "adding materials from archive", c)

def runPlain (env : RunEnv) (c : Crafter) (req : AddRequest)
    (runtimeInputs : Option RuntimeInputs) : Outcome (List Material) × Crafter :=
  match addSubject env.add c req ⟨runtimeInputs, false⟩ with
  | (.failed e, c) => (.failed (e.wrap "adding material"), c)
  | (.panicked, c) => (.panicked, c)
  | (.ok mt, c) =>
    match addPolicyInputEvidence env.evidence c mt req.policyInputFiles with
    | (.failed e, c) => (.failed (e.wrap "recording policy input evidence"), c)
    | (.panicked, c) => (.panicked, c)
    | (.ok (), c) => finish env [mt] c

def requireInitialized (initialized : Bool) : Except GoError Unit :=
  if initialized then .ok () else .error (.new "attestation not yet initialized")

def prepareRun (env : RunEnv) (req : AddRequest) :
    Except GoError (Option RuntimeInputs × ArchiveFormat) := do
  wrapErr "failed to load crafter" env.newCrafter
  let runtimeInputs ← buildRuntimeInputs env req.policyInputFiles req.policyInputs
  let initialized ← wrapErr "checking if attestation is already initialized" env.alreadyInitialized
  requireInitialized initialized
  env.loadCraftingState
  wrapErr "failed to get CAS backend" env.getCASBackend
  let format ← wrapErr "detecting archive" (shouldExplode env req.materialType req.materialValue)
  return (runtimeInputAddOpts runtimeInputs, format)

-- LoadCraftingState, of the last write.
def load (st : CraftingState) (snap : Snapshot) : CraftingState :=
  { st with
    materials := snap.materials
    policyEvaluations := ⟨snap.policyEvaluations, snap.policyEvaluations.length, le_rfl⟩ }

def stored (st : CraftingState) (c : Crafter) : CraftingState :=
  match c.written.getLast? with
  | none => st
  | some snap => load st snap

def run (env : RunEnv) (st : CraftingState) (req : AddRequest) :
    Outcome (List Material) × CraftingState :=
  match prepareRun env req with
  | .error e => (.failed e, st)
  | .ok (runtimeInputs, format) =>
    let (outcome, c) :=
      if format = .none then runPlain env ⟨st, []⟩ req runtimeInputs
      else runExplode env ⟨st, []⟩ req format runtimeInputs
    (outcome, stored st c)

end Chainloop.Action
