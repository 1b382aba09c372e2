import Chainloop.Go.Slice
import Chainloop.Materials.Craft
import Chainloop.Materials.Names

namespace Chainloop.Crafting

open Go Policies Materials

structure CraftingState where
  contract : Contract
  materials : Map String Material
  policyEvaluations : Slice PolicyEvaluation
  blockOnPolicyViolation : Bool
  policiesAllowedHostnames : List String
  projectName : String
  projectVersion : String
deriving DecidableEq

structure Snapshot where
  materials : Map String Material
  policyEvaluations : List (Option PolicyEvaluation)
deriving DecidableEq

def CraftingState.snapshot (st : CraftingState) : Snapshot :=
  ⟨st.materials, st.policyEvaluations.elems⟩

structure Crafter where
  state : CraftingState
  written : List Snapshot
deriving DecidableEq

-- A call returns a value or an error, or it panics on a nil pointer.
inductive Outcome (α : Type) where
  | ok (value : α)
  | failed (e : GoError)
  | panicked
deriving DecidableEq

def Outcome.wrap {α : Type} (context : String) : Outcome α → Outcome α
  | .failed e => .failed (e.wrap context)
  | outcome => outcome

-- The outside world of one staged material. The two verifiers have their own, so
-- that either can fail alone.
structure StageEnv where
  craftArtifact : SchemaMaterial → String → Except GoError Crafted
  validate : Material → Except GoError Unit
  groups : PolicyEnv
  standalone : PolicyEnv
  grow : Nat → Nat → Nat

structure AddOpts where
  runtimeInputs : Option RuntimeInputs
  recordSourceArchive : Bool
deriving DecidableEq

def CraftingState.verifier (st : CraftingState) (phase : EvalPhase)
    (runtimeInputs : Option RuntimeInputs) : PolicyVerifier :=
  { policies := st.contract.policies
    defaultGate := st.blockOnPolicyViolation
    evalPhase := phase
    runtimeInputs := runtimeInputs
    options := ⟨st.policiesAllowedHostnames, st.projectName, st.projectVersion⟩ }

-- Annotations given at runtime do not override a value from the contract.
def addRuntimeAnnotations (annotations runtime : Map String String) : Map String String :=
  runtime.entries.foldl (fun m e =>
    if m.getD e.1 "" ≠ "" then m else m.set e.1 e.2) annotations

-- The part of stageMaterial that touches no state: craft, annotate, validate.
def prepareMaterial (env : StageEnv) (m : SchemaMaterial) (value : String)
    (runtimeAnnotations : Map String String) : Except GoError (Material × Bytes) := do
  let (mt, content) ← craft env.craftArtifact m value
  let mt := { mt with annotations := addRuntimeAnnotations mt.annotations runtimeAnnotations }
  match mt.annotations.entries.find? fun e => e.2 == "" with
  | some e => .error (.new ("annotations [" ++ quote e.1 ++ "] required for material " ++ quote m.name))
  | none =>
    wrapErr "validation error" (env.validate mt)
    .ok (mt, content)

def stageMaterial (env : StageEnv) (st : CraftingState) (m : SchemaMaterial) (value : String)
    (runtimeAnnotations : Map String String) (opts : AddOpts) : Outcome Material × CraftingState :=
  match prepareMaterial env m value runtimeAnnotations with
  | .error e => (.failed e, st)
  | .ok (mt, content) =>
    match st.policyEvaluations.deleteFunc fun ev => ev.materialName == m.name with
    | none => (.panicked, st)
    | some remaining =>
      match groupsVerifyMaterial env.groups (st.verifier .unspecified none)
          st.contract.policyGroups mt value content with
      | .error e =>
        (.failed (e.wrap "error applying policy groups to material"),
          { st with policyEvaluations := remaining })
      | .ok groupResults =>
        match verifyMaterial env.standalone (st.verifier .unspecified opts.runtimeInputs)
            mt value content with
        | .error e =>
          (.failed (e.wrap "error applying policies to material"),
            { st with policyEvaluations := remaining.append env.grow groupResults })
        | .ok policyResults =>
          (.ok mt,
            { st with
              policyEvaluations :=
                (remaining.append env.grow groupResults).append env.grow policyResults
              materials := st.materials.set m.name mt })

-- stateManager.Write. A write that fails leaves the stored state alone.
def Crafter.write (result : Except GoError Unit) (c : Crafter) : Except GoError Unit × Crafter :=
  match result with
  | .error e => (.error (e.wrap "failed to persist crafting state"), c)
  | .ok () => (.ok (), { c with written := c.written ++ [c.state.snapshot] })

structure AddEnv where
  stage : StageEnv
  write : Except GoError Unit
  unixNano : Nat

def addMaterial (env : AddEnv) (c : Crafter) (m : SchemaMaterial) (value : String)
    (runtimeAnnotations : Map String String) (opts : AddOpts) : Outcome Material × Crafter :=
  match stageMaterial env.stage c.state m value runtimeAnnotations opts with
  | (.ok mt, st) =>
    match Crafter.write env.write { c with state := st } with
    | (.error e, c) => (.failed e, c)
    | (.ok (), c) => (.ok mt, c)
  | (outcome, st) => (outcome, { c with state := st })

def kindNotFound (kind : String) : GoError :=
  .new (quote kind ++ " kind not found. Available options are [" ++
    " ".intercalate (MaterialType.listAvailable.map quote) ++ "]")

def freeMaterial (type : MaterialType) (name : String) : SchemaMaterial :=
  ⟨type, name, true, false, [], ""⟩

def addMaterialContractFree (env : AddEnv) (c : Crafter) (kind name value : String)
    (runtimeAnnotations : Map String String) (opts : AddOpts) : Outcome Material × Crafter :=
  match MaterialType.value? kind with
  | none => (.failed (kindNotFound kind), c)
  | some type =>
    let name := if name = "" then "material-" ++ env.unixNano.repr else name
    addMaterial env c (freeMaterial type name) value runtimeAnnotations opts

def Contract.lookup (contract : Contract) (key : String) : Option SchemaMaterial :=
  (contract.materials.filter fun d => d.name == key).getLast?

def addMaterialFromContract (env : AddEnv) (c : Crafter) (key value : String)
    (runtimeAnnotations : Map String String) (opts : AddOpts) : Outcome Material × Crafter :=
  match Contract.lookup c.state.contract key with
  | none => (.failed (.new ("material with id " ++ quote key ++ " not found in the schema")), c)
  | some m => addMaterial env c m value runtimeAnnotations opts

end Chainloop.Crafting
