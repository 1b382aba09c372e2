import Chainloop.Policies.Attachment

namespace Chainloop.Policies

open Go

def selectM {ε α : Type} (test : α → Except ε Bool) : List α → Except ε (List α)
  | [] => .ok []
  | a :: rest => do
    let keep ← test a
    let tail ← selectM test rest
    .ok (if keep then a :: tail else tail)

-- The results slice of a verifier, each entry beside the attachment it is for. A
-- nil entry is a policy that was skipped.
abbrev Trace := List (PolicyAttachment × Option PolicyEvaluation)

def Trace.evaluations (trace : Trace) : List PolicyEvaluation := trace.filterMap Prod.snd

def evaluateEach (evaluate : PolicyAttachment → Except GoError (Option PolicyEvaluation))
    (attachments : List PolicyAttachment) : Except GoError Trace :=
  attachments.mapM fun att => do
    let ev ← evaluate att
    .ok (att, ev)

def getPolicyTypes (p : Policy) : List MaterialType :=
  if p.spec.type ≠ .unspecified then [p.spec.type]
  else (p.spec.policies.map PolicySpecV2.kind).filter (· ≠ .unspecified)

def nameMatches (name : String) (mode : MatchMode) (materialID : String) : Bool :=
  match mode with
  | .namePrefix => startsWith materialID name
  | _ => name == materialID

-- GetEvaluableContent refuses a redacted material without its stored content.
def getEvaluableContent (env : PolicyEnv) (material : Material) (value : String)
    (content : Bytes) : Except GoError Bytes :=
  if content = [] ∧ material.annotations.getD "chainloop.material.redacted" "" = "true" then
    .error (.new ("sanitized content is required to evaluate a redacted material: " ++
      "policies must never be handed the un-redacted original"))
  else env.evaluableContent material value content

section Standalone

variable (env : PolicyEnv) (pv : PolicyVerifier)

def shouldApplyPolicy (material : Material) (policyAtt : PolicyAttachment) : Except GoError Bool := do
  let (spec, _) ← wrapErr ("failed to load policy attachment " ++ quote policyAtt.ref)
    (loadPolicySpec env.toLoaderEnv policyAtt)
  let filteredName := policyAtt.selector.name
  let specTypes := getPolicyTypes spec
  if specTypes ≠ [] ∧ material.materialType ∉ specTypes then .ok false
  else if filteredName ≠ "" ∧
      nameMatches filteredName policyAtt.selector.matchMode material.id = false then .ok false
  else if specTypes = [] ∧ filteredName = "" then .ok false
  else .ok true

def requiredPoliciesForMaterial (material : Material) : Except GoError (List PolicyAttachment) :=
  selectM (shouldApplyPolicy env material) pv.policies.materials

def materialOpts (material : Material) (bindings : Map String String)
    (runtimeInputs : Option RuntimeInputs) : EvalOpts :=
  ⟨material.id, material.materialType, bindings, runtimeInputs⟩

def statementOpts (bindings : Map String String) : EvalOpts := ⟨"", .attestation, bindings, none⟩

def verifyMaterialTrace (material : Material) (path : String) (content : Bytes) :
    Except GoError Trace := do
  let attachments ← policyErr (requiredPoliciesForMaterial env pv material)
  if attachments.isEmpty then .ok []
  else
    let subject ← policyErr (getEvaluableContent env material path content)
    evaluateEach (fun att => policyErr
      (evaluatePolicyAttachment env pv att subject (materialOpts material .empty pv.runtimeInputs)))
      attachments

def verifyMaterial (material : Material) (path : String) (content : Bytes) :
    Except GoError (List PolicyEvaluation) :=
  Trace.evaluations <$> verifyMaterialTrace env pv material path content

def verifyStatementTrace (statement : Statement) : Except GoError Trace := do
  let statementJSON ← policyErr (env.marshalStatement statement)
  evaluateEach (fun att => policyErr
    (evaluatePolicyAttachment env pv att statementJSON (statementOpts .empty))) pv.policies.attestation

def verifyStatement (statement : Statement) : Except GoError (List PolicyEvaluation) :=
  Trace.evaluations <$> verifyStatementTrace env pv statement

end Standalone

def applyGroupGate (policyAtt : PolicyAttachment) (groupAtt : PolicyGroupAttachment) :
    PolicyAttachment :=
  match groupAtt.gate with
  | none => policyAtt
  | some gate => { policyAtt with gate := some gate }

section Group

variable (env : PolicyEnv) (pv : PolicyVerifier)

-- PolicyGroupVerifier.shouldApplyPolicy looks at the types only.
def groupShouldApplyPolicy (material : Material) (policyAtt : PolicyAttachment) :
    Except GoError Bool := do
  let (spec, _) ← wrapErr ("failed to load policy attachment " ++ quote policyAtt.ref)
    (loadPolicySpec env.toLoaderEnv policyAtt)
  let specTypes := getPolicyTypes spec
  .ok (specTypes.isEmpty || specTypes.contains material.materialType)

-- InterpolateGroupMaterial changes nothing but the name.
def interpolateGroupMaterial (gm : GroupMaterial) (bindings : Map String String) :
    Except GoError GroupMaterial := do
  let name ← applyBinding env.renderTemplate gm.name bindings
  .ok { gm with name := name }

def groupMaterialPolicies (material : Material) (groupArgs : Map String String)
    (groupMaterial : GroupMaterial) : Except GoError (List PolicyAttachment) := do
  let gm ← interpolateGroupMaterial env groupMaterial groupArgs
  if gm.name ≠ "" ∧ nameMatches gm.name gm.matchMode material.id = false then .ok []
  else selectM (groupShouldApplyPolicy env material) gm.policies

def groupRequiredPolicies (material : Material) (group : PolicyGroup)
    (groupArgs : Map String String) : Except GoError (List PolicyAttachment) := do
  let found ← group.materials.mapM (groupMaterialPolicies env material groupArgs)
  .ok found.flatten

def shouldSkipPolicy (skipList : List String) (attachment : PolicyAttachment) :
    Except GoError Bool := do
  if skipList.isEmpty then .ok false
  else
    let (policy, _) ← wrapErr "failed to load policy to get name"
      (loadPolicySpec env.toLoaderEnv attachment)
    .ok (skipList.contains policy.metadata.name)

def groupReference (group : PolicyGroup) (desc : PolicyDescriptor) : Reference :=
  ⟨group.metadata.name, desc.digest, desc.uri, desc.orgName⟩

def evaluateInGroup (groupAtt : PolicyGroupAttachment) (group : PolicyGroup)
    (desc : PolicyDescriptor) (subject : Bytes) (opts : EvalOpts) (att : PolicyAttachment) :
    Except GoError (Option PolicyEvaluation) := do
  let skip ← policyErr (wrapErr "failed to check if policy should be skipped"
    (shouldSkipPolicy env groupAtt.skip att))
  if skip then .ok none
  else
    let ev ← policyErr (evaluatePolicyAttachment env pv (applyGroupGate att groupAtt) subject opts)
    .ok (ev.map fun ev => { ev with groupReference := some (groupReference group desc) })

def groupMaterialTrace (material : Material) (path : String) (content : Bytes)
    (groupAtt : PolicyGroupAttachment) : Except GoError Trace := do
  let (group, desc) ← policyErr (loadPolicyGroup env.toLoaderEnv groupAtt)
  let groupArgs ← policyErr
    (computeArguments env.renderTemplate group.inputs groupAtt.withArgs .empty)
  let policyAtts ← policyErr (groupRequiredPolicies env material group groupArgs)
  if policyAtts.isEmpty then .ok []
  else
    let subject ← policyErr (getEvaluableContent env material path content)
    evaluateEach (evaluateInGroup env pv groupAtt group desc subject
      (materialOpts material groupArgs none)) policyAtts

def groupsVerifyMaterialTrace (groups : List PolicyGroupAttachment) (material : Material)
    (path : String) (content : Bytes) : Except GoError Trace := do
  let traces ← groups.mapM (groupMaterialTrace env pv material path content)
  .ok traces.flatten

def groupsVerifyMaterial (groups : List PolicyGroupAttachment) (material : Material)
    (path : String) (content : Bytes) : Except GoError (List PolicyEvaluation) :=
  Trace.evaluations <$> groupsVerifyMaterialTrace env pv groups material path content

-- A group that cannot be loaded is left out, unless the network guard refused it.
def groupStatementTrace (statement : Statement) (groupAtt : PolicyGroupAttachment) :
    Except GoError Trace :=
  match loadPolicyGroup env.toLoaderEnv groupAtt with
  | .error e => if e.is .blockedTarget then .error (newPolicyError e) else .ok []
  | .ok (group, desc) => do
    let groupArgs ← policyErr
      (computeArguments env.renderTemplate group.inputs groupAtt.withArgs .empty)
    let statementJSON ← policyErr (env.marshalStatement statement)
    evaluateEach (evaluateInGroup env pv groupAtt group desc statementJSON
      (statementOpts groupArgs)) group.attestation

def groupsVerifyStatementTrace (groups : List PolicyGroupAttachment) (statement : Statement) :
    Except GoError Trace := do
  let traces ← groups.mapM (groupStatementTrace env pv statement)
  .ok traces.flatten

def groupsVerifyStatement (groups : List PolicyGroupAttachment) (statement : Statement) :
    Except GoError (List PolicyEvaluation) :=
  Trace.evaluations <$> groupsVerifyStatementTrace env pv groups statement

end Group

end Chainloop.Policies
