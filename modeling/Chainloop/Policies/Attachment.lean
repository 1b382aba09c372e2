import Chainloop.Policies.Api

namespace Chainloop.Policies

open Go Text

def targetPhase? : EvalPhase → Option AttestationPhase
  | .unspecified => none
  | .init => some .init
  | .push => some .push

def shouldEvaluateAtPhase (phases : List AttestationPhase) (phase : EvalPhase) : Bool :=
  match phases, targetPhase? phase with
  | [], _ => true
  | _, none => true
  | phases, some target => phases.contains target

def matchesKind (kind : MaterialType) (s : PolicySpecV2) : Bool :=
  s.kind == .unspecified || s.kind == kind

def attestationPhasesForKind (spec : PolicySpec) (kind : MaterialType) : List AttestationPhase :=
  if spec.source.isSome then []
  else (spec.policies.filter (matchesKind kind)).flatMap PolicySpecV2.attestationPhases

def decodeIfBase64Wasm (env : PolicyEnv) (content : Bytes) : Bytes :=
  match env.base64Decode content with
  | none => content
  | some decoded => if detectPolicyType decoded = .wasm then decoded else content

-- loadPolicyScript and loadLegacyPolicyScript. The legacy source has no ref case.
def loadPolicyScript (env : PolicyEnv) (source : Option ScriptSource) (basePath : String) :
    Except GoError Bytes :=
  match source with
  | some (.embedded text) => .ok (decodeIfBase64Wasm env (env.encodeText text))
  | some (.ref location) => env.loadScriptContent location basePath
  | some (.path location) => env.loadScriptContent location basePath
  | none => .error (.new "policy spec is empty")

-- Loading one script and, for Rego, adding the boilerplate around it.
def prepareScript (env : PolicyEnv) (policyName basePath : String) (source : Option ScriptSource) :
    Except GoError EnginePolicy := do
  let script ← wrapErr "failed to load policy script" (loadPolicyScript env source basePath)
  if detectPolicyType script = .rego then
    let script ← wrapErr "failed to inject boilerplate" (env.injectBoilerplate script policyName)
    .ok ⟨script, policyName⟩
  else .ok ⟨script, policyName⟩

def loadPolicyScriptsFromSpec (env : PolicyEnv) (policy : Policy) (kind : MaterialType)
    (basePath : String) : Except GoError (List EnginePolicy) :=
  let prepare := prepareScript env policy.metadata.name basePath
  match policy.spec.source with
  | some source => return [← prepare (some source)]
  | none => (policy.spec.policies.filter (matchesKind kind)).mapM fun spec => prepare spec.source

def policyLocation (attachmentRef : String) : String :=
  match (refParts attachmentRef).1 with
  | "file" => (extractDigest attachmentRef).1
  | "https" => (extractDigest attachmentRef).1
  | _ => ""

def isWordChar (c : Char) : Bool := c.isAlphanum || c == '_'

-- All matches of rego_type_error: undefined function (chainloop\.\w+). The
-- counter skips the characters that the last match has consumed.
def undefinedBuiltinsFrom : Nat → List Char → List String
  | _, [] => []
  | skip + 1, _ :: cs => undefinedBuiltinsFrom skip cs
  | 0, c :: cs =>
    let lead := "rego_type_error: undefined function ".toList
    let namespaceText := "chainloop.".toList
    let word := ((c :: cs).drop (lead.length + namespaceText.length)).takeWhile isWordChar
    if (lead ++ namespaceText).isPrefixOf (c :: cs) ∧ word ≠ [] then
      String.ofList (namespaceText ++ word) ::
        undefinedBuiltinsFrom (lead.length + namespaceText.length + word.length - 1) cs
    else undefinedBuiltinsFrom 0 cs

def undefinedChainloopBuiltins (e : GoError) : List String := undefinedBuiltinsFrom 0 e.message.toList

def executeScript (env : PolicyEnv) (options : EngineOptions) (script : EnginePolicy)
    (material : Bytes) (args : Map String String) : Except GoError EvaluationResult :=
  let policyType := detectPolicyType script.source
  match env.verify policyType options script material (getInputArguments args) with
  | .ok result => .ok result
  | .error e =>
    match undefinedChainloopBuiltins e with
    | [] => .error (e.wrap "failed to execute policy")
    | builtins => .ok
        { violations := [], skipped := true, ignore := false, rawData := none
          skipReason := "policy requires builtin functions not available in this CLI version: " ++
            ", ".intercalate builtins ++ " — please upgrade to the latest version" }

def extractSuppress (raw : Option RawFinding) : Bool :=
  match raw.bind fun m => m.get? "suppress" with
  | some (.bool value) => value
  | _ => false

def apiViolation (env : PolicyEnv) (findingType : String) (v : PolicyViolation) :
    Except GoError Violation := do
  let plain : Violation := ⟨v.subject, v.violation, none, extractSuppress v.rawFinding⟩
  match v.rawFinding with
  | none => .ok plain
  | some raw =>
    if findingType = "" then .ok plain
    else
      let finding ← wrapErr "structured violation validation" (env.validateFinding findingType raw)
      .ok { plain with finding := some finding }

def engineEvaluationsToAPIViolations (env : PolicyEnv) (results : List EvaluationResult)
    (findingType : String) : Except GoError (List Violation) :=
  (results.flatMap EvaluationResult.violations).mapM (apiViolation env findingType)

-- The variables of the loop over the scripts. `executed` is the loop's history.
structure ScriptRun where
  executed : List EnginePolicy
  sources : List String
  evalResults : List EvaluationResult
  rawResults : List RawData
  skipped : Bool
  reasons : List String
deriving DecidableEq

def ScriptRun.start : ScriptRun := ⟨[], [], [], [], true, []⟩

def ScriptRun.record (env : PolicyEnv) (run : ScriptRun) (script : EnginePolicy)
    (r : EvaluationResult) : ScriptRun :=
  let run := { run with executed := run.executed ++ [script]
                        rawResults := run.rawResults ++ r.rawData.toList }
  if r.ignore then run
  else { run with evalResults := run.evalResults ++ [r]
                  reasons := if r.skipReason ≠ "" then run.reasons ++ [r.skipReason] else run.reasons
                  skipped := run.skipped && r.skipped
                  sources := run.sources ++ [env.base64Encode script.source] }

def runScripts (env : PolicyEnv) (options : EngineOptions) (material : Bytes)
    (args : Map String String) (scripts : List EnginePolicy) : Except GoError ScriptRun :=
  scripts.foldlM (fun run script => do
    let r ← executeScript env options script material args
    .ok (run.record env script r)) .start

def policyAttachmentGate (attachment : PolicyAttachment) (defaultGate : Bool) : Bool :=
  attachment.gate.getD defaultGate

def runtimeInputOverrides (args appended replaced : Map String String) : List String :=
  (((appended.keys ++ replaced.keys).dedup).filter fun k => (args.get? k).isSome).insertionSort (· ≤ ·)

def resolveArguments (env : PolicyEnv) (attachment : PolicyAttachment) (policy : Policy)
    (opts : EvalOpts) : Except GoError (Map String String × List String) := do
  let (appended, replaced) :=
    RuntimeInputs.forPolicy opts.runtimeInputs policy.metadata.name attachment.ref
  let withArgs := overrideRuntimeInputs (mergeRuntimeInputs attachment.withArgs appended) replaced
  let args ← computeArguments env.renderTemplate policy.spec.inputs withArgs opts.bindings
  .ok (args, runtimeInputOverrides args appended replaced)

-- The evaluation that merges the results of all the scripts that ran.
def mergeResults (env : PolicyEnv) (pv : PolicyVerifier) (attachment : PolicyAttachment)
    (policy : Policy) (ref : Option PolicyDescriptor) (opts : EvalOpts)
    (args : Map String String) (overrides : List String) (run : ScriptRun) :
    Except GoError PolicyEvaluation := do
  let violations ← wrapErr ("policy " ++ quote policy.metadata.name)
    (engineEvaluationsToAPIViolations env run.evalResults policy.metadata.findingType)
  .ok
    { name := policy.metadata.name
      materialName := opts.name
      sources := if ref.isSome && !isProviderScheme (getURI ref) then run.sources else []
      violations := violations
      annotations := policy.metadata.annotations
      description := policy.metadata.description
      withArgs := args
      runtimeInputOverrides := overrides
      type := opts.kind
      referenceName := getURI ref
      referenceDigest := getDigest ref
      policyReference := some ⟨policy.metadata.name, getDigest ref, getURI ref, getOrgName ref⟩
      groupReference := none
      skipped := run.skipped
      skipReasons := if run.skipped then run.reasons else []
      requirements := attachment.requirements
      rawResults := run.rawResults
      gate := policyAttachmentGate attachment pv.defaultGate }

-- evaluatePolicyAttachment after the policy is loaded, with the scripts it ran.
def evaluateLoaded (env : PolicyEnv) (pv : PolicyVerifier) (attachment : PolicyAttachment)
    (policy : Policy) (ref : Option PolicyDescriptor) (material : Bytes) (opts : EvalOpts) :
    Except GoError (List EnginePolicy × Option PolicyEvaluation) := do
  if shouldEvaluateAtPhase (attestationPhasesForKind policy.spec opts.kind) pv.evalPhase = false then
    .ok ([], none)
  else
    let scripts ← loadPolicyScriptsFromSpec env policy opts.kind (policyLocation attachment.ref)
    let (args, overrides) ← resolveArguments env attachment policy opts
    let run ← runScripts env pv.options material args scripts
    if run.sources.isEmpty then .ok (run.executed, none)
    else
      let ev ← mergeResults env pv attachment policy ref opts args overrides run
      .ok (run.executed, some ev)

def evaluateTraced (env : PolicyEnv) (pv : PolicyVerifier) (attachment : PolicyAttachment)
    (material : Bytes) (opts : EvalOpts) :
    Except GoError (List EnginePolicy × Option PolicyEvaluation) :=
  policyErr do
    let (policy, ref) ← loadPolicySpec env.toLoaderEnv attachment
    evaluateLoaded env pv attachment policy ref material opts

def evaluatePolicyAttachment (env : PolicyEnv) (pv : PolicyVerifier)
    (attachment : PolicyAttachment) (material : Bytes) (opts : EvalOpts) :
    Except GoError (Option PolicyEvaluation) :=
  Prod.snd <$> evaluateTraced env pv attachment material opts

end Chainloop.Policies
