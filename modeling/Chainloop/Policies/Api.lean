import Chainloop.Policies.Arguments

namespace Chainloop.Policies

open Go

structure Material where
  id : String
  artifact : String
  materialType : MaterialType
  annotations : Map String String
  output : Bool
  required : Bool
deriving DecidableEq

structure Reference where
  name : String
  digest : String
  uri : String
  orgName : String
deriving DecidableEq

structure Finding where
  findingType : String
  body : String
deriving DecidableEq

structure Violation where
  subject : String
  message : String
  finding : Option Finding
  suppress : Bool
deriving DecidableEq

structure RawData where
  input : Bytes
  output : Bytes
deriving DecidableEq

structure PolicyEvaluation where
  name : String
  materialName : String
  sources : List String
  violations : List Violation
  annotations : Map String String
  description : String
  withArgs : Map String String
  runtimeInputOverrides : List String
  type : MaterialType
  referenceName : String
  referenceDigest : String
  policyReference : Option Reference
  groupReference : Option Reference
  skipped : Bool
  skipReasons : List String
  requirements : List String
  rawResults : List RawData
  gate : Bool
deriving DecidableEq

-- A value of map[string]any, as far as the source looks at it.
inductive AnyValue where
  | bool (value : Bool)
  | other (text : String)
deriving DecidableEq

abbrev RawFinding := Map String AnyValue

structure PolicyViolation where
  subject : String
  violation : String
  rawFinding : Option RawFinding
deriving DecidableEq

structure EvaluationResult where
  violations : List PolicyViolation
  skipped : Bool
  skipReason : String
  ignore : Bool
  rawData : Option RawData
deriving DecidableEq

structure EnginePolicy where
  source : Bytes
  name : String
deriving DecidableEq

inductive PolicyType where
  | rego | wasm
deriving DecidableEq

def detectPolicyType (source : Bytes) : PolicyType :=
  if [0x00, 0x61, 0x73, 0x6d].isPrefixOf source then .wasm else .rego

inductive EvalPhase where
  | unspecified | init | push
deriving DecidableEq

structure EngineOptions where
  allowedHostnames : List String
  projectName : String
  projectVersionName : String
deriving DecidableEq

structure Statement where
  text : String
deriving DecidableEq

-- The outside world of one verifier call: what its loaders reach, the script
-- engines, the template renderer and the finding schemas.
structure PolicyEnv extends LoaderEnv where
  renderTemplate : String → Map String String → Except GoError String
  loadScriptContent : String → String → Except GoError Bytes
  base64Encode : Bytes → String
  base64Decode : Bytes → Option Bytes
  encodeText : String → Bytes
  injectBoilerplate : Bytes → String → Except GoError Bytes
  verify : PolicyType → EngineOptions → EnginePolicy → Bytes → Map String ArgValue →
    Except GoError EvaluationResult
  validateFinding : String → RawFinding → Except GoError Finding
  evaluableContent : Material → String → Bytes → Except GoError Bytes
  marshalStatement : Statement → Except GoError Bytes

-- An environment without files, network or control plane. Every check of a
-- message passes, a template renders to itself and every script ends with `result`.
def PolicyEnv.offline (result : EvaluationResult) : PolicyEnv where
  readFile _ := .error (.new "no such file or directory")
  fetchRemote _ := .error (.new "network is unreachable")
  unmarshalPolicy _ _ := .error (.new "unknown format")
  unmarshalGroup _ _ := .error (.new "unknown format")
  sha256 _ := "sha256:0"
  getPolicy _ := .error (.new "policy not found")
  getGroup _ := .error (.new "group not found")
  validatePolicy _ := .ok ()
  validateGroup _ := .ok ()
  renderTemplate text _ := .ok text
  loadScriptContent _ _ := .error (.new "no such file or directory")
  base64Encode _ := "base64"
  base64Decode _ := none
  encodeText text := text.toList.map fun c => c.toNat.toUInt8
  injectBoilerplate script _ := .ok script
  verify _ _ _ _ _ := .ok result
  validateFinding findingType _ := .ok ⟨findingType, ""⟩
  evaluableContent _ _ content := .ok content
  marshalStatement _ := .ok []

structure PolicyVerifier where
  policies : Policies
  defaultGate : Bool
  evalPhase : EvalPhase
  runtimeInputs : Option RuntimeInputs
  options : EngineOptions
deriving DecidableEq

structure EvalOpts where
  name : String
  kind : MaterialType
  bindings : Map String String
  runtimeInputs : Option RuntimeInputs
deriving DecidableEq

end Chainloop.Policies
