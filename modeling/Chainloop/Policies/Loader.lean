import Chainloop.Go.Errors
import Chainloop.Go.Strings
import Chainloop.Schema

namespace Chainloop.Policies

open Go

def newPolicyError (e : GoError) : GoError := { e with kinds := .policy :: e.kinds }

def policyErr {α : Type} (r : Except GoError α) : Except GoError α := r.mapError newPolicyError

@[simp] theorem policyErr_eq_ok {α : Type} (r : Except GoError α) (a : α) :
    policyErr r = .ok a ↔ r = .ok a := by
  cases r <;> simp [policyErr, Except.mapError]

structure PolicyDescriptor where
  uri : String
  name : String
  digest : String
  orgName : String
deriving DecidableEq

-- The getters of a descriptor that may be nil.
def getURI (d : Option PolicyDescriptor) : String := (d.map PolicyDescriptor.uri).getD ""

def getDigest (d : Option PolicyDescriptor) : String := (d.map PolicyDescriptor.digest).getD ""

def getOrgName (d : Option PolicyDescriptor) : String := (d.map PolicyDescriptor.orgName).getD ""

def refParts (ref : String) : String × String :=
  match splitN2 "://" ref with
  | [scheme, rest] => (scheme, rest)
  | _ => ("", ref)

def isProviderScheme (ref : String) : Bool :=
  (refParts ref).1 == "chainloop" || (refParts ref).1 == ""

def extractDigest (ref : String) : String × String :=
  match splitN2 "@" ref with
  | [name, digest] => (name, digest)
  | _ => (ref, "")

structure ProviderRef where
  provider : String
  orgName : String
  name : String
deriving DecidableEq

def providerParts (reference : String) : ProviderRef :=
  let (ref, digest) := match splitN2 "@sha256:" reference with
    | [ref, digest] => (ref, digest)
    | _ => (reference, "")
  let path := (refParts ref).2
  let (provider, qualified) := match splitN2 ":" path with
    | [provider, name] => (provider, name)
    | _ => ("", path)
  let (orgName, name) := match splitN2 "/" qualified with
    | [org, name] => (org, name)
    | _ => ("", qualified)
  { provider, orgName, name := if digest ≠ "" then name ++ "@sha256:" ++ digest else name }

def ensureScheme (ref : String) (expected : List String) : Except GoError String :=
  if expected.contains (refParts ref).1 then .ok (refParts ref).2
  else .error (.new ("unexpected policy reference scheme: \"" ++ (refParts ref).1 ++ "\""))

-- What the loaders reach outside the process: files, the network, the control
-- plane, the unmarshallers and the validator of proto messages.
structure LoaderEnv where
  readFile : String → Except GoError Bytes
  fetchRemote : String → Except GoError Bytes
  unmarshalPolicy : Bytes → String → Except GoError Policy
  unmarshalGroup : Bytes → String → Except GoError PolicyGroup
  sha256 : Bytes → String
  getPolicy : ProviderRef → Except GoError (Policy × PolicyDescriptor)
  getGroup : ProviderRef → Except GoError (PolicyGroup × PolicyDescriptor)
  validatePolicy : Policy → Except GoError Unit
  validateGroup : PolicyGroup → Except GoError Unit

variable {α : Type}

def unmarshallResource (env : LoaderEnv) (unmarshal : Bytes → String → Except GoError α)
    (raw : Bytes) (ref digest : String) : Except GoError (α × PolicyDescriptor) := do
  let resource ← unmarshal raw ref
  let hash := env.sha256 raw
  if digest ≠ "" ∧ hash ≠ digest then
    .error (.new ("digest mismatch: got " ++ hash ++ ", want " ++ digest))
  else
    .ok (resource, ⟨ref, "", hash, ""⟩)

def fileLoad (env : LoaderEnv) (unmarshal : Bytes → String → Except GoError α)
    (attachmentRef : String) : Except GoError (α × PolicyDescriptor) := do
  let (ref, wantDigest) := extractDigest attachmentRef
  let filePath ← ensureScheme ref ["file"]
  let raw ← wrapErr "loading policy spec" (env.readFile filePath)
  wrapErr "unmarshalling policy spec" (unmarshallResource env unmarshal raw ref wantDigest)

def httpsLoad (env : LoaderEnv) (unmarshal : Bytes → String → Except GoError α)
    (attachmentRef : String) : Except GoError (α × PolicyDescriptor) := do
  let (ref, wantDigest) := extractDigest attachmentRef
  let _ ← wrapErr ("invalid policy reference \"" ++ ref ++ "\"")
    (ensureScheme ref ["http", "https"])
  let raw ← env.fetchRemote ref
  wrapErr "unmarshalling policy spec" (unmarshallResource env unmarshal raw ref wantDigest)

-- getLoader and the Load method of the loader it picks.
def loadAttachment (env : LoaderEnv) (attachment : PolicyAttachment) :
    Except GoError (Policy × Option PolicyDescriptor) :=
  match attachment.embedded with
  | some policy => .ok (policy, none)
  | none =>
    let ref := attachment.ref
    let found (r : Except GoError (Policy × PolicyDescriptor)) :
        Except GoError (Policy × Option PolicyDescriptor) :=
      wrapErr "failed to load policy spec" (r.map fun p => (p.1, some p.2))
    let missing (message : String) : Except GoError (Policy × Option PolicyDescriptor) :=
      .error (.wrap "failed to get a loader for policy" (.new message))
    if ref = "" then missing "policy must be referenced or embedded in the attachment"
    else match (refParts ref).1 with
      | "chainloop" => found (env.getPolicy (providerParts ref))
      | "" => found (env.getPolicy (providerParts ref))
      | "file" => found (fileLoad env env.unmarshalPolicy ref)
      | "https" => found (httpsLoad env env.unmarshalPolicy ref)
      | "http" => found (httpsLoad env env.unmarshalPolicy ref)
      | scheme => missing ("policy scheme not supported: " ++ scheme)

def loadPolicySpec (env : LoaderEnv) (attachment : PolicyAttachment) :
    Except GoError (Policy × Option PolicyDescriptor) := do
  let (spec, ref) ← loadAttachment env attachment
  wrapErr "validating policy spec" (env.validatePolicy spec)
  .ok (spec, ref)

def loadPolicyGroup (env : LoaderEnv) (att : PolicyGroupAttachment) :
    Except GoError (PolicyGroup × PolicyDescriptor) := do
  let ref := att.ref
  let missing (message : String) : Except GoError (PolicyGroup × PolicyDescriptor) :=
    .error (.wrap "failed to get a loader for policy group" (.new message))
  let (group, desc) ←
    if ref = "" then missing "policy group must be referenced in the attachment"
    else match (refParts ref).1 with
      | "chainloop" => wrapErr "failed to load policy group" (env.getGroup (providerParts ref))
      | "" => wrapErr "failed to load policy group" (env.getGroup (providerParts ref))
      | "file" => wrapErr "failed to load policy group" (fileLoad env env.unmarshalGroup ref)
      | "https" => wrapErr "failed to load policy group" (httpsLoad env env.unmarshalGroup ref)
      | "http" => wrapErr "failed to load policy group" (httpsLoad env env.unmarshalGroup ref)
      | scheme => missing ("policy scheme not supported: \"" ++ scheme ++ "\"")
  wrapErr "validating policy spec" (env.validateGroup group)
  .ok (group, desc)

end Chainloop.Policies
