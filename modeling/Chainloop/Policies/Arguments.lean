import Chainloop.Policies.Loader

namespace Chainloop.Policies

open Go

def quote (s : String) : String := "\"" ++ s ++ "\""

structure RuntimeInputs where
  global : Map String String
  scopedInputs : Map String (Map String String)
  globalOverride : Map String String
  scopedOverride : Map String (Map String String)
deriving DecidableEq

def mergeRuntimeInputs (args inputs : Map String String) : Map String String :=
  inputs.entries.foldl (fun merged e =>
    let existing := merged.getD e.1 ""
    merged.set e.1 (if existing ≠ "" then existing ++ "\n" ++ e.2 else e.2)) args

def overrideRuntimeInputs (args overrides : Map String String) : Map String String :=
  args.copy overrides

def splitPolicyRef (ref : String) : String × String := extractDigest (providerParts ref).name

def scopeSpecificity (scope : String) : Nat :=
  let digest := (splitPolicyRef scope).2
  let head := if digest ≠ "" then (extractDigest scope).1 else scope
  (if digest ≠ "" then 2 else 0) + (if head.toList.any fun c => c == ':' || c == '/' then 1 else 0)

def policyScopeMatches (scope name ref : String) : Bool :=
  if scope = "" then false
  else if scope = name ∨ scope = ref then true
  else
    let (scopeName, scopeDigest) := splitPolicyRef scope
    let (refName, refDigest) := splitPolicyRef ref
    if scopeName = "" then false
    else if scopeName ≠ refName ∧ scopeName ≠ name then false
    else if scopeDigest ≠ "" then scopeDigest == refDigest
    else true

def scopeBefore (a b : String) : Prop :=
  scopeSpecificity a < scopeSpecificity b ∨ (scopeSpecificity a = scopeSpecificity b ∧ ¬ b < a)

instance : DecidableRel scopeBefore := fun a b => by unfold scopeBefore; infer_instance

def matchingScopes {ν : Type} (scopes : Map String ν) (name ref : String) : List String :=
  (scopes.keys.filter fun scope => policyScopeMatches scope name ref).insertionSort scopeBefore

-- forPolicy without the list of matched scopes, which only feeds a log line.
def RuntimeInputs.forPolicy (inputs : Option RuntimeInputs) (name ref : String) :
    Map String String × Map String String :=
  match inputs with
  | none => (.empty, .empty)
  | some ri =>
    ((matchingScopes ri.scopedInputs name ref).foldl (fun acc scope =>
        mergeRuntimeInputs acc (ri.scopedInputs.getD scope .empty)) ri.global,
      (matchingScopes ri.scopedOverride name ref).foldl (fun acc scope =>
        overrideRuntimeInputs acc (ri.scopedOverride.getD scope .empty)) ri.globalOverride)

section ComputeArguments

-- templates.ApplyBinding on a text that is not empty.
variable (renderTemplate : String → Map String String → Except GoError String)

def applyBinding (input : String) (bindings : Map String String) : Except GoError String :=
  if input = "" then .ok "" else renderTemplate input bindings

def checkInput (args bindings result : Map String String) (input : PolicyInput) :
    Except GoError (Map String String) := do
  if input.required ∧ input.defaultValue ≠ "" then
    .error (.new ("input " ++ input.name ++
      " can not be required and have a default at the same time"))
  else
    let argValue ← applyBinding renderTemplate (args.getD input.name "") bindings
    if (args.get? input.name).isNone ∨ argValue = "" then
      if input.required then
        .error (.new ("missing required input " ++ quote input.name))
      else if argValue = "" ∧ input.defaultValue ≠ "" then
        let value ← applyBinding renderTemplate input.defaultValue bindings
        .ok (result.set input.name value)
      else .ok result
    else .ok result

def addArgument (inputs : List PolicyInput) (bindings result : Map String String)
    (e : String × String) : Except GoError (Map String String) := do
  if inputs.any fun input => input.name == e.1 then
    let value ← applyBinding renderTemplate e.2 bindings
    .ok (result.set e.1 value)
  else .ok result

def computeArguments (inputs : List PolicyInput) (args bindings : Map String String) :
    Except GoError (Map String String) := do
  let start := if inputs.isEmpty then args else .empty
  let result ← inputs.foldlM (checkInput renderTemplate args bindings) start
  args.entries.foldlM (addArgument renderTemplate inputs bindings) result

end ComputeArguments

-- The values that getInputArguments hands to an engine: a string or a list.
inductive ArgValue where
  | scalar (value : String)
  | list (values : List String)
deriving DecidableEq

def splitArgs (s : String) : List String :=
  let placeholder := "$=$$ESCAPED_COMMA$$=$"
  let parts := splitString "," (replaceAll "\\," placeholder s)
  (parts.map fun part => trimSpace (replaceAll placeholder "," part)).filter (· ≠ "")

def getValue (values : List String) : Option ArgValue :=
  match (values.map trimSpace).filter (· ≠ "") with
  | [] => none
  | [line] => some (.scalar line)
  | lines => some (.list lines)

def getInputArguments (inputs : Map String String) : Map String ArgValue :=
  inputs.entries.foldl (fun args e =>
    match getValue ((splitString "\n" (trimRight (· == '\n') e.2)).flatMap splitArgs) with
    | none => args
    | some value => args.set e.1 value) .empty

end Chainloop.Policies
