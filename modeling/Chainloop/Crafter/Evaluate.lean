import Chainloop.Crafter.Archive

namespace Chainloop.Crafting

open Go Policies Materials

def policyEvalMatches (a b : PolicyEvaluation) : Bool :=
  a.policyReference == b.policyReference && a.withArgs.equal b.withArgs

def addUnlessMatched (acc : List PolicyEvaluation) (ev : PolicyEvaluation) : List PolicyEvaluation :=
  if acc.any fun existing => policyEvalMatches existing ev then acc else acc ++ [ev]

-- The loop over the stored evaluations: material-level ones always stay.
def preserveStored (acc : List PolicyEvaluation) (ev : PolicyEvaluation) : List PolicyEvaluation :=
  if ev.materialName ≠ "" then acc ++ [ev] else addUnlessMatched acc ev

def mergeEvaluations (news stored : List PolicyEvaluation) : List PolicyEvaluation :=
  stored.foldl preserveStored (news.foldl addUnlessMatched [])

structure EvaluateEnv where
  standalone : PolicyEnv
  groups : PolicyEnv
  grow : Nat → Nat → Nat
  write : Except GoError Unit

def statementEvaluations (env : EvaluateEnv) (st : CraftingState) (statement : Statement)
    (phase : EvalPhase) : Except GoError (List PolicyEvaluation) := do
  let policyEvaluations ← wrapErr "evaluating policies in statement"
    (verifyStatement env.standalone (st.verifier phase none) statement)
  let policyGroupResults ← wrapErr "evaluating policy groups in statement"
    (groupsVerifyStatement env.groups (st.verifier phase none) st.contract.policyGroups statement)
  .ok (policyEvaluations ++ policyGroupResults)

def evaluateAttestationPolicies (env : EvaluateEnv) (c : Crafter) (statement : Statement)
    (phase : EvalPhase) : Outcome Unit × Crafter :=
  match statementEvaluations env c.state statement phase with
  | .error e => (.failed e, c)
  | .ok news =>
    match c.state.policyEvaluations.deref with
    | none => (.panicked, c)
    | some stored =>
      let evaluations := Slice.nil.append env.grow (mergeEvaluations news stored)
      match Crafter.write env.write
          { c with state := { c.state with policyEvaluations := evaluations } } with
      | (.error e, c) => (.failed e, c)
      | (.ok (), c) => (.ok (), c)

inductive Op where
  | addContractFree (env : AddEnv) (kind name value : String) (annotations : Map String String)
      (opts : AddOpts)
  | addFromContract (env : AddEnv) (key value : String) (annotations : Map String String)
      (opts : AddOpts)
  | addArchive (env : ArchiveEnv) (kind namePrefix archivePath : String)
      (annotations : Map String String) (opts : AddOpts)
  | evaluate (env : EvaluateEnv) (statement : Statement) (phase : EvalPhase)

def Outcome.discard {α : Type} : Outcome α → Outcome Unit
  | .ok _ => .ok ()
  | .failed e => .failed e
  | .panicked => .panicked

def Op.apply : Op → Crafter → Outcome Unit × Crafter
  | .addContractFree env kind name value annotations opts, c =>
    let (outcome, c) := addMaterialContractFree env c kind name value annotations opts
    (outcome.discard, c)
  | .addFromContract env key value annotations opts, c =>
    let (outcome, c) := addMaterialFromContract env c key value annotations opts
    (outcome.discard, c)
  | .addArchive env kind namePrefix archivePath annotations opts, c =>
    let (outcome, c) := addMaterialsFromArchive env c kind namePrefix archivePath annotations opts
    (outcome.discard, c)
  | .evaluate env statement phase, c => evaluateAttestationPolicies env c statement phase

-- A run: the operations one after the other, as long as none panics. The caller
-- goes on after an error. Every step meets the condition `allowed`.
inductive Run (allowed : Op → Crafter → Prop) : Crafter → List Op → Crafter → Prop
  | nil (c : Crafter) : Run allowed c [] c
  | snoc {c c' : Crafter} {ops : List Op} (op : Op) (h : Run allowed c ops c')
      (hallowed : allowed op c') (hreturns : (op.apply c').1 ≠ .panicked) :
      Run allowed c (ops ++ [op]) (op.apply c').2

theorem Run.invariant (Inv : Crafter → Prop)
    (hstep : ∀ op c, Inv c → allowed op c → (op.apply c).1 ≠ .panicked → Inv (op.apply c).2)
    (hrun : Run allowed c ops c') (hstart : Inv c) : Inv c' := by
  induction hrun with
  | nil => exact hstart
  | snoc op _ hallowed hreturns ih => exact hstep op _ ih hallowed hreturns

def Crafter.fresh (contract : Contract) (block : Bool) (hostnames : List String)
    (project version : String) : Crafter :=
  ⟨⟨contract, .empty, .nil, block, hostnames, project, version⟩, []⟩

end Chainloop.Crafting
