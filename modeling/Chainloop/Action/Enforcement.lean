import Chainloop.Renderer.Predicate

namespace Chainloop.Action

open Go Policies Renderer

structure StatusViolation where
  subject : String
  message : String
  suppress : Bool
  finding : Option Finding
deriving DecidableEq

structure StatusEvaluation where
  name : String
  materialName : String
  description : String
  annotations : Map String String
  policyReference : Option String
  violations : List StatusViolation
  skipped : Bool
  skipReasons : List String
  gate : Bool
deriving DecidableEq

structure AttestationStatusResult where
  policyEvaluations : Map String (List StatusEvaluation)
  hasPolicyViolations : Bool
  mustBlockOnPolicyViolations : Bool
deriving DecidableEq

def policyEvaluationStateToActionForStatus (ev : Policies.PolicyEvaluation) : StatusEvaluation where
  name := ev.name
  materialName := ev.materialName
  description := ev.description
  annotations := ev.annotations
  policyReference := ev.policyReference.map (·.name)
  violations := ev.violations.map fun v => ⟨v.subject, v.message, v.suppress, v.finding⟩
  skipped := ev.skipped
  skipReasons := ev.skipReasons
  gate := ev.gate

def getPolicyEvaluations (evals : List Policies.PolicyEvaluation) :
    Map String (List StatusEvaluation) × Bool :=
  evals.foldl (fun (evaluations, hasViolations) v =>
    (evaluations.push (keyName v.materialName) (policyEvaluationStateToActionForStatus v),
      hasViolations || !v.violations.isEmpty)) (.empty, false)

structure GateError where
  policyName : String
deriving DecidableEq

def GateError.message (e : GateError) : String :=
  "the policy " ++ quote e.policyName ++ " is configured as a gate and has violations"

def hasGatingViolation (violations : List StatusViolation) : Bool :=
  violations.any fun v => !v.suppress

def gates (eval : StatusEvaluation) : Bool := eval.gate && hasGatingViolation eval.violations

-- The loops of validatePolicyEnforcement. Go walks over the map in some order, given
-- here as `order`. The check behind the loops returns nil whatever it finds.
def validatePolicyEnforcement (status : AttestationStatusResult) (bypassPolicyCheck : Bool)
    (order : List (String × List StatusEvaluation)) : Option GateError :=
  match (order.flatMap Prod.snd).find? fun eval => gates eval && !bypassPolicyCheck with
  | some eval => some ⟨eval.name⟩
  | none => if status.mustBlockOnPolicyViolations then if bypassPolicyCheck then none else none else none

def pushStatus (att : Attestation) : AttestationStatusResult :=
  let (evaluations, hasViolations) := getPolicyEvaluations att.policyEvaluations
  ⟨evaluations, hasViolations, att.blockOnPolicyViolation⟩

theorem holds_getPolicyEvaluations (evals : List Policies.PolicyEvaluation) (eval : StatusEvaluation) :
    (getPolicyEvaluations evals).1.Holds eval ↔
      ∃ ev ∈ evals, eval = policyEvaluationStateToActionForStatus ev := by
  have hfold : ∀ (evals : List Policies.PolicyEvaluation) (start : Map String (List StatusEvaluation) × Bool),
      (evals.foldl (fun (evaluations, hasViolations) v =>
        (evaluations.push (keyName v.materialName) (policyEvaluationStateToActionForStatus v),
          hasViolations || !v.violations.isEmpty)) start).1.Holds eval ↔
        start.1.Holds eval ∨ ∃ ev ∈ evals, eval = policyEvaluationStateToActionForStatus ev := by
    intro evals
    induction evals with
    | nil => intro start; simp
    | cons ev rest ih =>
      intro start
      rw [List.foldl_cons, ih, Map.holds_push]
      simp [or_assoc]
  rw [getPolicyEvaluations, hfold]
  simp [Map.not_holds_empty]

theorem gates_iff (ev : Policies.PolicyEvaluation) :
    gates (policyEvaluationStateToActionForStatus ev) = true ↔ ev.gate = true ∧ active ev > 0 := by
  simp [gates, hasGatingViolation, policyEvaluationStateToActionForStatus, active]

theorem validatePolicyEnforcement_isSome_iff (att : Attestation) (bypass : Bool)
    (order : List (String × List StatusEvaluation))
    (horder : order.Perm (pushStatus att).policyEvaluations.entries) :
    (validatePolicyEnforcement (pushStatus att) bypass order).isSome = true ↔
      bypass = false ∧ ∃ ev ∈ att.policyEvaluations, ev.gate = true ∧ active ev > 0 := by
  have hfind : (validatePolicyEnforcement (pushStatus att) bypass order).isSome = true ↔
      ∃ eval, (pushStatus att).policyEvaluations.Holds eval ∧ gates eval = true ∧ bypass = false := by
    unfold validatePolicyEnforcement
    cases hf : (order.flatMap Prod.snd).find? fun eval => gates eval && !bypass with
    | none =>
      have hno := List.find?_eq_none.mp hf
      simp only [ite_self, Option.isSome_none, Bool.false_eq_true, false_iff]
      rintro ⟨eval, ⟨e, he, hmem⟩, hgates, hbypass⟩
      exact hno eval (List.mem_flatMap.mpr ⟨e, horder.mem_iff.mpr he, hmem⟩) (by simp [hgates, hbypass])
    | some eval =>
      have hgates := List.find?_some hf
      obtain ⟨e, he, hmem⟩ := List.mem_flatMap.mp (List.mem_of_find?_eq_some hf)
      simp only [Bool.and_eq_true, Bool.not_eq_true'] at hgates
      simp only [Option.isSome_some, true_iff]
      exact ⟨eval, ⟨e, horder.mem_iff.mp he, hmem⟩, hgates⟩
  rw [hfind]
  constructor
  · rintro ⟨eval, hholds, hgates, hbypass⟩
    obtain ⟨ev, hev, rfl⟩ := (holds_getPolicyEvaluations _ _).mp hholds
    exact ⟨hbypass, ev, hev, (gates_iff ev).mp hgates⟩
  · rintro ⟨hbypass, ev, hev, hgates⟩
    exact ⟨_, (holds_getPolicyEvaluations _ _).mpr ⟨ev, hev, rfl⟩, (gates_iff ev).mpr hgates, hbypass⟩

theorem gate_error_iff_blocked_iff (newStruct : Reference → Except GoError Unit) (offloaded : Bool)
    (att : Attestation) (p : Predicate) (order : List (String × List StatusEvaluation))
    (hp : predicate newStruct offloaded att = .ok p)
    (horder : order.Perm (pushStatus att).policyEvaluations.entries) :
    ((validatePolicyEnforcement (pushStatus att) att.bypassPolicyCheck order).isSome = true ↔
        p.policyAttBlocked = true) ↔
      ¬ (att.blockOnPolicyViolation = true ∧ att.bypassPolicyCheck = false ∧
        (∃ ev ∈ att.policyEvaluations, active ev > 0) ∧
        ∀ ev ∈ att.policyEvaluations, ev.gate = true → active ev = 0) := by
  rw [validatePolicyEnforcement_isSome_iff att _ order horder, predicate_blocked_iff hp]
  have hungated : (∀ ev ∈ att.policyEvaluations, ev.gate = true → active ev = 0) ↔
      ¬ ∃ ev ∈ att.policyEvaluations, ev.gate = true ∧ active ev > 0 := by
    constructor
    · rintro hall ⟨ev, hev, hgate, hactive⟩
      have hzero := hall ev hev hgate
      omega
    · intro hno ev hev hgate
      by_contra hne
      exact hno ⟨ev, hev, hgate, by omega⟩
  rw [hungated]
  by_cases hgated : ∃ ev ∈ att.policyEvaluations, ev.gate = true ∧ active ev > 0
  · simp [hgated]
  · cases att.bypassPolicyCheck with
    | true => simp
    | false =>
      cases att.blockOnPolicyViolation with
      | false => simp [hgated]
      | true =>
        by_cases hany : ∃ ev ∈ att.policyEvaluations, active ev > 0 <;> simp [hgated, hany]

def violatedAttestation (gate : Bool) : Attestation where
  policyEvaluations :=
    [⟨"cdx-fresh", "", [], [⟨"image", "policy violation", none, false⟩], .empty, "", .empty, [],
      .unspecified, "", "", some ⟨"cdx-fresh", "", "", ""⟩, none, false, [], [], [], gate⟩]
  blockOnPolicyViolation := true
  bypassPolicyCheck := false

theorem ungated_violation_blocks_without_error :
    ∃ p, predicate (fun _ => .ok ()) false (violatedAttestation false) = .ok p ∧
      p.policyAttBlocked = true ∧
      validatePolicyEnforcement (pushStatus (violatedAttestation false)) false
        (pushStatus (violatedAttestation false)).policyEvaluations.entries = none :=
  ⟨_, rfl, rfl, rfl⟩

theorem gate_error_iff_blocked_iff_gated :
    ∃ p, predicate (fun _ => .ok ()) false (violatedAttestation true) = .ok p ∧
      ((validatePolicyEnforcement (pushStatus (violatedAttestation true)) false
          (pushStatus (violatedAttestation true)).policyEvaluations.entries).isSome = true ↔
        p.policyAttBlocked = true) := by
  refine ⟨_, rfl, (gate_error_iff_blocked_iff (fun _ => .ok ()) false (violatedAttestation true) _
    _ rfl (.refl _)).mpr ?_⟩
  decide +kernel

end Chainloop.Action
