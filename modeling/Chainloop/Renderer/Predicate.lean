import Chainloop.Policies.Api

namespace Chainloop.Renderer

open Go Policies

def attPolicyEvaluation : String := "CHAINLOOP.ATTESTATION"

structure Attestation where
  policyEvaluations : List Policies.PolicyEvaluation
  blockOnPolicyViolation : Bool
  bypassPolicyCheck : Bool

inductive BlockingStrategy where
  | enforced | advisory
deriving DecidableEq

structure ResourceDescriptor where
  name : String
  uri : String
  sha256 : String
  organization : String
deriving DecidableEq

structure PolicyViolation where
  subject : String
  message : String
  suppress : Bool
  finding : Option Finding
deriving DecidableEq

structure PolicyEvaluation where
  name : String
  materialName : String
  sources : List String
  policyReference : Option ResourceDescriptor
  description : String
  annotations : Map String String
  violations : List PolicyViolation
  withArgs : Map String String
  type : String
  skipped : Bool
  skipReasons : List String
  groupReference : Option ResourceDescriptor
  requirements : List String
  gate : Bool
deriving DecidableEq

def trimDigest (s : String) : String :=
  if startsWith s "sha256:" then String.ofList (s.toList.drop 7) else s

-- structpb.NewStruct refuses some texts (`newStruct`).
def renderReference (newStruct : Reference → Except GoError Unit) (ref : Reference) :
    Except GoError ResourceDescriptor := do
  newStruct ref
  return ⟨ref.name, ref.uri, trimDigest ref.digest, ref.orgName⟩

def renderViolations (includeSuppressed : Bool) (violations : List Violation) :
    List PolicyViolation :=
  (violations.filter fun vi => !(vi.suppress && !includeSuppressed)).map fun vi =>
    ⟨vi.subject, vi.message, vi.suppress, if includeSuppressed then vi.finding else none⟩

def renderEvaluation (newStruct : Reference → Except GoError Unit) (ev : Policies.PolicyEvaluation)
    (includeSuppressed : Bool) : Except GoError PolicyEvaluation := do
  let policyReference ← ev.policyReference.mapM (renderReference newStruct)
  let groupReference ← ev.groupReference.mapM (renderReference newStruct)
  return {
    name := ev.name
    materialName := ev.materialName
    sources := ev.sources
    policyReference := policyReference
    description := ev.description
    annotations := ev.annotations
    violations := renderViolations includeSuppressed ev.violations
    withArgs := ev.withArgs
    type := ev.type.name
    skipped := ev.skipped
    skipReasons := ev.skipReasons
    groupReference := groupReference
    requirements := ev.requirements
    gate := ev.gate }

structure EvaluationsResult where
  evaluations : Map String (List PolicyEvaluation)
  hasViolations : Bool
  hasGatedViolations : Bool
  hasGates : Bool
  evaluationsCount : Nat
  violationsCount : Nat
  skippedCount : Nat
  passedCount : Nat
  suppressedCount : Nat
deriving DecidableEq

def EvaluationsResult.start : EvaluationsResult := ⟨.empty, false, false, false, 0, 0, 0, 0, 0⟩

def keyName (materialName : String) : String :=
  if materialName = "" then attPolicyEvaluation else materialName

def active (ev : Policies.PolicyEvaluation) : Nat := ev.violations.countP fun vi => !vi.suppress

def EvaluationsResult.add (res : EvaluationsResult) (p : Policies.PolicyEvaluation)
    (ev : PolicyEvaluation) : EvaluationsResult :=
  let res := { res with
    hasGates := res.hasGates || ev.gate
    suppressedCount := res.suppressedCount + p.violations.countP fun vi : Violation => vi.suppress
    evaluations := res.evaluations.push (keyName p.materialName) ev }
  if active p > 0 then
    { res with
      hasViolations := true
      violationsCount := res.violationsCount + active p
      hasGatedViolations := res.hasGatedViolations || ev.gate }
  else if ev.skipped then { res with skippedCount := res.skippedCount + 1 }
  else { res with passedCount := res.passedCount + 1 }

def groupEvaluations (newStruct : Reference → Except GoError Unit)
    (evals : List Policies.PolicyEvaluation) (includeSuppressed : Bool) :
    Except GoError EvaluationsResult := do
  let res ← evals.foldlM (fun res p => do
    let ev ← renderEvaluation newStruct p includeSuppressed
    return res.add p ev) EvaluationsResult.start
  return { res with evaluationsCount := evals.length }

structure Predicate where
  policyEvaluations : Map String (List PolicyEvaluation)
  policyHasViolations : Bool
  policyEvaluationsCount : Nat
  policyViolationsCount : Nat
  policySkippedCount : Nat
  policyPassedCount : Nat
  policySuppressedCount : Nat
  policyHasGatedViolations : Bool
  policyHasGates : Bool
  policyCheckBlockingStrategy : BlockingStrategy
  policyBlockBypassEnabled : Bool
  policyAttBlocked : Bool
deriving DecidableEq

-- RendererV02.predicate. With a reference to a stored bundle the inline copy of the
-- evaluations is dropped.
def predicate (newStruct : Reference → Except GoError Unit) (offloaded : Bool) (att : Attestation) :
    Except GoError Predicate := do
  let evalResult ← wrapErr "error rendering policy evaluations"
    (groupEvaluations newStruct att.policyEvaluations false)
  let strategy : BlockingStrategy := if att.blockOnPolicyViolation then .enforced else .advisory
  return {
    policyEvaluations := if offloaded then .empty else evalResult.evaluations
    policyHasViolations := evalResult.hasViolations
    policyEvaluationsCount := evalResult.evaluationsCount
    policyViolationsCount := evalResult.violationsCount
    policySkippedCount := evalResult.skippedCount
    policyPassedCount := evalResult.passedCount
    policySuppressedCount := evalResult.suppressedCount
    policyHasGatedViolations := evalResult.hasGatedViolations
    policyHasGates := evalResult.hasGates || strategy == .enforced
    policyCheckBlockingStrategy := strategy
    policyBlockBypassEnabled := att.bypassPolicyCheck
    policyAttBlocked := !att.bypassPolicyCheck &&
      (evalResult.hasGatedViolations || (evalResult.hasViolations && att.blockOnPolicyViolation)) }

structure EvaluationsResult.Of (evals : List Policies.PolicyEvaluation) (res : EvaluationsResult) :
    Prop where
  violations : res.hasViolations = true ↔ ∃ p ∈ evals, active p > 0
  gated : res.hasGatedViolations = true ↔ ∃ p ∈ evals, p.gate = true ∧ active p > 0

variable {p : Policies.PolicyEvaluation} {ev : PolicyEvaluation}

theorem renderEvaluation_gate
    (h : renderEvaluation newStruct p includeSuppressed = .ok ev) : ev.gate = p.gate := by
  obtain ⟨_, _, h⟩ := bind_eq_ok.mp h
  obtain ⟨_, _, h⟩ := bind_eq_ok.mp h
  cases h
  rfl

variable {res : EvaluationsResult}

theorem EvaluationsResult.Of.add (h : res.Of evals)
    (hgate : ev.gate = p.gate) :
    (res.add p ev).Of (evals ++ [p]) := by
  have hmore : ∀ P : Policies.PolicyEvaluation → Prop,
      (∃ q ∈ evals ++ [p], P q) ↔ (∃ q ∈ evals, P q) ∨ P p := by
    simp
  unfold EvaluationsResult.add
  by_cases hactive : active p > 0
  · rw [if_pos hactive]
    refine ⟨?_, ?_⟩
    · rw [hmore]
      simp [hactive]
    · rw [hmore, ← h.gated]
      simp [hactive, hgate]
  · rw [if_neg hactive]
    have hsame (res' : EvaluationsResult) : res'.hasViolations = res.hasViolations →
        res'.hasGatedViolations = res.hasGatedViolations → res'.Of (evals ++ [p]) := by
      intro hv hg
      refine ⟨?_, ?_⟩
      · rw [hmore, hv, h.violations]
        simp [hactive]
      · rw [hmore, hg, h.gated]
        simp [hactive]
    split_ifs <;> exact hsame _ rfl rfl

theorem groupEvaluations_of
    (h : groupEvaluations newStruct evals includeSuppressed = .ok res) : res.Of evals := by
  obtain ⟨last, hlast, h⟩ := bind_eq_ok.mp h
  cases h
  have hstart : EvaluationsResult.start.Of [] := ⟨by simp [EvaluationsResult.start], by simp [EvaluationsResult.start]⟩
  obtain ⟨hviolations, hgated⟩ := foldlM_invariant (fun done res => res.Of done) (fun done p res res' hres hstep => by
    obtain ⟨ev, hev, hstep⟩ := bind_eq_ok.mp hstep
    cases hstep
    exact hres.add (renderEvaluation_gate hev)) hstart hlast
  exact ⟨hviolations, hgated⟩

theorem predicate_blocked_iff {att : Attestation} {p : Predicate}
    (h : predicate newStruct offloaded att = .ok p) :
    p.policyAttBlocked = true ↔ att.bypassPolicyCheck = false ∧
      ((∃ ev ∈ att.policyEvaluations, ev.gate = true ∧ active ev > 0) ∨
        (∃ ev ∈ att.policyEvaluations, active ev > 0) ∧ att.blockOnPolicyViolation = true) := by
  obtain ⟨res, hres, h⟩ := bind_eq_ok.mp h
  rw [wrapErr_eq_ok] at hres
  have hof := groupEvaluations_of hres
  cases h
  rw [← hof.violations, ← hof.gated]
  simp

end Chainloop.Renderer
