import Chainloop.Renderer.Statement

namespace Chainloop.Renderer

open Go Map Option Bool

structure PolicyEvaluationStatus where
  strategy : BlockingStrategy
  bypassed : Bool
  blocked : Bool
  hasViolations : Bool
  hasGatedViolations : Bool
  hasGates : Bool
  evaluationsCount : Nat
  violationsCount : Nat
  skippedCount : Nat
  passedCount : Nat
  suppressedCount : Nat
deriving DecidableEq

structure InlineSummary where
  skipped : Nat
  passed : Nat
  hasGates : Bool
deriving DecidableEq

def InlineSummary.add (sum : InlineSummary) (ev : PolicyEvaluation) : InlineSummary :=
  let sum := { sum with hasGates := sum.hasGates || ev.gate }
  if ev.violations ≠ [] then sum
  else if ev.skipped then { sum with skipped := sum.skipped + 1 }
  else { sum with passed := sum.passed + 1 }

def summarizeInlineEvaluations (evals : Map String (List PolicyEvaluation)) : InlineSummary :=
  evals.elements.foldl InlineSummary.add ⟨0, 0, false⟩

def ProvenancePredicateV02.getPolicyEvaluationStatus (p : ProvenancePredicateV02) :
    PolicyEvaluationStatus :=
  -- Attestations signed before these counters and flags existed decode as zero.
  let countersMissing :=
    p.policySkippedCount == 0 && p.policyPassedCount == 0 && p.policyEvaluationsCount > 0
  let evals :=
    if p.policyEvaluations.entries = [] then p.policyEvaluationsFallback else p.policyEvaluations
  let backfill := (countersMissing || !p.policyHasGates) && !evals.entries.isEmpty
  let sum := summarizeInlineEvaluations evals
  let hasGates := p.policyHasGates || (backfill && sum.hasGates)
  { strategy := p.policyCheckBlockingStrategy
    bypassed := p.policyBlockBypassEnabled
    blocked := p.policyAttBlocked
    hasViolations := p.policyHasViolations
    hasGatedViolations := p.policyHasGatedViolations
    -- Enforcement by the strategy implies gating even without inline evaluations.
    hasGates := hasGates || p.policyCheckBlockingStrategy == .enforced
    evaluationsCount := p.policyEvaluationsCount
    violationsCount := p.policyViolationsCount
    skippedCount := if backfill && countersMissing then sum.skipped else p.policySkippedCount
    passedCount := if backfill && countersMissing then sum.passed else p.policyPassedCount
    suppressedCount := p.policySuppressedCount }

inductive PolicyStatus where
  | unspecified | notApplicable | passed | skipped | warning | blocked | bypassed
deriving DecidableEq

structure PolicyStatusSummary where
  status : PolicyStatus
  total : Nat
  passed : Nat
  skipped : Nat
  violated : Nat
  hasGates : Bool
  suppressed : Nat
deriving DecidableEq

def derivePolicyStatusSummary (s : PolicyEvaluationStatus) : PolicyStatusSummary :=
  if s.evaluationsCount = 0 then ⟨.notApplicable, 0, 0, 0, 0, false, 0⟩
  else
    let enforced := s.hasGatedViolations || s.strategy == .enforced
    { status :=
        if enforced && s.bypassed then .bypassed
        else if enforced && s.hasViolations then .blocked
        else if s.hasViolations then .warning
        else if s.skippedCount > 0 then .skipped
        else .passed
      total := s.evaluationsCount
      passed := s.passedCount
      skipped := s.skippedCount
      violated := s.violationsCount
      hasGates := s.hasGates
      suppressed := s.suppressedCount }

def suppressed (ev : Policies.PolicyEvaluation) : Nat := ev.violations.countP fun vi => vi.suppress

def isSkipped (ev : Policies.PolicyEvaluation) : Bool := active ev == 0 && ev.skipped

def isPassed (ev : Policies.PolicyEvaluation) : Bool := active ev == 0 && !ev.skipped

theorem InlineSummary.add_right_comm (sum : InlineSummary) (a b : PolicyEvaluation) :
    (sum.add a).add b = (sum.add b).add a := by
  unfold InlineSummary.add
  split_ifs <;> simp [Bool.or_right_comm]

theorem summarizeInlineEvaluations_push (evals : Map String (List PolicyEvaluation)) (k : String)
    (ev : PolicyEvaluation) :
    summarizeInlineEvaluations (evals.push k ev) = (summarizeInlineEvaluations evals).add ev := by
  have hperm := (evals.elements_push k ev).foldl_eq' (f := InlineSummary.add)
    (fun a _ b _ sum => InlineSummary.add_right_comm sum a b) ⟨0, 0, false⟩
  rw [summarizeInlineEvaluations, hperm, List.foldl_append]
  rfl

-- The counters of the result, and that the inline evaluations give the same.
structure EvaluationsResult.Counts (evals : List Policies.PolicyEvaluation)
    (res : EvaluationsResult) : Prop where
  gates : res.hasGates = evals.any (·.gate)
  violated : res.violationsCount = (evals.map active).sum
  suppressed : res.suppressedCount = (evals.map suppressed).sum
  skipped : res.skippedCount = evals.countP isSkipped
  passed : res.passedCount = evals.countP isPassed
  inline : summarizeInlineEvaluations res.evaluations
    = ⟨res.skippedCount, res.passedCount, res.hasGates⟩

structure RenderedFrom (p : Policies.PolicyEvaluation) (ev : PolicyEvaluation) : Prop where
  gate : ev.gate = p.gate
  skipped : ev.skipped = p.skipped
  violations : ev.violations = [] ↔ active p = 0

theorem renderEvaluation_renderedFrom (h : renderEvaluation newStruct p false = .ok ev) :
    RenderedFrom p ev := by
  obtain ⟨_, _, h⟩ := bind_eq_ok.mp h
  obtain ⟨_, _, h⟩ := bind_eq_ok.mp h
  cases h
  refine ⟨rfl, rfl, ?_⟩
  simp [renderViolations, active]

theorem EvaluationsResult.add_eq (res : EvaluationsResult) (hev : RenderedFrom p ev) :
    res.add p ev = { res with
      evaluations := res.evaluations.push (keyName p.materialName) ev
      hasGates := res.hasGates || ev.gate
      hasViolations := res.hasViolations || active p ≠ 0
      hasGatedViolations := res.hasGatedViolations || active p ≠ 0 && ev.gate
      violationsCount := res.violationsCount + active p
      suppressedCount := res.suppressedCount + suppressed p
      skippedCount := res.skippedCount + if isSkipped p then 1 else 0
      passedCount := res.passedCount + if isPassed p then 1 else 0 } := by
  unfold EvaluationsResult.add isSkipped isPassed
  rw [hev.skipped]
  by_cases hactive : active p = 0
  · cases p.skipped <;> simp [hactive, suppressed]
  · simp [hactive, Nat.pos_of_ne_zero hactive, suppressed]

theorem InlineSummary.add_eq (sum : InlineSummary) {ev : PolicyEvaluation} (hev : RenderedFrom p ev) :
    sum.add ev = ⟨sum.skipped + if isSkipped p then 1 else 0,
      sum.passed + if isPassed p then 1 else 0, sum.hasGates || ev.gate⟩ := by
  unfold InlineSummary.add isSkipped isPassed
  simp only [hev.skipped, ne_eq, hev.violations]
  by_cases hactive : active p = 0
  · cases p.skipped <;> simp [hactive]
  · simp [hactive]

theorem EvaluationsResult.Counts.add {res : EvaluationsResult} (h : res.Counts evals)
    (hev : RenderedFrom p ev) : (res.add p ev).Counts (evals ++ [p]) := by
  rw [res.add_eq hev]
  refine ⟨?_, ?_, ?_, ?_, ?_, ?_⟩
  · simp [h.gates, hev.gate]
  · simp [h.violated]
  · simp [h.suppressed]
  · simp [h.skipped]
  · simp [h.passed]
  · rw [summarizeInlineEvaluations_push, h.inline, InlineSummary.add_eq _ hev]

theorem groupEvaluations_counts {evals : List Policies.PolicyEvaluation} {res : EvaluationsResult}
    (h : groupEvaluations newStruct evals false = .ok res) :
    res.Counts evals ∧ res.evaluationsCount = evals.length := by
  obtain ⟨last, hlast, h⟩ := bind_eq_ok.mp h
  cases h
  have hstart : EvaluationsResult.start.Counts [] := ⟨rfl, rfl, rfl, rfl, rfl, rfl⟩
  have hcounts := foldlM_invariant (fun done res => res.Counts done) (fun done p res res' hres hstep => by
    obtain ⟨ev, hev, hstep⟩ := bind_eq_ok.mp hstep
    cases hstep
    exact hres.add (renderEvaluation_renderedFrom hev)) hstart hlast
  exact ⟨⟨hcounts.gates, hcounts.violated, hcounts.suppressed, hcounts.skipped, hcounts.passed,
    hcounts.inline⟩, rfl⟩

def statusOf (att : Attestation) : PolicyEvaluationStatus :=
  let violated := att.policyEvaluations.any fun ev => active ev > 0
  let gated := att.policyEvaluations.any fun ev => ev.gate && active ev > 0
  { strategy := if att.blockOnPolicyViolation then .enforced else .advisory
    bypassed := att.bypassPolicyCheck
    blocked := !att.bypassPolicyCheck && (gated || (violated && att.blockOnPolicyViolation))
    hasViolations := violated
    hasGatedViolations := gated
    hasGates := att.policyEvaluations.any (·.gate) || att.blockOnPolicyViolation
    evaluationsCount := att.policyEvaluations.length
    violationsCount := (att.policyEvaluations.map active).sum
    skippedCount := att.policyEvaluations.countP isSkipped
    passedCount := att.policyEvaluations.countP isPassed
    suppressedCount := (att.policyEvaluations.map suppressed).sum }

theorem getPolicyEvaluationStatus_of_inline (p : ProvenancePredicateV02)
    (hfallback : p.policyEvaluationsFallback = .empty)
    (hinline : p.policyEvaluations.entries ≠ [] →
      ∃ gates, summarizeInlineEvaluations p.policyEvaluations
        = ⟨p.policySkippedCount, p.policyPassedCount, gates⟩ ∧
        p.policyHasGates = (gates || p.policyCheckBlockingStrategy == .enforced)) :
    p.getPolicyEvaluationStatus =
      { strategy := p.policyCheckBlockingStrategy
        bypassed := p.policyBlockBypassEnabled
        blocked := p.policyAttBlocked
        hasViolations := p.policyHasViolations
        hasGatedViolations := p.policyHasGatedViolations
        hasGates := p.policyHasGates || p.policyCheckBlockingStrategy == .enforced
        evaluationsCount := p.policyEvaluationsCount
        violationsCount := p.policyViolationsCount
        skippedCount := p.policySkippedCount
        passedCount := p.policyPassedCount
        suppressedCount := p.policySuppressedCount } := by
  unfold ProvenancePredicateV02.getPolicyEvaluationStatus
  by_cases hempty : p.policyEvaluations.entries = []
  · simp [hempty, hfallback, empty]
  · obtain ⟨gates, hsum, hgates⟩ := hinline hempty
    simp only [if_neg hempty, hsum]
    rw [hgates]
    cases gates <;> simp

theorem getPolicyEvaluationStatus_rendered {att : CraftedAttestation} {p : ProvenancePredicateV02}
    (h : renderPredicate env att = .ok p) :
    p.getPolicyEvaluationStatus = statusOf att.toAttestation := by
  obtain ⟨hpolicy, _, _, _, hfallback⟩ := renderPredicate_spec h
  obtain ⟨policy, metadata, annotations, materials, ref, fallback⟩ := p
  obtain ⟨res, hres, hpolicy⟩ := bind_eq_ok.mp hpolicy
  rw [wrapErr_eq_ok] at hres
  obtain ⟨hcounts, hlength⟩ := groupEvaluations_counts hres
  have hof := groupEvaluations_of hres
  have hviolated : res.hasViolations = att.policyEvaluations.any fun ev => active ev > 0 := by
    rw [Bool.eq_iff_iff, hof.violations]
    simp
  have hgated : res.hasGatedViolations
      = att.policyEvaluations.any fun ev => ev.gate && active ev > 0 := by
    rw [Bool.eq_iff_iff, hof.gated]
    simp
  have hstrategy : ((if att.blockOnPolicyViolation then .enforced else .advisory :
      BlockingStrategy) == .enforced) = att.blockOnPolicyViolation := by
    cases att.blockOnPolicyViolation <;> rfl
  cases hpolicy
  rw [getPolicyEvaluationStatus_of_inline _ hfallback]
  · simp only [statusOf, hviolated, hgated, hlength, hcounts.gates, hcounts.violated,
      hcounts.suppressed, hcounts.skipped, hcounts.passed, hstrategy, Bool.or_assoc, Bool.or_self]
  · intro hentries
    cases hoffloaded : env.policyEvaluationsRef.isSome with
    | true => simp [hoffloaded, empty] at hentries
    | false => exact ⟨res.hasGates, by simpa [hoffloaded] using hcounts.inline, rfl⟩

theorem countP_parts (evals : List Policies.PolicyEvaluation) :
    evals.countP isPassed + evals.countP isSkipped + evals.countP (fun ev => active ev > 0)
      = evals.length := by
  induction evals with
  | nil => rfl
  | cons ev rest ih =>
    have hone : (if isPassed ev then 1 else 0) + (if isSkipped ev then 1 else 0)
        + (if active ev > 0 then 1 else 0) = 1 := by
      unfold isPassed isSkipped
      by_cases hactive : active ev = 0
      · cases ev.skipped <;> simp [hactive]
      · simp [hactive, Nat.pos_of_ne_zero hactive]
    simp only [List.countP_cons, List.length_cons, decide_eq_true_eq]
    omega

structure StatusSurvives (att : Attestation) (p : ProvenancePredicateV02)
    (summary : PolicyStatusSummary) : Prop where
  total : summary.total = att.policyEvaluations.length
  parts : summary.passed + summary.skipped
    + att.policyEvaluations.countP (fun ev => active ev > 0) = summary.total
  suppressed : summary.suppressed = (att.policyEvaluations.map suppressed).sum
  violated : summary.violated = (att.policyEvaluations.map active).sum
  gates : summary.hasGates = true ↔
    (∃ ev ∈ att.policyEvaluations, ev.gate = true) ∨ att.blockOnPolicyViolation = true
  blocked : summary.status = .blocked ↔ p.policyAttBlocked = true

theorem derivePolicyStatusSummary_blocked_iff (s : PolicyEvaluationStatus) :
    (derivePolicyStatusSummary s).status = .blocked ↔ s.evaluationsCount ≠ 0 ∧
      s.bypassed = false ∧ s.hasViolations = true ∧
      (s.hasGatedViolations || s.strategy == .enforced) = true := by
  unfold derivePolicyStatusSummary
  by_cases hcount : s.evaluationsCount = 0
  · simp [hcount]
  · rw [if_neg hcount]
    generalize (s.hasGatedViolations || s.strategy == .enforced) = enforced
    cases enforced <;> cases s.bypassed <;> cases s.hasViolations <;>
      simp [hcount, ite_eq_iff]

theorem status_blocked_iff (att : Attestation) :
    (derivePolicyStatusSummary (statusOf att)).status = .blocked ↔ (statusOf att).blocked = true := by
  have hstrategy : ((statusOf att).strategy == .enforced) = att.blockOnPolicyViolation := by
    cases hblock : att.blockOnPolicyViolation <;> simp [statusOf, hblock]
  rw [derivePolicyStatusSummary_blocked_iff, hstrategy]
  simp only [statusOf, and_eq_true, or_eq_true, not_eq_true', List.any_eq_true,
    decide_eq_true_eq, ne_eq, List.length_eq_zero_iff]
  constructor
  · exact fun ⟨_, hbypass, hviolated, hforced⟩ =>
      ⟨hbypass, hforced.imp_right fun hblock => ⟨hviolated, hblock⟩⟩
  · rintro ⟨hbypass, hforced⟩
    -- A gated violation is a violation, and a violation needs an evaluation.
    have hviolated : ∃ ev ∈ att.policyEvaluations, active ev > 0 := by
      rcases hforced with ⟨ev, hmem, _, hactive⟩ | ⟨hviolated, _⟩
      · exact ⟨ev, hmem, hactive⟩
      · exact hviolated
    obtain ⟨ev, hmem, hactive⟩ := hviolated
    exact ⟨List.ne_nil_of_mem hmem, hbypass, ⟨ev, hmem, hactive⟩, hforced.imp_right fun h => h.2⟩

-- Two renderings of one attestation, which may differ in where the evaluations went.
theorem policy_status_survives_rendering_iff {env env' : RenderEnv} {att : CraftedAttestation}
    {s s' : Statement} (h : renderStatement env att = .ok s) (h' : renderStatement env' att = .ok s') :
    ∃ p p', s.extractPredicate = .ok p ∧ s'.extractPredicate = .ok p' ∧
      derivePolicyStatusSummary p'.getPolicyEvaluationStatus
        = derivePolicyStatusSummary p.getPolicyEvaluationStatus ∧
      (StatusSurvives att.toAttestation p (derivePolicyStatusSummary p.getPolicyEvaluationStatus) ↔
        att.policyEvaluations ≠ [] ∨ att.blockOnPolicyViolation = false) := by
  obtain ⟨p, hp, hextract⟩ := extractPredicate_renderStatement h
  obtain ⟨p', hp', hextract'⟩ := extractPredicate_renderStatement h'
  have hstatus := getPolicyEvaluationStatus_rendered hp
  have hblocked : p.policyAttBlocked = (statusOf att.toAttestation).blocked :=
    congrArg PolicyEvaluationStatus.blocked hstatus
  refine ⟨p, p', hextract, hextract', ?_, ?_⟩
  · rw [hstatus, getPolicyEvaluationStatus_rendered hp']
  · rw [hstatus]
    have hparts := countP_parts att.policyEvaluations
    have hiff := status_blocked_iff att.toAttestation
    rw [← hblocked] at hiff
    by_cases hempty : att.policyEvaluations = []
    · have hsummary : derivePolicyStatusSummary (statusOf att.toAttestation)
          = ⟨.notApplicable, 0, 0, 0, 0, false, 0⟩ := by
        simp [derivePolicyStatusSummary, statusOf, hempty]
      rw [hsummary] at hiff ⊢
      refine ⟨fun hs => .inr ?_, fun hcond => ⟨?_, ?_, ?_, ?_, ?_, hiff⟩⟩
      · simpa [hempty] using hs.gates
      all_goals simp_all
    · have hcount : (statusOf att.toAttestation).evaluationsCount ≠ 0 := by
        simpa [statusOf] using hempty
      refine ⟨fun _ => .inl hempty, fun _ => ?_⟩
      unfold derivePolicyStatusSummary at hiff ⊢
      rw [if_neg hcount] at hiff ⊢
      exact ⟨rfl, hparts, rfl, rfl, by simp [statusOf], hiff⟩

def buildWorkflow : WorkflowMetadata := ⟨"build", "core", "app", "v1", false, "org", "contract", "1"⟩

def evaluatedAttestation (evals : List Policies.PolicyEvaluation) (enforced : Bool) :
    CraftedAttestation :=
  ⟨⟨evals, enforced, false⟩, buildWorkflow, .empty, .empty, none⟩

def inlineEnv : RenderEnv := ⟨fun _ => .ok (), "00", none⟩

def offloadedEnv : RenderEnv :=
  ⟨fun _ => .ok (), "00", some ⟨⟨"policy-evaluations", "", empty.set "sha256" "01", [], .empty⟩, 2⟩⟩

def mixedEvaluations : List Policies.PolicyEvaluation :=
  [⟨"cdx-fresh", "sbom", [], [⟨"image", "old", none, false⟩, ⟨"image", "known", none, true⟩], .empty,
      "", .empty, [], .sbomCyclonedxJson, "", "", none, none, false, [], [], [], true⟩,
    ⟨"signed", "", [], [], .empty, "", .empty, [], .unspecified, "", "", none, none, true,
      ["no input"], [], [], false⟩]

theorem policy_status_survives_rendering_mixed :
    ∃ s s' p p', renderStatement inlineEnv (evaluatedAttestation mixedEvaluations false) = .ok s ∧
      renderStatement offloadedEnv (evaluatedAttestation mixedEvaluations false) = .ok s' ∧
      s.extractPredicate = .ok p ∧ s'.extractPredicate = .ok p' ∧
      derivePolicyStatusSummary p'.getPolicyEvaluationStatus
        = derivePolicyStatusSummary p.getPolicyEvaluationStatus ∧
      StatusSurvives (evaluatedAttestation mixedEvaluations false).toAttestation p
        (derivePolicyStatusSummary p.getPolicyEvaluationStatus) := by
  have hrun : ((renderStatement inlineEnv (evaluatedAttestation mixedEvaluations false)).toOption.map
      fun _ => ()) = some () := by decide +kernel
  have hrun' : ((renderStatement offloadedEnv
      (evaluatedAttestation mixedEvaluations false)).toOption.map fun _ => ()) = some () := by
    decide +kernel
  obtain ⟨s, hs, _⟩ := exists_ok_of_toOption hrun
  obtain ⟨s', hs', _⟩ := exists_ok_of_toOption hrun'
  obtain ⟨p, p', hp, hp', hsame, hiff⟩ := policy_status_survives_rendering_iff hs hs'
  exact ⟨s, s', p, p', hs, hs', hp, hp', hsame, hiff.mpr (.inl (by decide))⟩

-- Under an enforced strategy and without evaluations, the predicate has gates and the
-- summary has none.
theorem enforced_without_evaluations_loses_gates :
    ∃ s p, renderStatement inlineEnv (evaluatedAttestation [] true) = .ok s ∧
      s.extractPredicate = .ok p ∧ p.policyHasGates = true ∧
      (derivePolicyStatusSummary p.getPolicyEvaluationStatus).hasGates = false ∧
      ¬ StatusSurvives (evaluatedAttestation [] true).toAttestation p
        (derivePolicyStatusSummary p.getPolicyEvaluationStatus) := by
  have hrun : ((renderStatement inlineEnv (evaluatedAttestation [] true)).toOption.bind fun s =>
      s.extractPredicate.toOption.map fun p => (p.policyHasGates,
        (derivePolicyStatusSummary p.getPolicyEvaluationStatus).hasGates)) = some (true, false) := by
    decide +kernel
  obtain ⟨s, hs, hrun⟩ := bind_eq_some_iff.mp hrun
  obtain ⟨p, hp, hfields⟩ := map_eq_some_iff.mp hrun
  obtain ⟨hgates, hlost⟩ := Prod.mk.injEq .. ▸ hfields
  refine ⟨s, p, eq_ok_of_toOption hs, eq_ok_of_toOption hp, hgates, hlost, fun hsurvives => ?_⟩
  have hkept := hsurvives.gates.mpr (.inr rfl)
  rw [hlost] at hkept
  cases hkept

end Chainloop.Renderer
