import Chainloop.Crafter.Preserve
import Chainloop.Policies.Plan

namespace Chainloop.Crafting

open Go Policies Materials List

def Carries (e ev : PolicyEvaluation) : Prop := e.gate = true ∧ ∀ v ∈ ev.violations, v ∈ e.violations

instance (e ev : PolicyEvaluation) : Decidable (Carries e ev) :=
  inferInstanceAs (Decidable (_ ∧ _))

def GatesKept (news stored : List PolicyEvaluation) : Prop :=
  ∀ ev ∈ news, ev.gate = true → ev.violations ≠ [] → ∃ e ∈ stored, Carries e ev

instance (news stored : List PolicyEvaluation) : Decidable (GatesKept news stored) :=
  inferInstanceAs (Decidable (∀ ev ∈ news, _ → _ → _))

-- What the script engines and the finding schemas say. An engine reads its arguments by key.
structure Answers where
  verify : PolicyType → EngineOptions → EnginePolicy → Bytes → (String → Option ArgValue) →
    Except GoError EvaluationResult
  validateFinding : String → RawFinding → Except GoError Finding

def Answers.env (answers : Answers) (env : PolicyEnv) : PolicyEnv :=
  { env with
    verify := fun type options script material args => answers.verify type options script material args.get?
    validateFinding := answers.validateFinding }

-- One successful call: what the two verifiers produced and what it leaves in the crafting state.
structure Evaluated (env : EvaluateEnv) (c : Crafter) (statement : Statement) (phase : EvalPhase)
    (news stored : List PolicyEvaluation) : Prop where
  produced : statementEvaluations env c.state statement phase = .ok news
  kept : ∃ c', evaluateAttestationPolicies env c statement phase = (.ok (), c') ∧
    c'.state.policyEvaluations.elems = stored.map some

def plannedMatches (a b : Planned) : Bool := a.reference == b.reference && a.args.equal b.args

-- Whatever a script of `p` reports, `q` reports as well.
def Covers (q p : Planned) : Prop :=
  p.findingType = q.findingType ∧ (∀ script ∈ p.scripts, script ∈ q.scripts) ∧
    (getInputArguments p.args).equal (getInputArguments q.args) = true

instance (q p : Planned) : Decidable (Covers q p) := inferInstanceAs (Decidable (_ ∧ (∀ _ ∈ p.scripts, _) ∧ _))

-- No attachment before it has its reference and arguments.
def First (plan : List Planned) (q : Planned) : Prop :=
  ∃ before after, plan = before ++ q :: after ∧ ∀ x ∈ before, plannedMatches x q = false

def GateHeld (plan : List Planned) : Prop :=
  ∀ p ∈ plan, p.gate = true → ∃ q, First plan q ∧ q.gate = true ∧ Covers q p

theorem executeScript_congr (answers : Answers) (env : PolicyEnv)
    (h : (getInputArguments args).equal (getInputArguments args') = true) (script : EnginePolicy) :
    executeScript (answers.env env) options script subject args =
      executeScript (answers.env env) options script subject args' := by
  have hargs : (getInputArguments args).get? = (getInputArguments args').get? :=
    funext ((Map.equal_iff ..).mp h)
  simp only [executeScript, Answers.env, hargs]

theorem policyEvalMatches_given (h : Given env options subject p ev) (h' : Given env options subject q ev') :
    policyEvalMatches ev ev' = plannedMatches p q := by
  rw [policyEvalMatches, plannedMatches, h.reference, h'.reference, h.args, h'.args]
  rfl

theorem Evaluated.exists_old (h : Evaluated env c statement phase news stored) :
    ∃ old, c.state.policyEvaluations.Holds old := by
  obtain ⟨c', hcall, -⟩ := h.kept
  unfold evaluateAttestationPolicies at hcall
  rw [h.produced] at hcall
  cases hold : c.state.policyEvaluations.deref with
  | none =>
    rw [hold] at hcall
    cases hcall
  | some old => exact ⟨old, Slice.holds_of_deref hold⟩

theorem Evaluated.mem_stored (h : Evaluated env c statement phase news stored)
    (hold : c.state.policyEvaluations.Holds old) :
    e ∈ stored ↔ ∃ before after, news ++ old = before ++ e :: after ∧
      (e.materialName ≠ "" ∨ ∀ x ∈ before, policyEvalMatches x e = false) := by
  obtain ⟨c', hcall, hstored⟩ := h.kept
  have hev := evaluateAttestationPolicies_evaluates env c statement phase old hold
  rw [hcall] at hev
  cases hev with
  | written news' evs hnews' hevs =>
    cases h.produced.symm.trans hnews'
    have hkept : stored = FirstMatch.keepFirst policyEvalMatches isMaterialLevel (news ++ old) := by
      rw [← mergeEvaluations_eq old (statementEvaluations_materialName h.produced)]
      exact Slice.Holds.unique hstored hevs
    rw [hkept, FirstMatch.mem_keepFirst policyEvalMatches_equivalence]
    simp [isMaterialLevel]

theorem statementEvaluations_follows
    (h : statementEvaluations ⟨env, env, grow, write⟩ st statement phase = .ok news) :
    ∃ subject plan, planStatement env (st.verifier phase none) st.contract.policyGroups statement = .ok plan ∧
      FollowsPlan env (st.verifier phase none).options subject plan news := by
  obtain ⟨policies, hpolicies, h⟩ := bind_eq_ok.mp h
  obtain ⟨groups, hgroups, h⟩ := bind_eq_ok.mp h
  cases h
  rw [wrapErr_eq_ok] at hpolicies hgroups
  obtain ⟨subject, plan, -, hplan, hfollows⟩ := statement_follows hpolicies hgroups
  exact ⟨subject, plan, hplan, hfollows⟩

-- The first attachment of its class runs whenever the one it covers reports something.
theorem covering_reports {answers : Answers} (h : FollowsPlan (answers.env env) options subject plan news)
    (hgiven : Given (answers.env env) options subject p ev) (hviolations : ev.violations ≠ [])
    (hq : q ∈ plan) (hcovers : Covers q p) :
    ∃ violations, q.outcome (answers.env env) options subject = .ok (some violations) ∧
      ∀ v ∈ ev.violations, v ∈ violations := by
  obtain ⟨htype, hscripts, hargs⟩ := hcovers
  have hexec (script : EnginePolicy) : executeScript (answers.env env) options script subject p.args =
      executeScript (answers.env env) options script subject q.args :=
    executeScript_congr answers env hargs script
  rcases h.of_mem_plan hq with hnone | ⟨e, -, he⟩
  · exfalso
    obtain ⟨v, hv⟩ := exists_mem_of_ne_nil _ hviolations
    obtain ⟨script, hscript, r, hr, hignore, -⟩ := (mem_outcome hgiven.outcome).mp hv
    rw [hexec] at hr
    cases hignore.symm.trans (ignore_of_outcome_none hnone (hscripts script hscript) hr)
  · refine ⟨e.violations, he.outcome, fun v hv => ?_⟩
    obtain ⟨script, hscript, r, hr, hignore, found, hfound, hapi⟩ := (mem_outcome hgiven.outcome).mp hv
    rw [hexec] at hr
    rw [htype] at hapi
    exact (mem_outcome he.outcome).mpr ⟨script, hscripts script hscript, r, hr, hignore, found, hfound, hapi⟩

theorem gatesKept_of_gateHeld {answers : Answers}
    (h : Evaluated ⟨answers.env env, answers.env env, grow, write⟩ c statement phase news stored)
    (hplan : ∀ plan, planStatement env (c.state.verifier phase none) c.state.contract.policyGroups
      statement = .ok plan → GateHeld plan) : GatesKept news stored := by
  obtain ⟨old, hold⟩ := h.exists_old
  obtain ⟨subject, plan, hplanned, hfollows⟩ := statementEvaluations_follows h.produced
  intro ev hev hgate hviolations
  obtain ⟨p, hp, hgiven⟩ := hfollows.given_of_mem hev
  obtain ⟨q, ⟨before, after, rfl, hfirst⟩, hqgate, hcovers⟩ :=
    hplan plan hplanned p hp (hgiven.gate ▸ hgate)
  obtain ⟨violations, houtcome, hcarried⟩ :=
    covering_reports hfollows hgiven hviolations (mem_append_right _ mem_cons_self) hcovers
  obtain ⟨first, last, rfl, hbefore, hrest⟩ := hfollows.split_plan
  cases hrest with
  | ignored hnone _ => cases hnone.symm.trans houtcome
  | @evaluated _ e _ rest he _ =>
    cases he.outcome.symm.trans houtcome
    refine ⟨e, (h.mem_stored hold).mpr ⟨first, rest ++ old, by simp, .inr fun x hx => ?_⟩, ?_, hcarried⟩
    · obtain ⟨p', hp', hx⟩ := hbefore.given_of_mem hx
      rw [policyEvalMatches_given hx he]
      exact hfirst p' hp'
    · rw [he.gate, hqgate]

section Reporting

def reported (findingType : String) (i : Nat) : Violation :=
  ⟨"", String.ofList (replicate i 'a'), if findingType = "" then none else some ⟨findingType, ""⟩, false⟩

theorem reported_inj (h : reported findingType i = reported findingType' j) :
    findingType = findingType' ∧ i = j := by
  obtain ⟨-, hmessage, hfinding, -⟩ := Violation.mk.inj h
  refine ⟨?_, by simpa using congrArg List.length (String.ofList_injective hmessage)⟩
  split_ifs at hfinding with h1 h2
  · rw [h1, h2]
  · exact congrArg Finding.findingType (Option.some.inj hfinding)

-- The answers that bring out `p`: each of its scripts reports a violation of its own on the arguments
-- of `p`, and everything else passes.
open Classical in
noncomputable def reporting (p : Planned) : Answers where
  verify _ _ script _ args :=
    .ok ⟨if args = (getInputArguments p.args).get? ∧ script ∈ p.scripts then
      [⟨"", String.ofList (replicate (p.scripts.idxOf script) 'a'), some .empty⟩] else [], false, "", false, none⟩
  validateFinding findingType _ := .ok ⟨findingType, ""⟩

variable (p : Planned) (env : PolicyEnv) (options : EngineOptions) (subject : Bytes)

theorem apiViolation_reporting (findingType : String) (i : Nat) :
    apiViolation ((reporting p).env env) findingType
      ⟨"", String.ofList (replicate i 'a'), some .empty⟩ = .ok (reported findingType i) := by
  unfold apiViolation reported
  by_cases h : findingType = ""
  · simp only [if_pos h]
    rfl
  · simp only [if_neg h]
    rfl

theorem executeScript_reporting (script : EnginePolicy) (args : Map String String) :
    ∃ r, executeScript ((reporting p).env env) options script subject args = .ok r ∧ r.ignore = false ∧
      ∀ found, found ∈ r.violations ↔
        (found = ⟨"", String.ofList (replicate (p.scripts.idxOf script) 'a'), some .empty⟩ ∧
          (getInputArguments args).get? = (getInputArguments p.args).get? ∧ script ∈ p.scripts) := by
  refine ⟨_, rfl, rfl, fun found => ?_⟩
  dsimp only
  split_ifs with h <;> simp [h]

theorem outcome_reporting (q : Planned) :
    ∃ violations, q.outcome ((reporting p).env env) options subject = .ok (some violations) ∧
      ∀ v, v ∈ violations ↔ (getInputArguments q.args).get? = (getInputArguments p.args).get? ∧
        ∃ script ∈ q.scripts, script ∈ p.scripts ∧ v = reported q.findingType (p.scripts.idxOf script) := by
  obtain ⟨violations, h⟩ : ∃ violations,
      q.outcome ((reporting p).env env) options subject = .ok (some violations) := by
    refine exists_outcome fun script _ => ?_
    obtain ⟨r, hr, hignore, hfound⟩ := executeScript_reporting p env options subject script q.args
    refine ⟨r, hr, hignore, fun found hmem => ?_⟩
    rw [((hfound found).mp hmem).1]
    exact ⟨_, apiViolation_reporting p env _ _⟩
  refine ⟨violations, h, fun v => ?_⟩
  rw [mem_outcome h]
  constructor
  · rintro ⟨script, hscript, r, hr, -, found, hmem, hv⟩
    obtain ⟨r', hr', -, hfound⟩ := executeScript_reporting p env options subject script q.args
    cases hr.symm.trans hr'
    obtain ⟨rfl, hargs, hin⟩ := (hfound found).mp hmem
    rw [apiViolation_reporting] at hv
    exact ⟨hargs, script, hscript, hin, (Except.ok.inj hv).symm⟩
  · rintro ⟨hargs, script, hscript, hin, rfl⟩
    obtain ⟨r, hr, hignore, hfound⟩ := executeScript_reporting p env options subject script q.args
    exact ⟨script, hscript, r, hr, hignore, _, (hfound _).mpr ⟨rfl, hargs, hin⟩,
      apiViolation_reporting p env _ _⟩

theorem violations_ne_nil (h : Given ((reporting p).env env) options subject p ev) : ev.violations ≠ [] := by
  obtain ⟨vs, hvs, hmem⟩ := outcome_reporting p env options subject p
  cases hvs.symm.trans h.outcome
  obtain ⟨script, hscript⟩ := exists_mem_of_ne_nil _ p.nonempty
  exact ne_nil_of_mem ((hmem _).mpr ⟨rfl, script, hscript, hscript, rfl⟩)

theorem covers_of_reporting
    (hp : Given ((reporting p).env env) options subject p ev)
    (hq : Given ((reporting p).env env) options subject q e)
    (h : ∀ v ∈ ev.violations, v ∈ e.violations) : Covers q p := by
  obtain ⟨vs, hvs, hmem⟩ := outcome_reporting p env options subject p
  obtain ⟨vs', hvs', hmem'⟩ := outcome_reporting p env options subject q
  cases hvs.symm.trans hp.outcome
  cases hvs'.symm.trans hq.outcome
  have hscript (script : EnginePolicy) (hin : script ∈ p.scripts) :
      (getInputArguments q.args).get? = (getInputArguments p.args).get? ∧
        p.findingType = q.findingType ∧ script ∈ q.scripts := by
    have hv := (hmem _).mpr ⟨rfl, script, hin, hin, rfl⟩
    obtain ⟨hargs, other, hother, hin', heq⟩ := (hmem' _).mp (h _ hv)
    obtain ⟨htype, hidx⟩ := reported_inj heq
    rw [(idxOf_inj hin).mp hidx]
    exact ⟨hargs, htype, hother⟩
  obtain ⟨first, hfirst⟩ := exists_mem_of_ne_nil _ p.nonempty
  obtain ⟨hargs, htype, -⟩ := hscript first hfirst
  refine ⟨htype, fun script hin => (hscript script hin).2.2, (Map.equal_iff ..).mpr fun k => ?_⟩
  rw [hargs]

end Reporting

theorem exists_evaluated {st : CraftingState} (hst : st.policyEvaluations = .nil)
    (hplan : planStatement env (st.verifier phase none) st.contract.policyGroups statement = .ok plan)
    (hrun : ∀ p ∈ plan, ∀ subject, ∃ o, p.outcome env (st.verifier phase none).options subject = .ok o) :
    ∃ news, Evaluated ⟨env, env, fun _ n => n, .ok ()⟩ ⟨st, []⟩ statement phase news
      (mergeEvaluations news []) := by
  obtain ⟨subject, hsubject, -⟩ := bind_eq_ok.mp hplan
  obtain ⟨evs, evs', hevs, hevs'⟩ := verified_of_plan hsubject hplan fun p hp => hrun p hp subject
  have hnews : statementEvaluations ⟨env, env, fun _ n => n, .ok ()⟩ st statement phase = .ok (evs ++ evs') :=
    bind_eq_ok.mpr ⟨evs, (wrapErr_eq_ok ..).mpr hevs,
      bind_eq_ok.mpr ⟨evs', (wrapErr_eq_ok ..).mpr hevs', rfl⟩⟩
  refine ⟨evs ++ evs', hnews, ?_⟩
  unfold evaluateAttestationPolicies
  rw [hnews, hst]
  exact ⟨_, rfl, Slice.elems_append ..⟩

theorem first_of_stored (h : Evaluated env ⟨st, written⟩ statement phase news stored)
    (hst : st.policyEvaluations = .nil) (hfollows : FollowsPlan policyEnv options subject plan news)
    (hall : ∀ x ∈ plan, x.outcome policyEnv options subject ≠ .ok none) (he : e ∈ stored) :
    ∃ q, First plan q ∧ Given policyEnv options subject q e := by
  have hold : st.policyEvaluations.Holds [] := hst ▸ Slice.holds_nil
  obtain ⟨first, last, hsplit, hfirst⟩ := (h.mem_stored hold).mp he
  rw [append_nil] at hsplit
  subst hsplit
  obtain ⟨before, q, after, rfl, hbefore, hq⟩ := hfollows.split_news
  refine ⟨q, ⟨before, after, rfl, fun x hx => ?_⟩, hq⟩
  rcases hbefore.of_mem_plan hx with hnone | ⟨ev, hev, hx'⟩
  · exact absurd hnone (hall x (mem_append_left _ hx))
  · have hname := statementEvaluations_materialName h.produced e (mem_append_right _ mem_cons_self)
    rw [← policyEvalMatches_given hx' hq]
    exact hfirst.resolve_left (fun hne => hne hname) ev hev

def gatedTwice (gate : Bool) : Contract where
  materials := []
  policies := ⟨[], [embeddedAttachment (phasedPolicy [[]]) false (some gate)]⟩
  policyGroups := [baselineGroup (some true)]
  unique := List.nodup_nil

def attestationGroup : PolicyGroup :=
  ⟨⟨"baseline", "", .empty, ""⟩, [], [embeddedAttachment (phasedPolicy [[]]) false none], []⟩

def violatedResult : EvaluationResult := ⟨[⟨"image", "not signed", none⟩], false, "", false, none⟩

def violatedEnv : PolicyEnv := groupEnv attestationGroup violatedResult

def violatedEvaluate : EvaluateEnv := ⟨violatedEnv, violatedEnv, fun _ n => n, .ok ()⟩

def gatedCrafter (gate : Bool) : Crafter := .fresh (gatedTwice gate) false [] "" ""

def gatedPlan (gate : Bool) : List Planned :=
  (planStatement violatedEnv ((gatedCrafter gate).state.verifier .push none)
    (gatedTwice gate).policyGroups ⟨""⟩).toOption.getD []

def gatedNews (gate : Bool) : List PolicyEvaluation :=
  (statementEvaluations violatedEvaluate (gatedCrafter gate).state ⟨""⟩ .push).toOption.getD []

def gatedStored (gate : Bool) : List PolicyEvaluation :=
  (evaluateAttestationPolicies violatedEvaluate (gatedCrafter gate) ⟨""⟩ .push).2.state
    |>.policyEvaluations.deref.getD []

end Chainloop.Crafting
