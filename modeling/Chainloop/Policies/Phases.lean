import Chainloop.Policies.Attachment

namespace Chainloop.Policies

open Go List

def asksIgnore (env : PolicyEnv) (options : EngineOptions) (material : Bytes)
    (args : Map String String) (script : EnginePolicy) : Prop :=
  ∃ r, executeScript env options script material args = .ok r ∧ r.ignore = true

theorem record_executed (env : PolicyEnv) (run : ScriptRun) (script : EnginePolicy)
    (r : EvaluationResult) : (run.record env script r).executed = run.executed ++ [script] := by
  unfold ScriptRun.record
  cases hr : r.ignore <;> simp

theorem record_sources_nil (env : PolicyEnv) (run : ScriptRun) (script : EnginePolicy)
    (r : EvaluationResult) :
    (run.record env script r).sources = [] ↔ run.sources = [] ∧ r.ignore = true := by
  unfold ScriptRun.record
  cases hr : r.ignore <;> simp

theorem foldlM_record {scripts : List EnginePolicy} {start run : ScriptRun}
    (h : scripts.foldlM (fun run script => do
      let r ← executeScript env options script material args
      .ok (run.record env script r)) start = Except.ok run) :
    run.executed = start.executed ++ scripts ∧ (run.sources = [] ↔ start.sources = [] ∧
        ∀ script ∈ scripts, asksIgnore env options material args script) := by
  induction scripts generalizing start with
  | nil =>
    cases h
    simp
  | cons script rest ih =>
    obtain ⟨next, hnext, h⟩ := bind_eq_ok.mp h
    obtain ⟨r, hr, he⟩ := bind_eq_ok.mp hnext
    cases he
    obtain ⟨hexec, hsrc⟩ := ih h
    have hone : asksIgnore env options material args script ↔ r.ignore = true := by
      unfold asksIgnore
      rw [hr]
      simp
    refine ⟨?_, ?_⟩
    · rw [hexec, record_executed, append_assoc, singleton_append]
    · rw [hsrc, record_sources_nil, forall_mem_cons, hone, and_assoc]

theorem runScripts_spec {run : ScriptRun}
    (h : runScripts env options material args scripts = .ok run) :
    run.executed = scripts ∧
      (run.sources = [] ↔ ∀ script ∈ scripts, asksIgnore env options material args script) := by
  have hspec := foldlM_record h
  simpa [ScriptRun.start] using hspec

theorem runScripts_of_ignored
    (hall : ∀ script ∈ scripts, asksIgnore env options material args script) :
    ∃ run, runScripts env options material args scripts = .ok run := by
  unfold runScripts
  generalize ScriptRun.start = start
  induction scripts generalizing start with
  | nil => exact ⟨start, rfl⟩
  | cons script rest ih =>
    obtain ⟨r, hr, -⟩ := hall script mem_cons_self
    rw [foldlM_cons, hr]
    exact ih (fun s hs => hall s (mem_cons_of_mem _ hs)) _

inductive Evaluated (env : PolicyEnv) (pv : PolicyVerifier) (attachment : PolicyAttachment)
    (policy : Policy) (ref : Option PolicyDescriptor) (material : Bytes) (opts : EvalOpts) :
    List EnginePolicy → Option PolicyEvaluation → Prop
  | outOfPhase (hphase : shouldEvaluateAtPhase (attestationPhasesForKind policy.spec opts.kind)
        pv.evalPhase = false) :
      Evaluated env pv attachment policy ref material opts [] none
  | ignored (scripts : List EnginePolicy) (args : Map String String) (overrides : List String)
      (hphase : shouldEvaluateAtPhase (attestationPhasesForKind policy.spec opts.kind)
        pv.evalPhase = true)
      (hscripts : loadPolicyScriptsFromSpec env policy opts.kind (policyLocation attachment.ref) =
        .ok scripts)
      (hargs : resolveArguments env attachment policy opts = .ok (args, overrides))
      (hall : ∀ script ∈ scripts, asksIgnore env pv.options material args script) :
      Evaluated env pv attachment policy ref material opts scripts none
  | merged (scripts : List EnginePolicy) (args : Map String String) (overrides : List String)
      (run : ScriptRun) (ev : PolicyEvaluation)
      (hphase : shouldEvaluateAtPhase (attestationPhasesForKind policy.spec opts.kind)
        pv.evalPhase = true)
      (hscripts : loadPolicyScriptsFromSpec env policy opts.kind (policyLocation attachment.ref) =
        .ok scripts)
      (hargs : resolveArguments env attachment policy opts = .ok (args, overrides))
      (hsome : ∃ script ∈ scripts, ¬ asksIgnore env pv.options material args script)
      (hmerge : mergeResults env pv attachment policy ref opts args overrides run = .ok ev) :
      Evaluated env pv attachment policy ref material opts scripts (some ev)

theorem evaluateLoaded_inv
    (h : evaluateLoaded env pv attachment policy ref material opts = .ok (executed, result)) :
    Evaluated env pv attachment policy ref material opts executed result := by
  unfold evaluateLoaded at h
  split_ifs at h with hphase
  · cases h
    exact .outOfPhase hphase
  · rw [Bool.not_eq_false] at hphase
    obtain ⟨scripts, hscripts, h⟩ := bind_eq_ok.mp h
    obtain ⟨⟨args, overrides⟩, hargs, h⟩ := bind_eq_ok.mp h
    obtain ⟨run, hrun, h⟩ := bind_eq_ok.mp h
    obtain ⟨hexec, hsrc⟩ := runScripts_spec hrun
    rw [hexec] at h
    split_ifs at h with hempty
    · have hall := hsrc.mp (isEmpty_iff.mp hempty)
      cases h
      exact .ignored _ args overrides hphase hscripts hargs hall
    · have hnot : ¬ ∀ script ∈ scripts, asksIgnore env pv.options material args script :=
        fun hall => hempty (isEmpty_iff.mpr (hsrc.mpr hall))
      simp only [not_forall, exists_prop] at hnot
      obtain ⟨ev, hmerge, h⟩ := bind_eq_ok.mp h
      cases h
      exact .merged _ args overrides run ev hphase hscripts hargs hnot hmerge

theorem evaluateTraced_inv {env : PolicyEnv}
    (h : evaluateTraced env pv attachment material opts = .ok (executed, result)) :
    ∃ policy ref, loadPolicySpec env.toLoaderEnv attachment = .ok (policy, ref) ∧
      Evaluated env pv attachment policy ref material opts executed result := by
  unfold evaluateTraced at h
  rw [policyErr_eq_ok] at h
  obtain ⟨⟨policy, ref⟩, hload, h⟩ := bind_eq_ok.mp h
  exact ⟨policy, ref, hload, evaluateLoaded_inv h⟩

def allowsPhase (p : AttestationPhase) (s : PolicySpecV2) : Bool :=
  s.attestationPhases.isEmpty || s.attestationPhases.contains p

def attestationEntries (spec : PolicySpec) : List PolicySpecV2 :=
  spec.policies.filter (matchesKind .attestation)

-- The documented meaning of attestation_phases, entry by entry: the scripts of
-- the entries that apply at `p` run, no other, and there is no evaluation exactly
-- when there is no such script or all of them ask to be ignored.
def PhaseLaw (env : PolicyEnv) (pv : PolicyVerifier) (attachment : PolicyAttachment)
    (policy : Policy) (material : Bytes) (opts : EvalOpts) (p : AttestationPhase)
    (executed : List EnginePolicy) (result : Option PolicyEvaluation) : Prop :=
  ((attestationEntries policy.spec).filter (allowsPhase p)).mapM (fun s =>
      prepareScript env policy.metadata.name (policyLocation attachment.ref) s.source) =
    .ok executed ∧
  (result = none ↔ executed = [] ∨ ∃ args overrides,
    resolveArguments env attachment policy opts = .ok (args, overrides) ∧
    ∀ script ∈ executed, asksIgnore env pv.options material args script)

theorem shouldEvaluateAtPhase_eq_false (hp : targetPhase? phase = some p) :
    shouldEvaluateAtPhase phases phase = false ↔ phases ≠ [] ∧ p ∉ phases := by
  cases phases with
  | nil => simp [shouldEvaluateAtPhase]
  | cons a rest => simp [shouldEvaluateAtPhase, hp]

theorem phases_skip_iff {spec : PolicySpec} (hmulti : spec.source = none)
    (hp : targetPhase? phase = some p) :
    shouldEvaluateAtPhase (attestationPhasesForKind spec .attestation) phase = false ↔
      (∃ s ∈ attestationEntries spec, s.attestationPhases ≠ []) ∧
      ∀ s ∈ attestationEntries spec, p ∉ s.attestationPhases := by
  have hjoin : attestationPhasesForKind spec .attestation =
      (attestationEntries spec).flatMap PolicySpecV2.attestationPhases := by
    simp [attestationPhasesForKind, hmulti, attestationEntries]
  rw [shouldEvaluateAtPhase_eq_false hp, hjoin]
  simp

theorem allowsPhase_iff (p : AttestationPhase) (s : PolicySpecV2) :
    allowsPhase p s = true ↔ s.attestationPhases = [] ∨ p ∈ s.attestationPhases := by
  simp [allowsPhase]

theorem loadScripts_multi (env : PolicyEnv) (policy : Policy) (basePath : String)
    (hmulti : policy.spec.source = none) :
    loadPolicyScriptsFromSpec env policy .attestation basePath =
      (attestationEntries policy.spec).mapM fun s =>
        prepareScript env policy.metadata.name basePath s.source := by
  simp [loadPolicyScriptsFromSpec, hmulti, attestationEntries]

theorem phaseLaw_of_ran {pv : PolicyVerifier} {attachment : PolicyAttachment} {policy : Policy}
    (hmulti : policy.spec.source = none) (hp : targetPhase? pv.evalPhase = some p)
    (hphase : shouldEvaluateAtPhase (attestationPhasesForKind policy.spec .attestation)
      pv.evalPhase = true)
    (hscripts : loadPolicyScriptsFromSpec env policy .attestation (policyLocation attachment.ref) =
      .ok executed)
    (hresult : result = none ↔ executed = [] ∨ ∃ args overrides,
      resolveArguments env attachment policy opts = .ok (args, overrides) ∧
      ∀ script ∈ executed, asksIgnore env pv.options material args script) :
    PhaseLaw env pv attachment policy material opts p executed result ↔
      (∀ s ∈ attestationEntries policy.spec, allowsPhase p s = true) ∨
      ∀ s ∈ attestationEntries policy.spec, allowsPhase p s = false := by
  rw [loadScripts_multi env policy _ hmulti] at hscripts
  have hall := mapM_filter_eq_ok_iff (allowsPhase p) hscripts
  refine ⟨fun hlaw => .inl (hall.mp hlaw.1), fun h => ⟨hall.mpr ?_, hresult⟩⟩
  rcases h with h | hnone
  · exact h
  · intro s hs
    by_contra hs'
    have hskip : shouldEvaluateAtPhase (attestationPhasesForKind policy.spec .attestation)
        pv.evalPhase = false := by
      refine (phases_skip_iff hmulti hp).mpr ⟨⟨s, hs, ?_⟩, ?_⟩
      · intro hnil
        exact hs' ((allowsPhase_iff p s).mpr (.inl hnil))
      · intro t ht hmem
        have htrue := (allowsPhase_iff p t).mpr (.inr hmem)
        rw [hnone t ht] at htrue
        cases htrue
    rw [hphase] at hskip
    cases hskip

theorem phaseLaw_of_skipped {pv : PolicyVerifier} {policy : Policy}
    (hmulti : policy.spec.source = none) (hp : targetPhase? pv.evalPhase = some p)
    (hphase : shouldEvaluateAtPhase (attestationPhasesForKind policy.spec .attestation)
      pv.evalPhase = false) :
    PhaseLaw env pv attachment policy material opts p [] none ↔
      (∀ s ∈ attestationEntries policy.spec, allowsPhase p s = true) ∨
      ∀ s ∈ attestationEntries policy.spec, allowsPhase p s = false := by
  obtain ⟨⟨s, hs, hne⟩, hnot⟩ := (phases_skip_iff hmulti hp).mp hphase
  have hblocked : ¬ ∀ s ∈ attestationEntries policy.spec, allowsPhase p s = true := by
    intro hall
    rcases (allowsPhase_iff p s).mp (hall s hs) with hnil | hmem
    · exact hne hnil
    · exact hnot s hs hmem
  unfold PhaseLaw
  rw [mapM_eq_ok_nil_iff, or_iff_right hblocked]
  simp

theorem phaseLaw_iff_entries_agree (env : PolicyEnv) (pv : PolicyVerifier)
    (attachment : PolicyAttachment) (policy : Policy) (ref : Option PolicyDescriptor)
    (material : Bytes) (opts : EvalOpts) (p : AttestationPhase) (executed : List EnginePolicy)
    (result : Option PolicyEvaluation) (hload : loadPolicySpec env.toLoaderEnv attachment =
      .ok (policy, ref)) (hmulti : policy.spec.source = none)
    (hp : targetPhase? pv.evalPhase = some p) (hkind : opts.kind = .attestation)
    (h : evaluateTraced env pv attachment material opts = .ok (executed, result)) :
    PhaseLaw env pv attachment policy material opts p executed result ↔
      (∀ s ∈ attestationEntries policy.spec, allowsPhase p s = true) ∨
      ∀ s ∈ attestationEntries policy.spec, allowsPhase p s = false := by
  obtain ⟨policy', ref', hload', hev⟩ := evaluateTraced_inv h
  rw [hload] at hload'
  cases hload'
  cases hev with
  | outOfPhase hphase =>
    rw [hkind] at hphase
    exact phaseLaw_of_skipped hmulti hp hphase
  | ignored _ args overrides hphase hscripts hargs hall =>
    rw [hkind] at hphase hscripts
    refine phaseLaw_of_ran hmulti hp hphase hscripts ?_
    exact iff_of_true rfl (.inr ⟨args, overrides, hargs, hall⟩)
  | merged _ args overrides run ev hphase hscripts hargs hsome hmerge =>
    rw [hkind] at hphase hscripts
    refine phaseLaw_of_ran hmulti hp hphase hscripts ?_
    obtain ⟨script, hmem, hrun⟩ := hsome
    refine iff_of_false (by simp) ?_
    rintro (hnil | ⟨args', overrides', hargs', hall⟩)
    · rw [hnil] at hmem
      cases hmem
    · rw [hargs] at hargs'
      cases hargs'
      exact hrun (hall script hmem)

def phasedPolicy (phases : List (List AttestationPhase)) : Policy where
  metadata := ⟨"release-check", "", .empty, ""⟩
  spec := ⟨none, .unspecified, phases.map fun own => ⟨some (.embedded "rego"), .attestation, own⟩, []⟩

def embeddedAttachment (policy : Policy) (disabled : Bool) (gate : Option Bool) :
    PolicyAttachment :=
  ⟨"", some policy, ⟨"", .unspecified⟩, disabled, .empty, [], gate⟩

def passedResult : EvaluationResult := ⟨[], false, "", false, none⟩

def bareVerifier (policies : Policies) (phase : EvalPhase) : PolicyVerifier :=
  ⟨policies, false, phase, none, ⟨[], "", ""⟩⟩

def attestationOpts : EvalOpts := ⟨"", .attestation, .empty, none⟩

theorem phaseLaw_fails_for_init_and_push : ∃ executed result,
      evaluateTraced (.offline passedResult) (bareVerifier ⟨[], []⟩ .init)
        (embeddedAttachment (phasedPolicy [[.init], [.push]]) false none) [] attestationOpts =
          .ok (executed, result) ∧
      executed.length = 2 ∧
      ¬ PhaseLaw (.offline passedResult) (bareVerifier ⟨[], []⟩ .init)
        (embeddedAttachment (phasedPolicy [[.init], [.push]]) false none)
        (phasedPolicy [[.init], [.push]]) [] attestationOpts .init executed result := by
  refine ⟨_, _, rfl, rfl, ?_⟩
  rintro ⟨hrun, -⟩
  have hlen := (mapM_eq_ok_iff.mp hrun).length_eq
  revert hlen
  decide +kernel

theorem phaseLaw_iff_entries_agree_init_only : ∃ executed result,
      evaluateTraced (.offline passedResult) (bareVerifier ⟨[], []⟩ .init)
        (embeddedAttachment (phasedPolicy [[.init], []]) false none) [] attestationOpts =
          .ok (executed, result) ∧
      PhaseLaw (.offline passedResult) (bareVerifier ⟨[], []⟩ .init)
        (embeddedAttachment (phasedPolicy [[.init], []]) false none)
        (phasedPolicy [[.init], []]) [] attestationOpts .init executed result := by
  refine ⟨_, _, rfl, ?_⟩
  exact (phaseLaw_iff_entries_agree _ _ _ _ none _ _ _ _ _ rfl rfl rfl rfl rfl).mpr
    (.inl (by decide))

end Chainloop.Policies
