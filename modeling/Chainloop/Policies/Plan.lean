import Chainloop.Policies.Results
import Chainloop.Policies.Values

namespace Chainloop.Policies

open Go List Except

-- What an attachment comes to before its scripts run.
structure Planned where
  reference : Reference
  args : Map String String
  gate : Bool
  findingType : String
  scripts : List EnginePolicy
  nonempty : scripts ≠ []
deriving DecidableEq

section Plan

variable (env : PolicyEnv) (pv : PolicyVerifier)

def planLoaded (attachment : PolicyAttachment) (policy : Policy) (ref : Option PolicyDescriptor)
    (opts : EvalOpts) : Except GoError (Option Planned) := do
  if shouldEvaluateAtPhase (attestationPhasesForKind policy.spec opts.kind) pv.evalPhase = false then
    .ok none
  else
    let scripts ← loadPolicyScriptsFromSpec env policy opts.kind (policyLocation attachment.ref)
    let (args, _) ← resolveArguments env attachment policy opts
    if h : scripts = [] then .ok none
    else .ok (some
      { reference := ⟨policy.metadata.name, getDigest ref, getURI ref, getOrgName ref⟩
        args := args
        gate := policyAttachmentGate attachment pv.defaultGate
        findingType := policy.metadata.findingType
        scripts := scripts
        nonempty := h })

def planAttachment (opts : EvalOpts) (attachment : PolicyAttachment) :
    Except GoError (Option Planned) := do
  let (policy, ref) ← loadPolicySpec env.toLoaderEnv attachment
  planLoaded env pv attachment policy ref opts

def planInGroup (groupAtt : PolicyGroupAttachment) (opts : EvalOpts) (att : PolicyAttachment) :
    Except GoError (Option Planned) := do
  let skip ← shouldSkipPolicy env groupAtt.skip att
  if skip then .ok none else planAttachment env pv opts (applyGroupGate att groupAtt)

def planGroup (statement : Statement) (groupAtt : PolicyGroupAttachment) :
    Except GoError (List (Option Planned)) :=
  match loadPolicyGroup env.toLoaderEnv groupAtt with
  | .error e => if e.is .blockedTarget then .error e else .ok []
  | .ok (group, _) => do
    let groupArgs ← computeArguments env.renderTemplate group.inputs groupAtt.withArgs .empty
    let _ ← env.marshalStatement statement
    group.attestation.mapM (planInGroup env pv groupAtt (statementOpts groupArgs))

-- The attachments that are evaluated for a statement, in their order: those of the contract and
-- then those of its groups.
def planStatement (groups : List PolicyGroupAttachment) (statement : Statement) :
    Except GoError (List Planned) := do
  let _ ← env.marshalStatement statement
  let standalone ← pv.policies.attestation.mapM (planAttachment env pv (statementOpts .empty))
  let grouped ← groups.mapM (planGroup env pv statement)
  .ok (standalone ++ grouped.flatten).reduceOption

end Plan

section Outcome

variable (env : PolicyEnv) (options : EngineOptions) (subject : Bytes)

def Planned.outcome (p : Planned) : Except GoError (Option (List Violation)) := do
  let results ← p.scripts.mapM fun script => executeScript env options script subject p.args
  let counted := results.filter fun r => !r.ignore
  if counted = [] then .ok none
  else some <$> engineEvaluationsToAPIViolations env counted p.findingType

structure Given (p : Planned) (ev : PolicyEvaluation) : Prop where
  outcome : p.outcome env options subject = .ok (some ev.violations)
  reference : ev.policyReference = some p.reference
  args : ev.withArgs = p.args
  gate : ev.gate = p.gate

inductive Gives : Option Planned → Option PolicyEvaluation → Prop
  | nothing : Gives none none
  | ignored (h : Planned.outcome env options subject p = .ok none) : Gives (some p) none
  | evaluated (h : Given env options subject p ev) : Gives (some p) (some ev)

-- The evaluations of a plan, without those of the attachments that ask to be ignored.
inductive FollowsPlan : List Planned → List PolicyEvaluation → Prop
  | nil : FollowsPlan [] []
  | ignored (h : Planned.outcome env options subject p = .ok none) (hrest : FollowsPlan plan news) :
      FollowsPlan (p :: plan) news
  | evaluated (h : Given env options subject p ev) (hrest : FollowsPlan plan news) :
      FollowsPlan (p :: plan) (ev :: news)

variable {env options subject}

theorem foldlM_record_results {scripts : List EnginePolicy} {start run : ScriptRun} :
    scripts.foldlM (fun run script => do
      let r ← executeScript env options script subject args
      .ok (run.record env script r)) start = Except.ok run →
    ∃ results, scripts.mapM (fun script => executeScript env options script subject args) = .ok results ∧
      run.evalResults = start.evalResults ++ results.filter (fun r => !r.ignore) := by
  induction scripts generalizing start with
  | nil =>
    intro h
    cases h
    exact ⟨[], rfl, by simp⟩
  | cons script rest ih =>
    intro h
    obtain ⟨next, hnext, h⟩ := bind_eq_ok.mp h
    obtain ⟨r, hr, he⟩ := bind_eq_ok.mp hnext
    cases he
    obtain ⟨results, hresults, hrun⟩ := ih h
    refine ⟨r :: results, ?_, ?_⟩
    · rw [mapM_cons]
      exact bind_eq_ok.mpr ⟨r, hr, bind_eq_ok.mpr ⟨results, hresults, rfl⟩⟩
    · rw [hrun, ScriptRun.record]
      cases hignore : r.ignore <;> simp [hignore]

theorem runScripts_results (h : runScripts env options subject args scripts = .ok run) :
    ∃ results, scripts.mapM (fun script => executeScript env options script subject args) = .ok results ∧
      run.evalResults = results.filter fun r => !r.ignore := by
  obtain ⟨results, hresults, hrun⟩ := foldlM_record_results h
  exact ⟨results, hresults, hrun⟩

theorem runScripts_of_results {scripts : List EnginePolicy}
    (h : scripts.mapM (fun script => executeScript env options script subject args) = .ok results) :
    ∃ run, runScripts env options subject args scripts = .ok run := by
  unfold runScripts
  generalize ScriptRun.start = start
  induction scripts generalizing start results with
  | nil => exact ⟨start, rfl⟩
  | cons script rest ih =>
    rw [mapM_cons] at h
    obtain ⟨r, hr, h⟩ := bind_eq_ok.mp h
    obtain ⟨others, hothers, -⟩ := bind_eq_ok.mp h
    rw [foldlM_cons, hr]
    exact ih hothers _

theorem sources_nil_iff (h : runScripts env options subject args scripts = .ok run) :
    run.sources = [] ↔ run.evalResults = [] := by
  refine foldlM_keeps (fun run => run.sources = [] ↔ run.evalResults = [])
    (fun script before after hbefore hstep => ?_) (by simp [ScriptRun.start]) h
  obtain ⟨r, -, he⟩ := bind_eq_ok.mp hstep
  cases he
  unfold ScriptRun.record
  cases r.ignore <;> simp [hbefore]

theorem evaluateLoaded_gives {ref : Option PolicyDescriptor}
    (h : evaluateLoaded env pv attachment policy ref subject opts = .ok (executed, ev)) :
    ∃ p, planLoaded env pv attachment policy ref opts = .ok p ∧ Gives env pv.options subject p ev := by
  unfold evaluateLoaded at h
  unfold planLoaded
  split_ifs at h ⊢ with hphase
  · cases h
    exact ⟨none, rfl, .nothing⟩
  · obtain ⟨scripts, hscripts, hafter⟩ := bind_eq_ok.mp h
    obtain ⟨⟨args, overrides⟩, hargs, hafter⟩ := bind_eq_ok.mp hafter
    obtain ⟨run, hrun, hafter⟩ := bind_eq_ok.mp hafter
    obtain ⟨results, hresults, heval⟩ := runScripts_results hrun
    have hsources : run.sources.isEmpty = true ↔ results.filter (fun r => !r.ignore) = [] := by
      rw [List.isEmpty_iff, sources_nil_iff hrun, heval]
    rw [hscripts, hargs]
    by_cases hnone : scripts = []
    · have hempty : results = [] := by
        rw [hnone] at hresults
        cases hresults
        rfl
      rw [if_pos (hsources.mpr (by rw [hempty]; rfl))] at hafter
      cases hafter
      exact ⟨none, dif_pos hnone, .nothing⟩
    · refine ⟨_, dif_neg hnone, ?_⟩
      split_ifs at hafter with hempty
      · cases hafter
        exact .ignored (bind_eq_ok.mpr ⟨results, hresults, if_pos (hsources.mp hempty)⟩)
      · obtain ⟨merged, hmerge, hafter⟩ := bind_eq_ok.mp hafter
        obtain ⟨violations, hviolations, hmerge⟩ := bind_eq_ok.mp hmerge
        rw [wrapErr_eq_ok, heval] at hviolations
        cases hafter
        cases hmerge
        refine .evaluated ⟨bind_eq_ok.mpr ⟨results, hresults, ?_⟩, rfl, rfl, rfl⟩
        rw [if_neg (mt hsources.mpr hempty)]
        exact map_eq_ok.mpr ⟨violations, hviolations, rfl⟩

theorem evaluateLoaded_of_plan {ref : Option PolicyDescriptor}
    (h : planLoaded env pv attachment policy ref opts = .ok p)
    (hp : ∀ q ∈ p, ∃ o, q.outcome env pv.options subject = .ok o) :
    ∃ executed ev, evaluateLoaded env pv attachment policy ref subject opts = .ok (executed, ev) := by
  unfold planLoaded at h
  unfold evaluateLoaded
  split_ifs at h ⊢ with hphase
  · exact ⟨[], none, rfl⟩
  · obtain ⟨scripts, hscripts, h⟩ := bind_eq_ok.mp h
    obtain ⟨⟨args, overrides⟩, hargs, h⟩ := bind_eq_ok.mp h
    have hrun : ∃ results,
        scripts.mapM (fun script => executeScript env pv.options script subject args) = .ok results ∧
        ∀ counted, counted = results.filter (fun r => !r.ignore) → counted ≠ [] → ∃ violations,
          engineEvaluationsToAPIViolations env counted policy.metadata.findingType = .ok violations := by
      split_ifs at h with hnone
      · subst hnone
        exact ⟨[], rfl, fun counted h hne => absurd h hne⟩
      · cases h
        obtain ⟨o, ho⟩ := hp _ rfl
        obtain ⟨results, hresults, ho⟩ := bind_eq_ok.mp ho
        refine ⟨results, hresults, ?_⟩
        rintro counted rfl hne
        rw [if_neg hne] at ho
        obtain ⟨violations, hviolations, -⟩ := map_eq_ok.mp ho
        exact ⟨violations, hviolations⟩
    obtain ⟨results, hresults, hcounted⟩ := hrun
    obtain ⟨run, hrun⟩ := runScripts_of_results hresults
    obtain ⟨results', hresults', heval⟩ := runScripts_results hrun
    cases hresults.symm.trans hresults'
    rw [hscripts, hargs]
    simp only [bind, Except.bind, hrun]
    split_ifs with hempty
    · exact ⟨_, _, rfl⟩
    · rw [List.isEmpty_iff, sources_nil_iff hrun] at hempty
      obtain ⟨violations, hviolations⟩ := hcounted _ heval hempty
      obtain ⟨ev, hev⟩ : ∃ ev, mergeResults env pv attachment policy ref opts args overrides run = .ok ev :=
        ⟨_, bind_eq_ok.mpr ⟨violations, (wrapErr_eq_ok ..).mpr hviolations, rfl⟩⟩
      exact ⟨run.executed, some ev, by rw [hev]⟩

theorem evaluate_gives (h : evaluatePolicyAttachment env pv attachment subject opts = .ok ev) :
    ∃ p, planAttachment env pv opts attachment = .ok p ∧ Gives env pv.options subject p ev := by
  obtain ⟨⟨executed, ev⟩, htraced, rfl⟩ := map_eq_ok.mp h
  unfold evaluateTraced at htraced
  rw [policyErr_eq_ok] at htraced
  obtain ⟨⟨policy, ref⟩, hload, hloaded⟩ := bind_eq_ok.mp htraced
  obtain ⟨p, hp, hgives⟩ := evaluateLoaded_gives hloaded
  exact ⟨p, bind_eq_ok.mpr ⟨(policy, ref), hload, hp⟩, hgives⟩

theorem evaluate_of_plan (h : planAttachment env pv opts attachment = .ok p)
    (hp : ∀ q ∈ p, ∃ o, q.outcome env pv.options subject = .ok o) :
    ∃ ev, evaluatePolicyAttachment env pv attachment subject opts = .ok ev := by
  obtain ⟨⟨policy, ref⟩, hload, h⟩ := bind_eq_ok.mp h
  obtain ⟨executed, ev, hev⟩ := evaluateLoaded_of_plan h hp
  refine ⟨ev, map_eq_ok.mpr ⟨(executed, ev), ?_, rfl⟩⟩
  unfold evaluateTraced
  rw [policyErr_eq_ok]
  exact bind_eq_ok.mpr ⟨(policy, ref), hload, hev⟩

theorem Gives.withGroup (h : Gives env options subject p ev) (reference : Reference) :
    Gives env options subject p (ev.map fun ev => { ev with groupReference := some reference }) := by
  cases h with
  | nothing => exact .nothing
  | ignored h => exact .ignored h
  | evaluated h => exact .evaluated ⟨h.outcome, h.reference, h.args, h.gate⟩

theorem evaluateInGroup_gives {pv : PolicyVerifier}
    (h : evaluateInGroup env pv groupAtt group desc subject opts att = .ok ev) :
    ∃ p, planInGroup env pv groupAtt opts att = .ok p ∧ Gives env pv.options subject p ev := by
  obtain ⟨skip, hskip, h⟩ := bind_eq_ok.mp h
  rw [policyErr_eq_ok, wrapErr_eq_ok] at hskip
  rw [planInGroup, hskip]
  cases skip with
  | true =>
    cases h
    exact ⟨none, rfl, .nothing⟩
  | false =>
    obtain ⟨result, hev, h⟩ := bind_eq_ok.mp h
    rw [policyErr_eq_ok] at hev
    cases h
    obtain ⟨p, hp, hgives⟩ := evaluate_gives hev
    exact ⟨p, hp, hgives.withGroup _⟩

theorem evaluateInGroup_of_plan {pv : PolicyVerifier} (h : planInGroup env pv groupAtt opts att = .ok p)
    (hp : ∀ q ∈ p, ∃ o, q.outcome env pv.options subject = .ok o) (group : PolicyGroup)
    (desc : PolicyDescriptor) :
    ∃ ev, evaluateInGroup env pv groupAtt group desc subject opts att = .ok ev := by
  obtain ⟨skip, hskip, h⟩ := bind_eq_ok.mp h
  have hskip : policyErr (wrapErr "failed to check if policy should be skipped"
      (shouldSkipPolicy env groupAtt.skip att)) = .ok skip := by
    rw [policyErr_eq_ok, wrapErr_eq_ok, hskip]
  rw [evaluateInGroup, hskip]
  cases skip with
  | true => exact ⟨none, rfl⟩
  | false =>
    obtain ⟨ev, hev⟩ := evaluate_of_plan h hp
    exact ⟨_, bind_eq_ok.mpr ⟨false, rfl, bind_eq_ok.mpr ⟨ev, (policyErr_eq_ok ..).mpr hev, rfl⟩⟩⟩

theorem follows_of_gives (h : List.Forall₂ (Gives env options subject) ps results) :
    FollowsPlan env options subject ps.reduceOption results.reduceOption := by
  induction h with
  | nil => exact .nil
  | cons hfirst _ ih =>
    cases hfirst with
    | nothing => exact ih
    | ignored h => exact .ignored h ih
    | evaluated h => exact .evaluated h ih

theorem evaluations_eq_reduceOption (trace : Trace) :
    trace.evaluations = (trace.map Prod.snd).reduceOption := by
  rw [reduceOption, filterMap_map]
  rfl

theorem evaluateEach_gives {attachments : List PolicyAttachment}
    {plan : PolicyAttachment → Except GoError (Option Planned)}
    (h : evaluateEach evaluate attachments = .ok trace)
    (hplan : ∀ att ev, evaluate att = .ok ev → ∃ p, plan att = .ok p ∧ Gives env options subject p ev) :
    ∃ ps, attachments.mapM plan = .ok ps ∧
      List.Forall₂ (Gives env options subject) ps (trace.map Prod.snd) := by
  obtain ⟨ps, hps, hgives⟩ := mapM_related (R := fun p e => Gives env options subject p e.2) h
    fun att e he => by
      obtain ⟨ev, hev, he⟩ := bind_eq_ok.mp he
      cases he
      exact hplan att ev hev
  exact ⟨ps, hps, forall₂_map_right_iff.mpr hgives⟩

theorem evaluateEach_of_plan {attachments : List PolicyAttachment}
    {plan : PolicyAttachment → Except GoError (Option Planned)}
    {evaluate : PolicyAttachment → Except GoError (Option PolicyEvaluation)}
    (h : attachments.mapM plan = .ok ps)
    (heval : ∀ att p, plan att = .ok p → p ∈ ps → ∃ ev, evaluate att = .ok ev) :
    ∃ trace, evaluateEach evaluate attachments = .ok trace := by
  refine exists_mapM_eq_ok fun att hatt => ?_
  obtain ⟨p, hmem, hp⟩ := forall₂_exists_of_mem_left (mapM_eq_ok_iff.mp h) hatt
  obtain ⟨ev, hev⟩ := heval att p hp hmem
  exact ⟨(att, ev), bind_eq_ok.mpr ⟨ev, hev, rfl⟩⟩

theorem groupStatement_gives {pv : PolicyVerifier} (hsubject : env.marshalStatement statement = .ok subject)
    (h : groupStatementTrace env pv statement groupAtt = .ok trace) :
    ∃ ps, planGroup env pv statement groupAtt = .ok ps ∧
      List.Forall₂ (Gives env pv.options subject) ps (trace.map Prod.snd) := by
  unfold groupStatementTrace at h
  unfold planGroup
  cases hload : loadPolicyGroup env.toLoaderEnv groupAtt with rw [hload] at h
  | error e =>
    dsimp only at h ⊢
    split_ifs at h ⊢
    cases h
    exact ⟨[], rfl, .nil⟩
  | ok loaded =>
    obtain ⟨groupArgs, hargs, h⟩ := bind_eq_ok.mp h
    obtain ⟨json, hjson, h⟩ := bind_eq_ok.mp h
    rw [policyErr_eq_ok] at hargs hjson
    cases hsubject.symm.trans hjson
    obtain ⟨ps, hps, hgives⟩ := evaluateEach_gives h fun att ev hev => evaluateInGroup_gives hev
    exact ⟨ps, bind_eq_ok.mpr ⟨groupArgs, hargs, bind_eq_ok.mpr ⟨subject, hsubject, hps⟩⟩, hgives⟩

theorem groupStatement_of_plan {pv : PolicyVerifier} (hsubject : env.marshalStatement statement = .ok subject)
    (h : planGroup env pv statement groupAtt = .ok ps)
    (hps : ∀ p ∈ ps, ∀ q ∈ p, ∃ o, q.outcome env pv.options subject = .ok o) :
    ∃ trace, groupStatementTrace env pv statement groupAtt = .ok trace := by
  unfold planGroup at h
  unfold groupStatementTrace
  cases hload : loadPolicyGroup env.toLoaderEnv groupAtt with rw [hload] at h
  | error e =>
    dsimp only at h ⊢
    split_ifs at h ⊢
    exact ⟨[], rfl⟩
  | ok loaded =>
    obtain ⟨groupArgs, hargs, h⟩ := bind_eq_ok.mp h
    obtain ⟨json, hjson, h⟩ := bind_eq_ok.mp h
    cases hsubject.symm.trans hjson
    obtain ⟨trace, htrace⟩ := evaluateEach_of_plan h fun att p hp hmem =>
      evaluateInGroup_of_plan hp (hps p hmem) loaded.1 loaded.2
    refine ⟨trace, bind_eq_ok.mpr ⟨groupArgs, (policyErr_eq_ok ..).mpr hargs, ?_⟩⟩
    exact bind_eq_ok.mpr ⟨subject, (policyErr_eq_ok ..).mpr hsubject, htrace⟩

theorem statement_follows {pv : PolicyVerifier} {groups : List PolicyGroupAttachment}
    (hstandalone : verifyStatement env pv statement = .ok evs)
    (hgroups : groupsVerifyStatement env pv groups statement = .ok evs') :
    ∃ subject plan, env.marshalStatement statement = .ok subject ∧
      planStatement env pv groups statement = .ok plan ∧
      FollowsPlan env pv.options subject plan (evs ++ evs') := by
  obtain ⟨trace, htrace, rfl⟩ := map_eq_ok.mp hstandalone
  obtain ⟨subject, hsubject, htrace⟩ := bind_eq_ok.mp htrace
  rw [policyErr_eq_ok] at hsubject
  obtain ⟨ps, hps, hgives⟩ := evaluateEach_gives htrace fun att ev hev =>
    evaluate_gives ((policyErr_eq_ok ..).mp hev)
  obtain ⟨grouped, hgrouped, rfl⟩ := map_eq_ok.mp hgroups
  obtain ⟨traces, htraces, hflat⟩ := bind_eq_ok.mp hgrouped
  cases hflat
  obtain ⟨pss, hpss, hall⟩ := mapM_related
    (R := fun ps trace => List.Forall₂ (Gives env pv.options subject) ps (trace.map Prod.snd)) htraces
    fun groupAtt trace hone => groupStatement_gives hsubject hone
  refine ⟨subject, (ps ++ pss.flatten).reduceOption, hsubject, ?_, ?_⟩
  · exact bind_eq_ok.mpr ⟨subject, hsubject, bind_eq_ok.mpr ⟨ps, hps, bind_eq_ok.mpr ⟨pss, hpss, rfl⟩⟩⟩
  · rw [evaluations_eq_reduceOption, evaluations_eq_reduceOption, ← reduceOption_append, map_flatten]
    exact follows_of_gives (List.rel_append hgives (List.rel_flatten (forall₂_map_right_iff.mpr hall)))

theorem verified_of_plan {pv : PolicyVerifier} {groups : List PolicyGroupAttachment}
    (hsubject : env.marshalStatement statement = .ok subject)
    (h : planStatement env pv groups statement = .ok plan)
    (hplan : ∀ p ∈ plan, ∃ o, p.outcome env pv.options subject = .ok o) :
    ∃ evs evs', verifyStatement env pv statement = .ok evs ∧
      groupsVerifyStatement env pv groups statement = .ok evs' := by
  obtain ⟨json, hjson, h⟩ := bind_eq_ok.mp h
  cases hsubject.symm.trans hjson
  obtain ⟨ps, hps, h⟩ := bind_eq_ok.mp h
  obtain ⟨pss, hpss, h⟩ := bind_eq_ok.mp h
  cases h
  have hmem (p : Option Planned) (hp : p ∈ ps ++ pss.flatten) (q : Planned) (hq : q ∈ p) :
      ∃ o, q.outcome env pv.options subject = .ok o := by
    cases hq
    exact hplan q (reduceOption_mem_iff.mpr hp)
  obtain ⟨trace, htrace⟩ := evaluateEach_of_plan hps fun att p hp hin => by
    obtain ⟨ev, hev⟩ := evaluate_of_plan hp (hmem p (mem_append_left _ hin))
    exact ⟨ev, (policyErr_eq_ok ..).mpr hev⟩
  obtain ⟨traces, htraces⟩ := exists_mapM_eq_ok fun groupAtt hatt => by
    obtain ⟨ps, hin, hone⟩ := forall₂_exists_of_mem_left (mapM_eq_ok_iff.mp hpss) hatt
    exact groupStatement_of_plan hsubject hone fun p hp =>
      hmem p (mem_append_right _ (mem_flatten.mpr ⟨ps, hin, hp⟩))
  refine ⟨_, _, map_eq_ok.mpr ⟨trace, bind_eq_ok.mpr ⟨subject, (policyErr_eq_ok ..).mpr hsubject, htrace⟩, rfl⟩,
    map_eq_ok.mpr ⟨traces.flatten, bind_eq_ok.mpr ⟨traces, htraces, rfl⟩, rfl⟩⟩

theorem mem_outcome {p : Planned} (h : p.outcome env options subject = .ok (some violations)) :
    v ∈ violations ↔ ∃ script ∈ p.scripts, ∃ r, executeScript env options script subject p.args = .ok r ∧
      r.ignore = false ∧ ∃ found ∈ r.violations, apiViolation env p.findingType found = .ok v := by
  obtain ⟨results, hresults, h⟩ := bind_eq_ok.mp h
  dsimp only at h
  split_ifs at h
  · cases h
  obtain ⟨_, hviolations, he⟩ := map_eq_ok.mp h
  cases he
  have hresults := mapM_eq_ok_iff.mp hresults
  have hviolations := mapM_eq_ok_iff.mp hviolations
  constructor
  · intro hv
    obtain ⟨found, hfound, hv⟩ := forall₂_exists_of_mem_right hviolations hv
    obtain ⟨r, hr, hfound⟩ := mem_flatMap.mp hfound
    obtain ⟨hr, hignore⟩ := mem_filter.mp hr
    obtain ⟨script, hscript, hr⟩ := forall₂_exists_of_mem_right hresults hr
    exact ⟨script, hscript, r, hr, by simpa using hignore, found, hfound, hv⟩
  · rintro ⟨script, hscript, r, hr, hignore, found, hfound, hv⟩
    obtain ⟨r', hr', hexec⟩ := forall₂_exists_of_mem_left hresults hscript
    cases hr.symm.trans hexec
    have hcounted : r ∈ results.filter fun r => !r.ignore := mem_filter.mpr ⟨hr', by simp [hignore]⟩
    obtain ⟨v', hv', hfrom⟩ := forall₂_exists_of_mem_left hviolations (mem_flatMap.mpr ⟨r, hcounted, hfound⟩)
    cases hv.symm.trans hfrom
    exact hv'

theorem exists_outcome {p : Planned}
    (h : ∀ script ∈ p.scripts, ∃ r, executeScript env options script subject p.args = .ok r ∧
      r.ignore = false ∧ ∀ found ∈ r.violations, ∃ v, apiViolation env p.findingType found = .ok v) :
    ∃ violations, p.outcome env options subject = .ok (some violations) := by
  obtain ⟨results, hresults⟩ := exists_mapM_eq_ok fun script hscript =>
    (h script hscript).imp fun r hr => hr.1
  have hall (r) (hr : r ∈ results) :
      r.ignore = false ∧ ∀ found ∈ r.violations, ∃ v, apiViolation env p.findingType found = .ok v := by
    obtain ⟨script, hscript, hexec⟩ := forall₂_exists_of_mem_right (mapM_eq_ok_iff.mp hresults) hr
    obtain ⟨r', hexec', hr'⟩ := h script hscript
    cases hexec.symm.trans hexec'
    exact hr'
  have hcounted : results.filter (fun r => !r.ignore) = results :=
    filter_eq_self.mpr fun r hr => by simp [(hall r hr).1]
  obtain ⟨violations, hviolations⟩ : ∃ violations,
      engineEvaluationsToAPIViolations env results p.findingType = .ok violations := by
    refine exists_mapM_eq_ok fun found hfound => ?_
    obtain ⟨r, hr, hfound⟩ := mem_flatMap.mp hfound
    exact (hall r hr).2 found hfound
  have hne : results ≠ [] := by
    rintro rfl
    exact p.nonempty (mapM_eq_ok_nil_iff.mp hresults)
  refine ⟨violations, bind_eq_ok.mpr ⟨results, hresults, ?_⟩⟩
  rw [hcounted]
  exact (if_neg hne).trans (map_eq_ok.mpr ⟨violations, hviolations, rfl⟩)

theorem ignore_of_outcome_none {p : Planned} (h : p.outcome env options subject = .ok none)
    (hscript : script ∈ p.scripts) (hr : executeScript env options script subject p.args = .ok r) :
    r.ignore = true := by
  obtain ⟨results, hresults, h⟩ := bind_eq_ok.mp h
  dsimp only at h
  split_ifs at h with hnone
  · obtain ⟨r', hr', hexec⟩ := forall₂_exists_of_mem_left (mapM_eq_ok_iff.mp hresults) hscript
    cases hr.symm.trans hexec
    simpa using filter_eq_nil_iff.mp hnone r hr'
  · obtain ⟨_, -, he⟩ := map_eq_ok.mp h
    cases he

theorem FollowsPlan.split_plan {before rest : List Planned} (h : FollowsPlan env options subject (before ++ rest) news) :
    ∃ first last, news = first ++ last ∧ FollowsPlan env options subject before first ∧
      FollowsPlan env options subject rest last := by
  induction before generalizing news with
  | nil => exact ⟨[], news, rfl, .nil, h⟩
  | cons p before ih =>
    cases h with
    | ignored hp h =>
      obtain ⟨first, last, rfl, hbefore, hrest⟩ := ih h
      exact ⟨first, last, rfl, .ignored hp hbefore, hrest⟩
    | @evaluated _ ev _ _ hp h =>
      obtain ⟨first, last, rfl, hbefore, hrest⟩ := ih h
      exact ⟨ev :: first, last, rfl, .evaluated hp hbefore, hrest⟩

theorem FollowsPlan.split_news (h : FollowsPlan env options subject plan (first ++ ev :: last)) :
    ∃ before p after, plan = before ++ p :: after ∧ FollowsPlan env options subject before first ∧
      Given env options subject p ev := by
  generalize hnews : first ++ ev :: last = news at h
  induction h generalizing first with
  | nil => simp at hnews
  | ignored hp _ ih =>
    obtain ⟨before, q, after, rfl, hbefore, hgiven⟩ := ih hnews
    exact ⟨_ :: before, q, after, rfl, .ignored hp hbefore, hgiven⟩
  | @evaluated p _ plan _ hp _ ih =>
    cases first with
    | nil =>
      cases hnews
      exact ⟨[], p, plan, rfl, .nil, hp⟩
    | cons _ first =>
      cases hnews
      obtain ⟨before, q, after, rfl, hbefore, hgiven⟩ := ih rfl
      exact ⟨_ :: before, q, after, rfl, .evaluated hp hbefore, hgiven⟩

theorem FollowsPlan.given_of_mem (h : FollowsPlan env options subject plan news) (hev : ev ∈ news) :
    ∃ p ∈ plan, Given env options subject p ev := by
  obtain ⟨first, last, rfl⟩ := append_of_mem hev
  obtain ⟨before, p, after, rfl, -, hgiven⟩ := h.split_news
  exact ⟨p, mem_append_right _ mem_cons_self, hgiven⟩

theorem FollowsPlan.of_mem_plan (h : FollowsPlan env options subject plan news) (hp : p ∈ plan) :
    p.outcome env options subject = .ok none ∨ ∃ ev ∈ news, Given env options subject p ev := by
  obtain ⟨before, after, rfl⟩ := append_of_mem hp
  obtain ⟨first, last, rfl, -, hrest⟩ := h.split_plan
  cases hrest with
  | ignored hp _ => exact .inl hp
  | evaluated hp _ => exact .inr ⟨_, mem_append_right _ mem_cons_self, hp⟩

end Outcome

end Chainloop.Policies
