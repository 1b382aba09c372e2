import Chainloop.Policies.Results

namespace Chainloop.Policies

open Go List Except

-- The ways in which an attachment ends without an evaluation once it is picked:
-- its policy is out of phase, or all the scripts that run ask to be ignored.
def YieldsNothing (env : PolicyEnv) (pv : PolicyVerifier) (attachment : PolicyAttachment)
    (subject : Bytes) (opts : EvalOpts) : Prop :=
  ∃ policy ref, loadPolicySpec env.toLoaderEnv attachment = .ok (policy, ref) ∧
    (shouldEvaluateAtPhase (attestationPhasesForKind policy.spec opts.kind) pv.evalPhase = false ∨
      ∃ scripts args overrides,
        loadPolicyScriptsFromSpec env policy opts.kind (policyLocation attachment.ref) = .ok scripts ∧
        resolveArguments env attachment policy opts = .ok (args, overrides) ∧
        ∀ script ∈ scripts, asksIgnore env pv.options subject args script)

theorem evaluateLoaded_of_ignored {pv : PolicyVerifier} {attachment : PolicyAttachment}
    {opts : EvalOpts}
    (hscripts : loadPolicyScriptsFromSpec env policy opts.kind (policyLocation attachment.ref) =
      .ok scripts)
    (hargs : resolveArguments env attachment policy opts = .ok (args, overrides))
    (hall : ∀ script ∈ scripts, asksIgnore env pv.options subject args script) :
    ∃ executed, evaluateLoaded env pv attachment policy ref subject opts = .ok (executed, none) := by
  obtain ⟨run, hrun⟩ := runScripts_of_ignored hall
  have hsrc : run.sources = [] := (runScripts_spec hrun).2.mpr hall
  unfold evaluateLoaded
  split_ifs with hphase
  · exact ⟨[], rfl⟩
  · refine ⟨run.executed, bind_eq_ok.mpr ⟨scripts, hscripts, ?_⟩⟩
    refine bind_eq_ok.mpr ⟨(args, overrides), hargs, ?_⟩
    refine bind_eq_ok.mpr ⟨run, hrun, ?_⟩
    simp [hsrc]

theorem evaluate_eq_none_iff (env : PolicyEnv) (pv : PolicyVerifier)
    (attachment : PolicyAttachment) (subject : Bytes) (opts : EvalOpts) :
    evaluatePolicyAttachment env pv attachment subject opts = .ok none ↔
      YieldsNothing env pv attachment subject opts := by
  constructor
  · intro h
    obtain ⟨⟨executed, result⟩, htrace, he⟩ := map_eq_ok.mp h
    cases he
    obtain ⟨policy, ref, hload, hev⟩ := evaluateTraced_inv htrace
    refine ⟨policy, ref, hload, ?_⟩
    cases hev with
    | outOfPhase hphase => exact .inl hphase
    | ignored _ args overrides _ hscripts hargs hall =>
      exact .inr ⟨_, args, overrides, hscripts, hargs, hall⟩
  · rintro ⟨policy, ref, hload, hwhy⟩
    have hloaded : ∃ executed,
        evaluateLoaded env pv attachment policy ref subject opts = .ok (executed, none) := by
      rcases hwhy with hphase | ⟨scripts, args, overrides, hscripts, hargs, hall⟩
      · exact ⟨[], by simp [evaluateLoaded, hphase]⟩
      · exact evaluateLoaded_of_ignored hscripts hargs hall
    obtain ⟨executed, hloaded⟩ := hloaded
    refine map_eq_ok.mpr ⟨(executed, none), ?_, rfl⟩
    unfold evaluateTraced
    rw [policyErr_eq_ok]
    exact bind_eq_ok.mpr ⟨(policy, ref), hload, hloaded⟩

theorem evaluateEach_none_iff (h : evaluateEach evaluate attachments = .ok trace)
    (P : PolicyAttachment → Prop) :
    (∀ e ∈ trace, P e.1 → e.2 = none) ↔ ∀ att ∈ attachments, P att → evaluate att = .ok none := by
  have hall := evaluateEach_spec h
  constructor
  · intro hnone att hatt hP
    obtain ⟨e, hmem, rfl, hev⟩ := forall₂_exists_of_mem_left hall hatt
    rw [hev, hnone e hmem hP]
  · intro hnone e hmem hP
    obtain ⟨att, hatt, rfl, hev⟩ := forall₂_exists_of_mem_right hall hmem
    have hok := hnone e.1 hatt hP
    rw [hev] at hok
    exact ok.inj hok

theorem selectM_spec {ε α : Type} {test : α → Except ε Bool} {l r : List α}
    (h : selectM test l = .ok r) :
    (∀ a ∈ l, ∃ keep, test a = .ok keep) ∧ ∀ a, a ∈ r ↔ a ∈ l ∧ test a = .ok true := by
  induction l generalizing r with
  | nil => cases h; simp
  | cons b rest ih =>
    obtain ⟨keep, hkeep, h⟩ := bind_eq_ok.mp h
    obtain ⟨tail, htail, h⟩ := bind_eq_ok.mp h
    obtain ⟨hdef, hmem⟩ := ih htail
    cases h
    refine ⟨forall_mem_cons.mpr ⟨⟨keep, hkeep⟩, hdef⟩, ?_⟩
    intro a
    cases keep with
    | true =>
      simp only [if_true, mem_cons, hmem]
      by_cases hab : a = b
      · simp [hab, hkeep]
      · simp [hab]
    | false =>
      simp only [Bool.false_eq_true, if_false, hmem]
      by_cases hab : a = b
      · simp [hab, hkeep]
      · simp [hab]

theorem selectM_forall {ε α : Type} {test : α → Except ε Bool} {l r : List α}
    (h : selectM test l = .ok r) (Q : α → Prop) :
    (∀ a ∈ r, Q a) ↔ ∀ a ∈ l, test a = .ok false ∨ Q a := by
  obtain ⟨hdef, hmem⟩ := selectM_spec h
  constructor
  · intro hq a ha
    obtain ⟨keep, hkeep⟩ := hdef a ha
    cases keep with
    | false => exact .inl hkeep
    | true => exact .inr (hq a ((hmem a).mpr ⟨ha, hkeep⟩))
  · intro hq a ha
    obtain ⟨ha, hkeep⟩ := (hmem a).mp ha
    rcases hq a ha with hfalse | hQ
    · rw [hkeep] at hfalse
      cases hfalse
    · exact hQ

inductive EvaluationPath where
  | standaloneMaterial (material : Material) (path : String) (content : Bytes)
  | standaloneAttestation (statement : Statement)
  | groupMaterial (material : Material) (path : String) (content : Bytes)
  | groupAttestation (statement : Statement)
deriving DecidableEq

section Paths

variable (env : PolicyEnv) (pv : PolicyVerifier) (groups : List PolicyGroupAttachment)

def EvaluationPath.trace : EvaluationPath → Except GoError Trace
  | .standaloneMaterial material path content => verifyMaterialTrace env pv material path content
  | .standaloneAttestation statement => verifyStatementTrace env pv statement
  | .groupMaterial material path content =>
    groupsVerifyMaterialTrace env pv groups material path content
  | .groupAttestation statement => groupsVerifyStatementTrace env pv groups statement

-- What becomes of an attachment of a group that was picked: the skip list of the
-- group names its policy, or the policy itself yields nothing.
def GroupYieldsNothing (groupAtt : PolicyGroupAttachment) (subject : Bytes) (opts : EvalOpts)
    (att : PolicyAttachment) : Prop :=
  shouldSkipPolicy env groupAtt.skip att = .ok true ∨
    (shouldSkipPolicy env groupAtt.skip att = .ok false ∧
      YieldsNothing env pv (applyGroupGate att groupAtt) subject opts)

def OtherName (material : Material) (groupArgs : Map String String) (gm : GroupMaterial) : Prop :=
  ∃ named, interpolateGroupMaterial env gm groupArgs = .ok named ∧
    named.name ≠ "" ∧ nameMatches named.name named.matchMode material.id = false

-- Every disabled attachment on the path is dropped, though for another reason
-- than its flag: selector, type, skip list, phase or an ignoring script.
def EvaluationPath.DropsDisabled : EvaluationPath → Prop
  | .standaloneMaterial material path content =>
    ∀ att ∈ pv.policies.materials, att.disabled = true →
      shouldApplyPolicy env material att = .ok false ∨
      ∃ subject, getEvaluableContent env material path content = .ok subject ∧
        YieldsNothing env pv att subject (materialOpts material .empty pv.runtimeInputs)
  | .standaloneAttestation statement =>
    ∀ att ∈ pv.policies.attestation, att.disabled = true →
      ∃ subject, env.marshalStatement statement = .ok subject ∧
        YieldsNothing env pv att subject (statementOpts .empty)
  | .groupMaterial material path content =>
    ∀ groupAtt ∈ groups, ∀ group desc groupArgs,
      loadPolicyGroup env.toLoaderEnv groupAtt = .ok (group, desc) →
      computeArguments env.renderTemplate group.inputs groupAtt.withArgs .empty = .ok groupArgs →
      ∀ gm ∈ group.materials, ∀ att ∈ gm.policies, att.disabled = true →
        OtherName env material groupArgs gm ∨
        groupShouldApplyPolicy env material att = .ok false ∨
        ∃ subject, getEvaluableContent env material path content = .ok subject ∧
          GroupYieldsNothing env pv groupAtt subject (materialOpts material groupArgs none) att
  | .groupAttestation statement =>
    ∀ groupAtt ∈ groups, ∀ group desc groupArgs,
      loadPolicyGroup env.toLoaderEnv groupAtt = .ok (group, desc) →
      computeArguments env.renderTemplate group.inputs groupAtt.withArgs .empty = .ok groupArgs →
      ∀ att ∈ group.attestation, att.disabled = true →
        ∃ subject, env.marshalStatement statement = .ok subject ∧
          GroupYieldsNothing env pv groupAtt subject (statementOpts groupArgs) att

end Paths

theorem evaluateInGroup_eq_none_iff (env : PolicyEnv) (pv : PolicyVerifier)
    (groupAtt : PolicyGroupAttachment) (group : PolicyGroup) (desc : PolicyDescriptor)
    (subject : Bytes) (opts : EvalOpts) (att : PolicyAttachment) :
    evaluateInGroup env pv groupAtt group desc subject opts att = .ok none ↔
      GroupYieldsNothing env pv groupAtt subject opts att := by
  unfold evaluateInGroup GroupYieldsNothing
  rw [bind_eq_ok, ← evaluate_eq_none_iff]
  constructor
  · rintro ⟨skip, hskip, h⟩
    rw [policyErr_eq_ok, wrapErr_eq_ok] at hskip
    cases skip with
    | true => exact .inl hskip
    | false =>
      obtain ⟨ev, hev, h⟩ := bind_eq_ok.mp h
      rw [policyErr_eq_ok] at hev
      have hnone : ev = none := by simpa using ok.inj h
      exact .inr ⟨hskip, hnone ▸ hev⟩
  · rintro (hskip | ⟨hskip, hev⟩)
    · exact ⟨true, by simp [hskip], rfl⟩
    · refine ⟨false, by simp [hskip], bind_eq_ok.mpr ⟨none, by simp [hev], rfl⟩⟩

variable {env : PolicyEnv}

theorem standaloneMaterial_none_iff {pv : PolicyVerifier} {material : Material}
    {path : String} {content : Bytes} {trace : Trace}
    (h : verifyMaterialTrace env pv material path content = .ok trace) :
    (∀ e ∈ trace, e.1.disabled = true → e.2 = none) ↔
      (EvaluationPath.standaloneMaterial material path content).DropsDisabled env pv groups := by
  obtain ⟨attachments, hreq, h⟩ := bind_eq_ok.mp h
  rw [policyErr_eq_ok] at hreq
  let Gone (att : PolicyAttachment) : Prop := att.disabled = true →
    ∃ subject, getEvaluableContent env material path content = .ok subject ∧
      YieldsNothing env pv att subject (materialOpts material .empty pv.runtimeInputs)
  have hsame : (∀ e ∈ trace, e.1.disabled = true → e.2 = none) ↔ ∀ att ∈ attachments, Gone att := by
    split_ifs at h with hempty
    · cases h
      simp [isEmpty_iff.mp hempty]
    · obtain ⟨subject, hsubject, h⟩ := bind_eq_ok.mp h
      rw [policyErr_eq_ok] at hsubject
      rw [evaluateEach_none_iff h fun att => att.disabled = true]
      simp [Gone, hsubject, evaluate_eq_none_iff]
  rw [hsame, selectM_forall hreq Gone, EvaluationPath.DropsDisabled]
  refine forall₂_congr fun att _ => ?_
  by_cases hd : att.disabled = true <;> simp [Gone, hd]

theorem groupMaterialPolicies_forall {material : Material}
    {groupArgs : Map String String} {gm : GroupMaterial} {found : List PolicyAttachment}
    (h : groupMaterialPolicies env material groupArgs gm = .ok found)
    (Q : PolicyAttachment → Prop) :
    (∀ att ∈ found, Q att) ↔ ∀ att ∈ gm.policies,
      OtherName env material groupArgs gm ∨ groupShouldApplyPolicy env material att = .ok false ∨
        Q att := by
  obtain ⟨named, hnamed, h⟩ := bind_eq_ok.mp h
  have hpolicies : named.policies = gm.policies := by
    obtain ⟨name, _, he⟩ := bind_eq_ok.mp hnamed
    cases he
    rfl
  split_ifs at h with hother
  · cases h
    have : OtherName env material groupArgs gm := ⟨named, hnamed, hother⟩
    simp [this]
  · have hno : ¬ OtherName env material groupArgs gm := by
      rintro ⟨named', hnamed', hother'⟩
      rw [hnamed] at hnamed'
      cases hnamed'
      exact hother hother'
    rw [selectM_forall h Q, hpolicies]
    simp [hno]

variable {groupAtt : PolicyGroupAttachment}

theorem groupMaterial_none_iff
    (h : groupMaterialTrace env pv material path content groupAtt = .ok trace) :
    (∀ e ∈ trace, e.1.disabled = true → e.2 = none) ↔
      (EvaluationPath.groupMaterial material path content).DropsDisabled env pv [groupAtt] := by
  rw [EvaluationPath.DropsDisabled, forall_mem_singleton]
  obtain ⟨⟨group, desc⟩, hload, h⟩ := bind_eq_ok.mp h
  obtain ⟨groupArgs, hargs, h⟩ := bind_eq_ok.mp h
  obtain ⟨policyAtts, hreq, h⟩ := bind_eq_ok.mp h
  rw [policyErr_eq_ok] at hload hargs hreq
  obtain ⟨found, hfound, hreq⟩ := bind_eq_ok.mp hreq
  cases hreq
  let Gone (att : PolicyAttachment) : Prop := att.disabled = true →
    ∃ subject, getEvaluableContent env material path content = .ok subject ∧
      GroupYieldsNothing env pv groupAtt subject (materialOpts material groupArgs none) att
  have hsame : (∀ e ∈ trace, e.1.disabled = true → e.2 = none) ↔ ∀ att ∈ found.flatten, Gone att := by
    split_ifs at h with hempty
    · cases h
      simp [isEmpty_iff.mp hempty]
    · obtain ⟨subject, hsubject, h⟩ := bind_eq_ok.mp h
      rw [policyErr_eq_ok] at hsubject
      rw [evaluateEach_none_iff h fun att => att.disabled = true]
      simp [Gone, hsubject, evaluateInGroup_eq_none_iff]
  rw [hsame, mapM_flatten_forall hfound Gone]
  constructor
  · intro hall group' desc' groupArgs' hload' hargs' gm hgm att hatt hd
    rw [hload] at hload'
    cases hload'
    rw [hargs] at hargs'
    cases hargs'
    obtain ⟨part, -, hpart⟩ := forall₂_exists_of_mem_left (mapM_eq_ok_iff.mp hfound) hgm
    rcases (groupMaterialPolicies_forall hpart Gone).mp (hall gm hgm part hpart) att hatt with
      h | h | h
    · exact .inl h
    · exact .inr (.inl h)
    · exact .inr (.inr (h hd))
  · intro hall gm hgm part hpart
    refine (groupMaterialPolicies_forall hpart Gone).mpr fun att hatt => ?_
    by_cases hd : att.disabled = true
    · rcases hall group desc groupArgs hload hargs gm hgm att hatt hd with h | h | h
      · exact .inl h
      · exact .inr (.inl h)
      · exact .inr (.inr fun _ => h)
    · exact .inr (.inr fun hd' => absurd hd' hd)

theorem groupStatement_none_iff
    (h : groupStatementTrace env pv statement groupAtt = .ok trace) :
    (∀ e ∈ trace, e.1.disabled = true → e.2 = none) ↔
      (EvaluationPath.groupAttestation statement).DropsDisabled env pv [groupAtt] := by
  rw [EvaluationPath.DropsDisabled, forall_mem_singleton]
  unfold groupStatementTrace at h
  split at h
  · next e hload =>
      split_ifs at h
      cases h
      simp [hload]
  · next group desc hload =>
      obtain ⟨groupArgs, hargs, h⟩ := bind_eq_ok.mp h
      obtain ⟨subject, hsubject, h⟩ := bind_eq_ok.mp h
      rw [policyErr_eq_ok] at hargs hsubject
      rw [evaluateEach_none_iff h fun att => att.disabled = true]
      simp only [evaluateInGroup_eq_none_iff, hload, hsubject, ok.injEq, Prod.mk.injEq,
        exists_eq_left']
      constructor
      · rintro hall group' desc' groupArgs' ⟨rfl, rfl⟩ hargs'
        rw [hargs] at hargs'
        cases hargs'
        exact hall
      · intro hall
        exact hall group desc groupArgs ⟨rfl, rfl⟩ hargs

-- The flag is read on none of the paths: a disabled attachment is left without an
-- evaluation just when something else drops it.
theorem disabled_not_evaluated_iff (env : PolicyEnv) (pv : PolicyVerifier)
    (groups : List PolicyGroupAttachment) (path : EvaluationPath) (trace : Trace)
    (h : path.trace env pv groups = .ok trace) :
    (∀ e ∈ trace, e.1.disabled = true → e.2 = none) ↔ path.DropsDisabled env pv groups := by
  cases path with
  | standaloneMaterial material path content => exact standaloneMaterial_none_iff h
  | standaloneAttestation statement =>
    obtain ⟨subject, hsubject, h⟩ := bind_eq_ok.mp h
    rw [policyErr_eq_ok] at hsubject
    rw [evaluateEach_none_iff h fun att => att.disabled = true]
    simp [EvaluationPath.DropsDisabled, hsubject, evaluate_eq_none_iff]
  | groupMaterial material path content =>
    obtain ⟨traces, htraces, h⟩ := bind_eq_ok.mp h
    cases h
    rw [mapM_flatten_forall htraces]
    refine forall₂_congr fun groupAtt hmem => ?_
    obtain ⟨part, -, hpart⟩ := forall₂_exists_of_mem_left (mapM_eq_ok_iff.mp htraces) hmem
    have hgroup := groupMaterial_none_iff hpart
    rw [EvaluationPath.DropsDisabled, forall_mem_singleton] at hgroup
    rw [← hgroup]
    simp [hpart]
  | groupAttestation statement =>
    obtain ⟨traces, htraces, h⟩ := bind_eq_ok.mp h
    cases h
    rw [mapM_flatten_forall htraces]
    refine forall₂_congr fun groupAtt hmem => ?_
    obtain ⟨part, -, hpart⟩ := forall₂_exists_of_mem_left (mapM_eq_ok_iff.mp htraces) hmem
    have hgroup := groupStatement_none_iff hpart
    rw [EvaluationPath.DropsDisabled, forall_mem_singleton] at hgroup
    rw [← hgroup]
    simp [hpart]

def disabledAttachment : PolicyAttachment := embeddedAttachment (phasedPolicy [[]]) true none

def disabledGroup : PolicyGroup :=
  ⟨⟨"baseline", "", .empty, ""⟩, [⟨.attestation, "", false, .unspecified, [disabledAttachment]⟩],
    [disabledAttachment], []⟩

def groupEnv (group : PolicyGroup) (result : EvaluationResult) : PolicyEnv :=
  { PolicyEnv.offline result with
    getGroup := fun _ => .ok (group, ⟨"chainloop://baseline", "baseline", "sha256:1", ""⟩) }

def baselineGroup (gate : Option Bool) : PolicyGroupAttachment := ⟨"baseline", .empty, [], gate⟩

def attestationMaterial : Material := ⟨"build", "digest", .attestation, .empty, false, false⟩

def allPaths : List EvaluationPath :=
  [.standaloneMaterial attestationMaterial "" [], .standaloneAttestation ⟨""⟩,
    .groupMaterial attestationMaterial "" [], .groupAttestation ⟨""⟩]

theorem disabled_policy_evaluated_on_all_paths : allPaths.Forall fun path => ∃ trace,
      path.trace (groupEnv disabledGroup passedResult)
        (bareVerifier ⟨[disabledAttachment], [disabledAttachment]⟩ .unspecified)
        [baselineGroup none] = .ok trace ∧
      ∃ e ∈ trace, e.1.disabled = true ∧ e.2 ≠ none := by
  refine ⟨?_, ?_, ?_, ?_⟩
  · exact ⟨_, rfl, by decide +kernel⟩
  · exact ⟨_, rfl, by decide +kernel⟩
  · exact ⟨_, rfl, by decide +kernel⟩
  · exact ⟨_, rfl, by decide +kernel⟩

theorem disabled_not_evaluated_iff_out_of_phase : ∃ trace,
      (EvaluationPath.standaloneAttestation ⟨""⟩).trace (.offline passedResult)
        (bareVerifier ⟨[], [embeddedAttachment (phasedPolicy [[.push]]) true none]⟩ .init) [] =
          .ok trace ∧
      trace.length = 1 ∧ ∀ e ∈ trace, e.1.disabled = true → e.2 = none := by
  refine ⟨_, rfl, rfl, ?_⟩
  refine (disabled_not_evaluated_iff (.offline passedResult)
    (bareVerifier ⟨[], [embeddedAttachment (phasedPolicy [[.push]]) true none]⟩ .init) []
    (.standaloneAttestation ⟨""⟩) _ rfl).mpr ?_
  intro att hatt _
  rw [mem_singleton.mp hatt]
  exact ⟨[], rfl, phasedPolicy [[.push]], none, rfl, .inl (by decide)⟩

end Chainloop.Policies
