import Chainloop.Crafter.Preserve

namespace Chainloop.Crafting

open Go Policies Materials List Map

variable {st : CraftingState} {c : Crafter} {op : Op}

def evaluationsOf (name : String) (l : List PolicyEvaluation) : List PolicyEvaluation :=
  l.filter fun ev => ev.materialName == name

theorem evaluationsOf_append (name : String) (l l' : List PolicyEvaluation) :
    evaluationsOf name (l ++ l') = evaluationsOf name l ++ evaluationsOf name l' :=
  filter_append ..

theorem evaluationsOf_eq_nil (h : ∀ ev ∈ l, ev.materialName ≠ name) : evaluationsOf name l = [] :=
  filter_eq_nil_iff.mpr fun ev hev => by simpa using h ev hev

theorem evaluationsOf_eq_self (h : ∀ ev ∈ l, ev.materialName = name) : evaluationsOf name l = l :=
  filter_eq_self.mpr fun ev hev => by simpa using h ev hev

theorem evaluationsOf_othersOf (h : name ≠ other) (l : List PolicyEvaluation) :
    evaluationsOf name (othersOf other l) = evaluationsOf name l := by
  unfold evaluationsOf othersOf
  rw [filter_filter]
  refine filter_congr fun ev _ => ?_
  by_cases hev : ev.materialName = name
  · simp [hev, h]
  · simp [hev]

def latest? (log : List LogEntry) (name : String) : Option LogEntry :=
  (log.filter fun entry => entry.name == name).getLast?

theorem latest?_append (log more : List LogEntry) (name : String) :
    latest? (log ++ more) name = (latest? more name).or (latest? log name) := by
  unfold latest?
  rw [filter_append, getLast?_append]

theorem latest?_eq_none (h : ∀ p ∈ log, p.name ≠ name) : latest? log name = none := by
  unfold latest?
  rw [filter_eq_nil_iff.mpr fun p hp => by simpa using h p hp]
  rfl

-- In a log without repeated names every entry is the latest of its name, and the
-- evaluations of the name are its own.
theorem latest?_of_nodup {log : List LogEntry} (hnodup : (log.map LogEntry.name).Nodup)
    (hlogged : ∀ p ∈ log, ∀ ev ∈ p.evaluations, ev.materialName = p.name) {p : LogEntry}
    (hp : p ∈ log) :
    latest? log p.name = some p ∧
      evaluationsOf p.name (log.flatMap LogEntry.evaluations) = p.evaluations := by
  obtain ⟨before, after, rfl⟩ := append_of_mem hp
  simp only [map_append, map_cons, nodup_append, nodup_cons] at hnodup
  obtain ⟨_, ⟨hafter, _⟩, hbefore⟩ := hnodup
  have hafter' : ∀ q ∈ after, q.name ≠ p.name :=
    fun q hq he => hafter (he ▸ mem_map_of_mem hq)
  have hbefore' : ∀ q ∈ before, q.name ≠ p.name :=
    fun q hq => hbefore _ (mem_map_of_mem hq) _ mem_cons_self
  have hsplit : before ++ p :: after = before ++ [p] ++ after := by simp
  have hothers : ∀ part : List LogEntry, (∀ q ∈ part, q ∈ before ++ p :: after) → (∀ q ∈ part, q.name ≠ p.name) →
      evaluationsOf p.name (part.flatMap LogEntry.evaluations) = [] := by
    intro part hsub hne
    refine evaluationsOf_eq_nil fun ev hev => ?_
    obtain ⟨q, hq, hev⟩ := mem_flatMap.mp hev
    rw [hlogged q (hsub q hq) ev hev]
    exact hne q hq
  constructor
  · rw [hsplit, latest?_append, latest?_eq_none hafter', latest?_append, latest?_eq_none hbefore']
    simp [latest?]
  · rw [flatMap_append, flatMap_cons, evaluationsOf_append, evaluationsOf_append,
      hothers before (by simp +contextual) hbefore', hothers after (by simp +contextual) hafter',
      evaluationsOf_eq_self (hlogged p hp)]
    simp

-- Every evaluation of a material belongs to a material that is there, and those of
-- a material are the ones that its latest entry in the log produced.
structure Follows (materials : Map String Material) (l : List PolicyEvaluation)
    (log : List LogEntry) : Prop where
  named : ∀ ev ∈ l, ev.materialName ≠ "" → ev.materialName ∈ materials.keys
  latest : ∀ name ∈ materials.keys, ∃ entry, latest? log name = some entry ∧
    evaluationsOf name l = entry.evaluations

def Snapshot.Follows (snap : Snapshot) (log : List LogEntry) : Prop :=
  ∃ l, snap.policyEvaluations = l.map some ∧ Crafting.Follows snap.materials l log

def AddCall.logEntry (call : AddCall) (st : CraftingState) : LogEntry :=
  ⟨call.material.name, call.material.type,
    produced call.env.stage st call.material call.value call.annotations call.opts⟩

def Op.log (st : CraftingState) (op : Op) : List LogEntry :=
  match op with
  | .addArchive env kind namePrefix archivePath annotations opts =>
    match MaterialType.value? kind, env.walk with
    | some type, .ok entries =>
      archiveLog env.stage st type namePrefix archivePath annotations opts entries
    | _, _ => []
  | _ => ((op.addCall? st).map fun call => call.logEntry st).toList

def Op.adds (c : Crafter) (op : Op) : List LogEntry :=
  if (op.apply c).1 = .ok () then op.log c.state else []

def history (c : Crafter) : List Op → List LogEntry
  | [] => []
  | op :: rest => op.adds c ++ history (op.apply c).2 rest

theorem history_append (hrun : Run allowed c ops c') (op : Op) :
    history c (ops ++ [op]) = history c ops ++ op.adds c' := by
  have hend : c' = ops.foldl (fun c op => (op.apply c).2) c := by
    induction hrun with
    | nil => rfl
    | snoc op _ _ _ ih => rw [foldl_append, ← ih]; rfl
  clear hrun
  induction ops generalizing c with
  | nil => simp [history, hend]
  | cons first rest ih => simp [history, ih hend, append_assoc]

def Following (st : CraftingState) (log : List LogEntry) : Prop :=
  "" ∉ st.materials.keys ∧ ∃ l, st.policyEvaluations.Holds l ∧ Follows st.materials l log

theorem Following.snapshot (h : Following st log) : st.snapshot.Follows log :=
  let ⟨_, l, hl, hf⟩ := h
  ⟨l, hl, hf⟩

theorem Following.consistent (h : Following st log) :
    ∃ l, Consistent st l ∧ Follows st.materials l log :=
  let ⟨_, l, hl, hf⟩ := h
  ⟨l, ⟨hl, hf.named⟩, hf⟩

def Stores (st : CraftingState) (name : String) : Prop :=
  ∃ ev, some ev ∈ st.policyEvaluations.elems ∧ ev.materialName = name

theorem othersOf_of_not_stores (hl : st.policyEvaluations.Holds l)
    (h : ¬ Stores st name) : othersOf name l = l := by
  refine othersOf_eq_self fun ev hev hname => h ⟨ev, ?_, hname⟩
  rw [hl]
  exact mem_map_of_mem hev

-- A single add that stops in the policies, where the deletion of the stored
-- evaluations or the group results are not undone.
def FailsHalfway (op : Op) (c : Crafter) : Prop :=
  ∃ call prepared, op.addCall? c.state = some call ∧
    prepareMaterial call.env.stage call.material call.value call.annotations = .ok prepared ∧
    ((∃ err, groupResults call.env.stage c.state call.material call.value call.annotations =
        .error err ∧ Stores c.state call.material.name) ∨
      ∃ groups err,
        groupResults call.env.stage c.state call.material call.value call.annotations = .ok groups ∧
        policyResults call.env.stage c.state call.material call.value call.annotations call.opts =
          .error err ∧ (groups ≠ [] ∨ Stores c.state call.material.name))

-- The state manager accepts what a single add hands to it.
def Persisted (op : Op) (c : Crafter) : Prop :=
  ∀ call, op.addCall? c.state = some call → call.env.write = .ok ()

theorem Follows.attach {materials : Map String Material} (h : Follows materials l log)
    (mt : Material) (entry : LogEntry)
    (hentry : ∀ ev ∈ entry.evaluations, ev.materialName = entry.name) :
    Follows (materials.set entry.name mt) (othersOf entry.name l ++ entry.evaluations)
      (log ++ [entry]) := by
  refine ⟨fun ev hev hne => ?_, fun name hname => ?_⟩
  · rw [mem_keys_set]
    rcases mem_append.mp hev with hev | hev
    · exact .inr (h.named ev (mem_othersOf.mp hev).1 hne)
    · exact .inl (hentry ev hev)
  · rw [evaluationsOf_append, latest?_append]
    by_cases hn : name = entry.name
    · refine ⟨entry, by simp [latest?, hn], ?_⟩
      rw [hn, evaluationsOf_eq_nil fun ev hev => (mem_othersOf.mp hev).2,
        evaluationsOf_eq_self hentry, nil_append]
    · obtain ⟨old, hold, heq⟩ := h.latest name (((mem_keys_set ..).mp hname).resolve_left hn)
      refine ⟨old, ?_, ?_⟩
      · rw [latest?_eq_none (by simpa using Ne.symm hn), hold]
        rfl
      · rw [evaluationsOf_othersOf hn, heq,
          evaluationsOf_eq_nil fun ev hev he => hn (he.symm.trans (hentry ev hev)), append_nil]

theorem Underway.follows {s : Staging} {more : List LogEntry}
    (hc : Consistent st l) (h : Underway st l s more) (hf : Follows st.materials l log) :
    Follows s.state.materials (l ++ more.flatMap LogEntry.evaluations) (log ++ more) := by
  have hnodup : (more.map LogEntry.name).Nodup := by
    have hkeys := s.state.materials.nodup
    change s.state.materials.keys.Nodup at hkeys
    rw [h.keys] at hkeys
    exact (nodup_append.mp hkeys).2.1
  refine ⟨(h.consistent hc).named, fun name hname => ?_⟩
  rw [evaluationsOf_append, latest?_append]
  rw [h.keys, mem_append] at hname
  rcases hname with hname | hname
  · -- an older material: nothing in the new entries is about it
    have hother : ∀ p ∈ more, p.name ≠ name := fun p hp he => h.fresh p hp (he ▸ hname)
    obtain ⟨old, hold, heq⟩ := hf.latest name hname
    refine ⟨old, by rw [latest?_eq_none hother, hold]; rfl, ?_⟩
    rw [heq, evaluationsOf_eq_nil, append_nil]
    intro ev hev
    obtain ⟨p, hp, hev⟩ := mem_flatMap.mp hev
    rw [(h.logged p hp).2 ev hev]
    exact hother p hp
  · obtain ⟨p, hp, rfl⟩ := mem_map.mp hname
    obtain ⟨hlatest, heq⟩ := latest?_of_nodup hnodup (fun p hp => (h.logged p hp).2) hp
    refine ⟨p, by rw [hlatest]; rfl, ?_⟩
    rw [heq, evaluationsOf_eq_nil, nil_append]
    intro ev hev he
    have hne := (h.logged p hp).1
    exact h.fresh p hp (he ▸ hc.named ev hev (he ▸ hne))

theorem Evaluates.following {c' : Crafter} (h : Evaluates env statement phase c l outcome c')
    (hempty : "" ∉ c.state.materials.keys) (hl : c.state.policyEvaluations.Holds l)
    (hf : Follows c.state.materials l log) :
    Following c'.state log := by
  have hmerge : ∀ news, statementEvaluations env c.state statement phase = .ok news →
      Follows c.state.materials (mergeEvaluations news l) log := by
    intro news hnews
    have hnames := statementEvaluations_materialName hnews
    rw [mergeEvaluations_eq l hnames]
    refine ⟨fun ev hev hne => ?_, fun name hname => ?_⟩
    · rcases mem_append.mp (FirstMatch.keepFirst_subset hev) with hev | hev
      · exact absurd (hnames ev hev) hne
      · exact hf.named ev hev hne
    · have hne : name ≠ "" := fun he => hempty (he ▸ hname)
      obtain ⟨entry, hentry, heq⟩ := hf.latest name hname
      refine ⟨entry, hentry, ?_⟩
      -- all evaluations of the name are material-level ones, which stay
      have hlevel : ∀ l : List PolicyEvaluation,
          evaluationsOf name l = evaluationsOf name (l.filter isMaterialLevel) := by
        intro l
        unfold evaluationsOf
        rw [filter_filter]
        refine filter_congr fun ev _ => ?_
        by_cases hev : ev.materialName = name
        · simp [hev, isMaterialLevel, hne]
        · simp [hev]
      rw [hlevel, FirstMatch.filter_exempt_keepFirst, ← hlevel, evaluationsOf_append,
        evaluationsOf_eq_nil fun ev hev he => hne (he.symm.trans (hnames ev hev)), nil_append, heq]
  cases h with
  | stopped e => exact ⟨hempty, l, hl, hf⟩
  | notWritten e news evs hnews hevs => exact ⟨hempty, _, hevs, hmerge news hnews⟩
  | written news evs hnews hevs => exact ⟨hempty, _, hevs, hmerge news hnews⟩

theorem adds_of_addCall? {call : AddCall}
    (h : op.addCall? c.state = some call) (hok : (op.apply c).1 = .ok ()) :
    op.adds c = [call.logEntry c.state] := by
  cases op with
  | addArchive => cases h
  | addContractFree | addFromContract | evaluate => simp [Op.adds, hok, Op.log, h]

theorem adds_of_failed (h : (op.apply c).1 = .failed e) : op.adds c = [] := by
  simp [Op.adds, h]

theorem add_following {call : AddCall}
    (hcall : op.addCall? c.state = some call) (h : Following c.state log)
    (hwrite : call.env.write = .ok ()) (hop : ¬ FailsHalfway op c) :
    Following (op.apply c).2.state (log ++ op.adds c) := by
  obtain ⟨hempty, l, hl, hf⟩ := h
  have hadded := apply_of_addCall? hcall hl
  generalize hout : (op.apply c).1 = outcome at hadded
  generalize (op.apply c).2 = c' at hadded ⊢
  cases hadded with
  | notWritten e st mt _ herr =>
    obtain ⟨err, herr⟩ := herr
    rw [hwrite] at herr
    cases herr
  | written st mt hst _ =>
    rw [adds_of_addCall? hcall hout]
    cases hst with
    | attached _ evs groups policies hname _ _ hgroups hpolicies hnames hevs =>
      have hprod : (call.logEntry c.state).evaluations = groups ++ policies := by
        simp [AddCall.logEntry, produced, hgroups, hpolicies]
      refine ⟨?_, _, hevs, ?_⟩
      · rw [mem_keys_set]
        exact fun he => he.elim (fun he => hname he.symm) hempty
      · rw [← hprod] at hnames ⊢
        exact hf.attach mt (call.logEntry c.state) hnames
  | stopped e st hst =>
    rw [adds_of_failed hout, append_nil]
    cases hst with
    | refused => exact ⟨hempty, l, hl, hf⟩
    | groupsFailed _ evs _ hprep hgroups hevs =>
      obtain ⟨prepared, hprep⟩ := hprep
      obtain ⟨err, hgroups⟩ := hgroups
      have hnot : ¬ Stores c.state call.material.name :=
        fun hs => hop ⟨call, prepared, hcall, hprep, .inl ⟨err, hgroups, hs⟩⟩
      rw [othersOf_of_not_stores hl hnot] at hevs
      exact ⟨hempty, l, hevs, hf⟩
    | policiesFailed _ evs groups _ hgroups hpolicies _ hevs =>
      obtain ⟨prepared, hprep, _⟩ := bind_eq_ok.mp hgroups
      obtain ⟨err, hpolicies⟩ := hpolicies
      have hnot : ¬ (groups ≠ [] ∨ Stores c.state call.material.name) :=
        fun hs => hop ⟨call, prepared, hcall, hprep, .inr ⟨groups, err, hgroups, hpolicies, hs⟩⟩
      rw [not_or, not_not] at hnot
      rw [othersOf_of_not_stores hl hnot.2, hnot.1, append_nil] at hevs
      exact ⟨hempty, l, hevs, hf⟩

theorem apply_following (h : Following c.state log)
    (hwrite : Persisted op c) (hop : ¬ FailsHalfway op c) :
    Following (op.apply c).2.state (log ++ op.adds c) := by
  cases hcall : op.addCall? c.state with
  | some call => exact add_following hcall h (hwrite call hcall) hop
  | none =>
    obtain ⟨l, hc, hf⟩ := h.consistent
    cases op with
    | addContractFree env kind name value annotations opts =>
      have hkind := Option.map_eq_none_iff.mp hcall
      simpa [Op.adds, Op.apply, addMaterialContractFree, hkind, Outcome.discard] using h
    | addFromContract env key value annotations opts =>
      have hkey := Option.map_eq_none_iff.mp hcall
      simpa [Op.adds, Op.apply, addMaterialFromContract, hkey, Outcome.discard] using h
    | addArchive env kind namePrefix archivePath annotations opts =>
      rcases addMaterialsFromArchive_spec hc env kind namePrefix archivePath annotations opts with
        ⟨e, hout, hsame⟩ | ⟨mts, s, type, entries, hout, htype, hwalk, hstate, hunder⟩
      · rw [adds_of_failed (e := e) (by simp [Op.apply, hout, Outcome.discard]), append_nil]
        exact ⟨hsame.materials ▸ h.1, l, (hsame.consistent hc).holds, hsame.materials ▸ hf⟩
      · have hadds : Op.adds c (.addArchive env kind namePrefix archivePath annotations opts) =
            archiveLog env.stage c.state type namePrefix archivePath annotations opts entries := by
          simp [Op.adds, Op.apply, hout, Outcome.discard, Op.log, htype, hwalk]
        rw [hadds]
        simp only [Op.apply, hstate]
        refine ⟨?_, _, hunder.evaluations, hunder.follows hc hf⟩
        rw [hunder.keys, mem_append, not_or]
        refine ⟨h.1, fun hmem => ?_⟩
        obtain ⟨p, hp, hname⟩ := mem_map.mp hmem
        exact (hunder.logged p hp).1 hname
    | evaluate env statement phase =>
      have hadds : Op.adds c (.evaluate env statement phase) = [] := by
        simp [Op.adds, Op.log, Op.addCall?]
      rw [hadds, append_nil]
      exact (evaluateAttestationPolicies_evaluates env c statement phase l hc.holds).following
        h.1 hc.holds hf

theorem run_following (hrun : Run (fun op c => Persisted op c ∧ ¬ FailsHalfway op c)
      (.fresh contract block hostnames project version) ops c) :
    Following c.state (history (.fresh contract block hostnames project version) ops) := by
  induction hrun with
  | nil => exact ⟨by simp [Crafter.fresh], [], Slice.holds_nil, by simp, by simp [Crafter.fresh]⟩
  | snoc op hrun hallowed _ ih =>
    rw [history_append hrun]
    exact apply_following ih hallowed.1 hallowed.2

theorem written_state_follows (contract : Contract) (block : Bool) (hostnames : List String)
    (project version : String) (ops : List Op) (c : Crafter)
    (hrun : Run (fun op c => Persisted op c ∧ ¬ FailsHalfway op c)
      (.fresh contract block hostnames project version) ops c)
    (op : Op) (hwrite : Persisted op c) (hop : ¬ FailsHalfway op c) (snap : Snapshot)
    (hwritten : (op.apply c).2.written = c.written ++ [snap]) :
    snap.Follows (history (.fresh contract block hostnames project version) (ops ++ [op])) := by
  have hfollowing := run_following hrun
  have hafter := apply_following hfollowing hwrite hop
  obtain ⟨l, hc, _⟩ := hfollowing.consistent
  have hsnap : (op.apply c).2.state.snapshot = snap := by
    rcases apply_written op hc with hsame | hmore
    · rw [hsame] at hwritten
      simpa using congrArg length hwritten
    · rw [hmore] at hwritten
      simpa using hwritten
  rw [history_append hrun, ← hsnap]
  exact hafter.snapshot

def otherAdd : Op :=
  .addContractFree (addEnv (groupEnv passingGroup passedResult) (.offline passedResult))
    "ATTESTATION" "bar" "bar.json" .empty noOpts

-- The evaluation that the failed add of "foo" left is written along with "bar".
theorem failed_add_is_written :
    ∃ c snap, Run (fun op c => Persisted op c) emptyCrafter [failedAdd] c ∧
      Persisted otherAdd c ∧ (otherAdd.apply c).2.written = c.written ++ [snap] ∧
      ¬ snap.Follows (history emptyCrafter [failedAdd, otherAdd]) := by
  have hrun : Run (fun op c => Persisted op c) emptyCrafter [failedAdd]
      (failedAdd.apply emptyCrafter).2 :=
    .snoc failedAdd (.nil _) (by rintro call ⟨⟩; rfl) (by decide +kernel)
  refine ⟨_, (otherAdd.apply (failedAdd.apply emptyCrafter).2).2.state.snapshot, hrun,
    by rintro call ⟨⟩; rfl, rfl, ?_⟩
  rintro ⟨l, hl, hf⟩
  obtain ⟨ev, hev, hname⟩ : ∃ ev, some ev ∈ l.map some ∧ ev.materialName = "foo" := by
    rw [← hl]
    exact ⟨_, mem_cons_self, rfl⟩
  have hkey := hf.named ev (by simpa using hev) (by simp [hname])
  rw [hname] at hkey
  exact absurd hkey (by decide +kernel)

theorem written_state_follows_after_add :
    ∃ c snap, Run (fun op c => Persisted op c ∧ ¬ FailsHalfway op c) emptyCrafter [storedAdd] c ∧
      (otherAdd.apply c).2.written = c.written ++ [snap] ∧
      snap.Follows (history emptyCrafter [storedAdd, otherAdd]) := by
  have hrun : Run (fun op c => Persisted op c ∧ ¬ FailsHalfway op c) emptyCrafter [storedAdd]
      (storedAdd.apply emptyCrafter).2 := by
    refine .snoc storedAdd (.nil _) ⟨by rintro call ⟨⟩; rfl, ?_⟩ (by decide +kernel)
    rintro ⟨call, prepared, hcall, -, ⟨err, herr, -⟩ | ⟨groups, err, -, herr, -⟩⟩ <;>
      cases hcall <;> cases herr
  refine ⟨_, _, hrun, rfl, written_state_follows groupedContract false [] "" "" [storedAdd] _ hrun
    otherAdd (by rintro call ⟨⟩; rfl) ?_ _ rfl⟩
  rintro ⟨call, prepared, hcall, -, ⟨err, herr, -⟩ | ⟨groups, err, -, herr, -⟩⟩ <;>
    cases hcall <;> cases herr

end Chainloop.Crafting
