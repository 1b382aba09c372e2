import Chainloop.Crafter.Stage

namespace Chainloop.Crafting

open Go Policies Materials List Map

-- The evaluations of the state are `l`, without a nil, and those that name a
-- material name one that the state holds.
structure Consistent (st : CraftingState) (l : List PolicyEvaluation) : Prop where
  holds : st.policyEvaluations.Holds l
  named : ∀ ev ∈ l, ev.materialName ≠ "" → ev.materialName ∈ st.materials.keys

variable {st : CraftingState}

theorem Consistent.othersOf_fresh (h : Consistent st l) (hname : name ≠ "")
    (hfresh : name ∉ st.materials.keys) :
    othersOf name l = l := by
  refine othersOf_eq_self fun ev hev he => ?_
  exact hfresh (he ▸ h.named ev hev (he ▸ hname))

def produced (env : StageEnv) (st : CraftingState) (m : SchemaMaterial) (value : String)
    (annotations : Map String String) (opts : AddOpts) : List PolicyEvaluation :=
  match groupResults env st m value annotations, policyResults env st m value annotations opts with
  | .ok groups, .ok policies => groups ++ policies
  | _, _ => []

-- Staging under a name that is not in use only ever extends the evaluations.
theorem stage_fresh {env : StageEnv} {m : SchemaMaterial} {value : String}
    {annotations : Map String String} {opts : AddOpts} {l : List PolicyEvaluation}
    {outcome : Outcome Material} {st' : CraftingState} (hcons : Consistent st l)
    (hfresh : m.name ∉ st.materials.keys)
    (h : Staged env st m value annotations opts l outcome st') :
    (∃ e evs more, outcome = .failed e ∧ st' = { st with policyEvaluations := evs } ∧
      evs.Holds (l ++ more)) ∨
    (∃ mt evs, outcome = .ok mt ∧ mt.id = m.name ∧ mt.materialType = m.type ∧ m.name ≠ "" ∧
      st' = { st with policyEvaluations := evs, materials := st.materials.set m.name mt } ∧
      evs.Holds (l ++ produced env st m value annotations opts) ∧
      ∀ ev ∈ produced env st m value annotations opts, ev.materialName = m.name) := by
  cases h with
  | refused e =>
    refine .inl ⟨e, st.policyEvaluations, [], rfl, rfl, ?_⟩
    rw [append_nil]
    exact hcons.holds
  | groupsFailed e evs hname _ _ hevs =>
    refine .inl ⟨e, evs, [], rfl, rfl, ?_⟩
    rwa [hcons.othersOf_fresh hname hfresh, ← append_nil l] at hevs
  | policiesFailed e evs groups hname _ _ _ hevs =>
    refine .inl ⟨e, evs, groups, rfl, rfl, ?_⟩
    rwa [hcons.othersOf_fresh hname hfresh] at hevs
  | attached mt evs groups policies hname hid htype hgroups hpolicies hnames hevs =>
    have hprod : produced env st m value annotations opts = groups ++ policies := by
      simp [produced, hgroups, hpolicies]
    rw [hcons.othersOf_fresh hname hfresh] at hevs
    rw [hprod]
    exact .inr ⟨mt, evs, rfl, hid, htype, hname, rfl, hevs, hnames⟩

-- The staging has only added to the state it started from: evaluations behind the
-- old ones, and materials under names that were free.
structure Extends (st : CraftingState) (l : List PolicyEvaluation) (s : Staging) : Prop where
  frame : s.state = { st with
    policyEvaluations := s.state.policyEvaluations, materials := s.state.materials }
  evaluations : ∃ more, s.state.policyEvaluations.Holds (l ++ more)
  materials : ∃ added, s.state.materials.entries = st.materials.entries ++ added ∧
    ∀ e ∈ added, e.1 ∈ s.stagedNames
  fresh : ∀ n ∈ s.stagedNames, n ∉ st.materials.keys

theorem rollback_extends (hl : st.policyEvaluations.Holds l)
    (h : Extends st l s) :
    ∃ st', rollback st.policyEvaluations.len s = some st' ∧ st'.materials = st.materials ∧
      st'.policyEvaluations.elems = st.policyEvaluations.elems ∧
      st' = { st with policyEvaluations := st'.policyEvaluations } := by
  obtain ⟨more, hmore⟩ := h.evaluations
  obtain ⟨added, hadded, hnames⟩ := h.materials
  have hext : s.state.policyEvaluations.elems = st.policyEvaluations.elems ++ more.map some := by
    rw [hmore, hl, map_append]
  obtain ⟨evs, hevs, helems⟩ := Slice.reslice_of_extended _ _ _ hext
  have hmats : s.stagedNames.foldl erase s.state.materials = st.materials :=
    eraseAll_append _ _ added _ hadded hnames h.fresh
  refine ⟨_, by rw [rollback, hevs, Option.map_some], hmats, helems, ?_⟩
  rw [h.frame]
  simp only [hmats]

structure LogEntry where
  name : String
  type : MaterialType
  evaluations : List PolicyEvaluation
deriving DecidableEq

-- A staging on its way, in which nothing has failed yet, with its log.
structure Underway (st : CraftingState) (l : List PolicyEvaluation) (s : Staging)
    (log : List LogEntry) : Prop where
  frame : s.state = { st with
    policyEvaluations := s.state.policyEvaluations, materials := s.state.materials }
  evaluations : s.state.policyEvaluations.Holds (l ++ log.flatMap LogEntry.evaluations)
  materials : ∃ added, s.state.materials.entries = st.materials.entries ++ added ∧
    added.map (fun e => (e.1, e.2.materialType)) = log.map fun p => (p.name, p.type)
  names : s.stagedNames = log.map LogEntry.name
  fresh : ∀ p ∈ log, p.name ∉ st.materials.keys
  used : ∀ k ∈ s.state.materials.keys, k ∈ s.allocator.used
  logged : ∀ p ∈ log, p.name ≠ "" ∧ ∀ ev ∈ p.evaluations, ev.materialName = p.name

section Underway

variable {st : CraftingState} {l : List PolicyEvaluation} {s : Staging} {log : List LogEntry}

theorem Underway.extends (h : Underway st l s log) : Extends st l s := by
  obtain ⟨added, hadded, hpairs⟩ := h.materials
  have hkeys : added.map Prod.fst = log.map LogEntry.name := by
    simpa [Function.comp_def] using congrArg (map Prod.fst) hpairs
  refine ⟨h.frame, ⟨_, h.evaluations⟩, ⟨added, hadded, fun e he => ?_⟩, ?_⟩
  · rw [h.names, ← hkeys]
    exact mem_map_of_mem he
  · intro n hn
    rw [h.names] at hn
    obtain ⟨p, hp, rfl⟩ := mem_map.mp hn
    exact h.fresh p hp

theorem Underway.keys (h : Underway st l s log) :
    s.state.materials.keys = st.materials.keys ++ log.map LogEntry.name := by
  obtain ⟨added, hadded, hpairs⟩ := h.materials
  have hkeys : added.map Prod.fst = log.map LogEntry.name := by
    simpa [Function.comp_def] using congrArg (map Prod.fst) hpairs
  rw [Map.keys, hadded, map_append, hkeys, Map.keys]

theorem Underway.consistent (hst : Consistent st l) (h : Underway st l s log) :
    Consistent s.state (l ++ log.flatMap LogEntry.evaluations) := by
  refine ⟨h.evaluations, fun ev hev hne => ?_⟩
  rw [h.keys]
  rcases mem_append.mp hev with hev | hev
  · exact mem_append_left _ (hst.named ev hev hne)
  · obtain ⟨p, hp, hev⟩ := mem_flatMap.mp hev
    rw [(h.logged p hp).2 ev hev]
    exact mem_append_right _ (mem_map_of_mem hp)

theorem underway_start (hst : Consistent st l) :
    Underway st l ⟨st, newNameAllocator st.materials.keys, [], []⟩ [] where
  frame := rfl
  evaluations := by simpa using hst.holds
  materials := ⟨[], by simp, rfl⟩
  names := rfl
  fresh := by simp
  used := fun _ hk => hk
  logged := by simp

theorem Underway.produced_eq (h : Underway st l s log) (env : StageEnv) (m : SchemaMaterial)
    (value : String) (annotations : Map String String) (opts : AddOpts) :
    produced env s.state m value annotations opts = produced env st m value annotations opts := by
  rw [h.frame]
  rfl

variable {evs : Slice PolicyEvaluation}

theorem Underway.evaluated (h : Underway st l s log)
    (hevs : evs.Holds (l ++ log.flatMap LogEntry.evaluations ++ more)) (a : NameAllocator) :
    Extends st l ⟨{ s.state with policyEvaluations := evs }, a, s.stagedNames, s.result⟩ := by
  obtain ⟨hframe, -, hadded, hfresh⟩ := h.extends
  refine ⟨?_, ⟨log.flatMap LogEntry.evaluations ++ more, ?_⟩, hadded, hfresh⟩
  · simp only
    rw [hframe]
  · rw [append_assoc] at hevs
    exact hevs

theorem Underway.push (h : Underway st l s log) (p : LogEntry) {mt : Material}
    {a : NameAllocator}
    (hnew : p.name ∉ s.state.materials.keys) (htype : mt.materialType = p.type)
    (hevs : evs.Holds (l ++ log.flatMap LogEntry.evaluations ++ p.evaluations))
    (hlogged : p.name ≠ "" ∧ ∀ ev ∈ p.evaluations, ev.materialName = p.name)
    (hused : a.used = p.name :: s.allocator.used) :
    Underway st l ⟨{ s.state with policyEvaluations := evs, materials := s.state.materials.set p.name mt },
      a, s.stagedNames ++ [p.name], s.result ++ [mt]⟩ (log ++ [p]) := by
  obtain ⟨added, hadded, hpairs⟩ := h.materials
  have hset : (s.state.materials.set p.name mt).entries
      = st.materials.entries ++ (added ++ [(p.name, mt)]) := by
    rw [set_entries_of_fresh _ _ _ hnew, hadded, append_assoc]
  refine
    { frame := ?_, evaluations := ?_, materials := ⟨added ++ [(p.name, mt)], hset, ?_⟩
      names := ?_, fresh := ?_, used := ?_, logged := ?_ }
  · simp only
    rw [h.frame]
  · simpa [append_assoc] using hevs
  · rw [map_append, hpairs, map_append]
    simp [htype]
  · simp [h.names]
  · intro q hq
    rcases mem_append.mp hq with hq | hq
    · exact h.fresh q hq
    · rw [mem_singleton.mp hq]
      intro hmem
      exact hnew (h.keys ▸ mem_append_left _ hmem)
  · intro k hk
    rw [hused]
    rcases (mem_keys_set ..).mp hk with rfl | hk
    · exact mem_cons_self
    · exact mem_cons_of_mem _ (h.used k hk)
  · intro q hq
    rcases mem_append.mp hq with hq | hq
    · exact h.logged q hq
    · rw [mem_singleton.mp hq]
      exact hlogged

theorem Underway.stage_next (hst : Consistent st l) (h : Underway st l s log) (env : StageEnv)
    (type : MaterialType) (base value : String) (annotations : Map String String) (opts : AddOpts) :
    let n := (allocateNamed s.allocator base).1
    let result := stageMaterial env s.state (freeMaterial type n) value annotations opts
    (∃ e, result.1 = .failed e ∧ ∀ a, Extends st l ⟨result.2, a, s.stagedNames, s.result⟩) ∨
    (∃ mt, result.1 = .ok mt ∧ mt.id = n ∧ mt.materialType = type ∧
      Underway st l ⟨result.2, (allocateNamed s.allocator base).2, s.stagedNames ++ [n],
          s.result ++ [mt]⟩
        (log ++ [⟨n, type, produced env st (freeMaterial type n) value annotations opts⟩])) := by
  intro n result
  have hcons := h.consistent hst
  have hnew : n ∉ s.state.materials.keys :=
    fun hmem => allocateNamed_fresh s.allocator base (h.used n hmem)
  have hstaged := stageMaterial_staged env s.state (freeMaterial type n) value annotations opts _
    hcons.holds
  rcases stage_fresh hcons hnew hstaged with
    ⟨e, evs, more, hout, hst', hevs⟩ | ⟨mt, evs, hout, hid, htype, hname, hst', hevs, hnames⟩
  · refine .inl ⟨e, hout, fun a => ?_⟩
    simp only [result, hst']
    exact h.evaluated hevs a
  · rw [h.produced_eq] at hevs hnames
    refine .inr ⟨mt, hout, hid, htype, ?_⟩
    simp only [result, hst']
    exact h.push ⟨n, type, _⟩ hnew htype hevs ⟨hname, hnames⟩ (allocateNamed_used s.allocator base)

theorem Underway.replace (h : Underway st l s log) (mt : Material)
    (hmt : (mt.id, mt.materialType) ∈ log.map fun p => (p.name, p.type)) :
    Underway st l { s with state := { s.state with materials := s.state.materials.set mt.id mt } }
      log := by
  obtain ⟨added, hadded, hpairs⟩ := h.materials
  obtain ⟨p, hp, hpair⟩ := mem_map.mp hmt
  simp only [Prod.mk.injEq] at hpair
  obtain ⟨hname, htype⟩ := hpair
  have hmem : mt.id ∈ s.state.materials.keys := by
    rw [h.keys, ← hname]
    exact mem_append_right _ (mem_map_of_mem hp)
  have hset := set_entries_append (v := mt) hadded (hname ▸ h.fresh p hp) hmem
  have hsame : (added.map fun e => if e.1 = mt.id then (mt.id, mt) else e).map
      (fun e => (e.1, e.2.materialType)) = added.map fun e => (e.1, e.2.materialType) := by
    rw [map_map]
    refine map_congr_left fun e he => ?_
    by_cases hk : e.1 = mt.id
    · -- the entry under this name is the one of the log, since keys are unique
      have hin : (mt.id, mt.materialType) ∈ added.map fun e => (e.1, e.2.materialType) :=
        hpairs ▸ hmt
      obtain ⟨e', he', hpair'⟩ := mem_map.mp hin
      simp only [Prod.mk.injEq] at hpair'
      have hee : e = e' := by
        refine inj_on_of_nodup_map s.state.materials.nodup ?_ ?_ (hk.trans hpair'.1.symm)
        · exact hadded ▸ mem_append_right _ he
        · exact hadded ▸ mem_append_right _ he'
      simp [hee, hpair'.1, hpair'.2]
    · simp [hk]
  have hkeys : (s.state.materials.set mt.id mt).keys = s.state.materials.keys := by
    rw [keys_set_of_mem _ _ _ hmem]
  exact
    { frame := by rw [h.frame]
      evaluations := h.evaluations
      materials := ⟨_, hset, hsame.trans hpairs⟩
      names := h.names
      fresh := h.fresh
      used := fun k hk => h.used k (hkeys ▸ hk)
      logged := h.logged }

end Underway

end Chainloop.Crafting
