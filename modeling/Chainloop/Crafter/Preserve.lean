import Chainloop.Crafter.Rollback

namespace Chainloop.Crafting

open Go Policies Materials Option

abbrev OrderedEvaluations (l : List PolicyEvaluation) : Prop :=
  FirstMatch.Ordered policyEvalMatches isMaterialLevel l

def WellStored (c : Crafter) : Prop := ∃ l, Consistent c.state l ∧ OrderedEvaluations l

theorem materialLevel_of_name {ev : PolicyEvaluation} (h : ev.materialName = name)
    (hname : name ≠ "") : isMaterialLevel ev = true := by
  simp [isMaterialLevel, h, hname]

theorem Staged.wellStored {env : StageEnv} {st st' : CraftingState} {m : SchemaMaterial}
    {value : String} {annotations : Map String String} {opts : AddOpts} {l : List PolicyEvaluation}
    {mt : Material} (h : Staged env st m value annotations opts l (.ok mt) st')
    (hc : Consistent st l) (hord : OrderedEvaluations l) :
    ∃ l', Consistent st' l' ∧ OrderedEvaluations l' := by
  cases h with
  | attached _ evs groups policies hname _ _ _ _ hnames hevs =>
    refine ⟨_, ⟨hevs, fun ev hev hne => ?_⟩, (hord.filter _).append_exempt fun ev hev => ?_⟩
    · rw [Map.mem_keys_set]
      rcases List.mem_append.mp hev with hev | hev
      · exact .inr (hc.named ev (mem_othersOf.mp hev).1 hne)
      · exact .inl (hnames ev hev)
    · exact materialLevel_of_name (hnames ev hev) hname

theorem Underway.ordered {log : List LogEntry} (h : Underway st l s log)
    (hord : OrderedEvaluations l) :
    OrderedEvaluations (l ++ log.flatMap LogEntry.evaluations) := by
  refine hord.append_exempt fun ev hev => ?_
  obtain ⟨p, hp, hev⟩ := List.mem_flatMap.mp hev
  exact materialLevel_of_name ((h.logged p hp).2 ev hev) (h.logged p hp).1

theorem apply_wellStored (op : Op) (c : Crafter) (hc : WellStored c)
    (hok : (op.apply c).1 = .ok ()) : WellStored (op.apply c).2 := by
  obtain ⟨l, hc, hord⟩ := hc
  cases hcall : op.addCall? c.state with
  | some call =>
    have hadd := apply_of_addCall? hcall hc.holds
    rw [hok] at hadd
    generalize (op.apply c).2 = c' at hadd ⊢
    cases hadd with
    | written st mt hst hwrite => exact hst.wellStored hc hord
  | none =>
    cases op with
    | addContractFree env kind name value annotations opts =>
      have hkind := map_eq_none_iff.mp hcall
      simp [Op.apply, addMaterialContractFree, hkind, Outcome.discard] at hok
    | addFromContract env key value annotations opts =>
      have hkey := map_eq_none_iff.mp hcall
      simp [Op.apply, addMaterialFromContract, hkey, Outcome.discard] at hok
    | addArchive env kind namePrefix archivePath annotations opts =>
      rcases addMaterialsFromArchive_spec hc env kind namePrefix archivePath annotations opts with
        ⟨e, hout, _⟩ | ⟨mts, s, type, entries, _, _, _, hstate, hunder⟩
      · simp [Op.apply, hout, Outcome.discard] at hok
      · have hcons := hunder.consistent hc
        exact ⟨_, by simpa only [Op.apply, hstate] using hcons, hunder.ordered hord⟩
    | evaluate env statement phase =>
      have hev := evaluateAttestationPolicies_evaluates env c statement phase l hc.holds
      obtain ⟨l', hcons⟩ := hev.consistent hc
      simp only [Op.apply] at hok ⊢
      rw [hok] at hev
      generalize (evaluateAttestationPolicies env c statement phase).2 = c' at hev hcons ⊢
      cases hev with
      | written news evs hnews hevs =>
        have hl' : l' = mergeEvaluations news l := hcons.holds.unique hevs
        have hnames := statementEvaluations_materialName hnews
        refine ⟨l', hcons, ?_⟩
        rw [hl', mergeEvaluations_eq l hnames]
        exact hord.keepFirst fun ev hev => by simp [isMaterialLevel, hnames ev hev]

theorem evaluate_preserves_stored (contract : Contract) (block : Bool) (hostnames : List String)
    (project version : String) (ops : List Op) (c c' : Crafter)
    (hrun : Run (fun op c => (op.apply c).1 = .ok ())
      (.fresh contract block hostnames project version) ops c)
    (env : EvaluateEnv) (statement : Statement) (phase : EvalPhase)
    (h : evaluateAttestationPolicies env c statement phase = (.ok (), c')) :
    ∃ old news stored : List PolicyEvaluation, c.state.policyEvaluations.elems = old.map some ∧
      statementEvaluations env c.state statement phase = .ok news ∧
      c'.state.policyEvaluations.elems = stored.map some ∧
      c'.written = c.written ++ [c'.state.snapshot] ∧
      stored.filter isMaterialLevel = old.filter isMaterialLevel ∧
      (∀ ev ∈ news, ∃ first ∈ stored, first ∈ news ∧ policyEvalMatches first ev = true) ∧
      (∀ before ev after, news = before ++ ev :: after →
        (∀ x ∈ before, policyEvalMatches x ev = false) → ev ∈ stored) ∧
      (∀ ev ∈ old, ev.materialName = "" → ev ∉ stored →
        ∃ new ∈ news, policyEvalMatches new ev = true) := by
  obtain ⟨l, hc, hord⟩ := Run.invariant WellStored
    (fun op c hc hok _ => apply_wellStored op c hc hok) hrun
    ⟨[], fresh_consistent contract block hostnames project version, FirstMatch.ordered_nil⟩
  have hev := evaluateAttestationPolicies_evaluates env c statement phase l hc.holds
  rw [h] at hev
  cases hev with
  | written news evs hnews hevs =>
    have hnames := statementEvaluations_materialName hnews
    have hlevel : ∀ ev ∈ news, isMaterialLevel ev = false :=
      fun ev hev => by simp [isMaterialLevel, hnames ev hev]
    have heq := policyEvalMatches_equivalence
    rw [mergeEvaluations_eq l hnames] at hevs
    refine ⟨l, news, _, hc.holds, hnews, hevs, rfl, ?_, ?_, ?_, ?_⟩
    · rw [FirstMatch.filter_exempt_keepFirst, List.filter_append,
        List.filter_eq_nil_iff.mpr (by simpa using hlevel), List.nil_append]
    · intro ev hev
      -- what was kept of the new evaluations alone is kept in front of the stored ones
      obtain ⟨first, hfirst, hmatch⟩ : ∃ first ∈ FirstMatch.keepFirst policyEvalMatches
          isMaterialLevel news, policyEvalMatches first ev = true :=
        FirstMatch.exists_kept heq hev
      obtain ⟨before, after, hsplit, hkept⟩ := (FirstMatch.mem_keepFirst heq).mp hfirst
      refine ⟨first, (FirstMatch.mem_keepFirst heq).mpr ⟨before, after ++ l, ?_, hkept⟩,
        FirstMatch.keepFirst_subset hfirst, hmatch⟩
      simp [hsplit]
    · intro before ev after hsplit hunmatched
      exact (FirstMatch.mem_keepFirst heq).mpr ⟨before, after ++ l, by simp [hsplit], .inr hunmatched⟩
    · intro ev hev hname hdrop
      exact hord.matched_of_dropped heq hev (by simp [isMaterialLevel, hname]) hdrop

def offlineEvaluate (groups : PolicyEnv) (result : EvaluationResult) : EvaluateEnv :=
  ⟨.offline result, groups, fun _ needed => needed, .ok ()⟩

def initCheck : Policy :=
  { phasedPolicy [[.init]] with metadata := ⟨"init-check", "", .empty, ""⟩ }

def phasedContract : Contract where
  materials := []
  policies := ⟨[embeddedAttachment (phasedPolicy [[]]) false none],
    [embeddedAttachment initCheck false none, embeddedAttachment (phasedPolicy [[]]) false none]⟩
  policyGroups := [baselineGroup none]
  unique := List.nodup_nil

def passingEvaluate : EvaluateEnv := offlineEvaluate (groupEnv passingGroup passedResult) passedResult

def labels (c : Crafter) : List (Option (String × String)) :=
  c.state.policyEvaluations.elems.map (Option.map fun ev => (ev.name, ev.materialName))

-- At PUSH the check of INIT is not evaluated again and stays, as does that of the material.
theorem evaluate_preserves_stored_after_add :
    ∃ c c' : Crafter, ∃ old news stored : List PolicyEvaluation,
      Run (fun op c => (op.apply c).1 = .ok ()) (.fresh phasedContract false [] "" "")
        [storedAdd, .evaluate passingEvaluate ⟨""⟩ .init] c ∧
      evaluateAttestationPolicies passingEvaluate c ⟨""⟩ .push = (.ok (), c') ∧
      labels c = [some ("init-check", ""), some ("release-check", ""), some ("release-check", "foo"),
        some ("release-check", "foo")] ∧
      labels c' = [some ("release-check", ""), some ("init-check", ""), some ("release-check", "foo"),
        some ("release-check", "foo")] ∧
      c.state.policyEvaluations.elems = old.map some ∧
      statementEvaluations passingEvaluate c.state ⟨""⟩ .push = .ok news ∧
      c'.state.policyEvaluations.elems = stored.map some ∧
      c'.written = c.written ++ [c'.state.snapshot] ∧
      stored.filter isMaterialLevel = old.filter isMaterialLevel ∧
      (∀ ev ∈ news, ∃ first ∈ stored, first ∈ news ∧ policyEvalMatches first ev = true) ∧
      ∀ ev ∈ old, ev.materialName = "" → ev ∉ stored → ∃ new ∈ news, policyEvalMatches new ev = true := by
  have hadd : Run (fun op c => (op.apply c).1 = .ok ()) (.fresh phasedContract false [] "" "")
      ([] ++ [storedAdd]) (storedAdd.apply (.fresh phasedContract false [] "" "")).2 :=
    .snoc storedAdd (.nil _) (by decide +kernel) (by decide +kernel)
  have hrun := Run.snoc (.evaluate passingEvaluate ⟨""⟩ .init) hadd (by decide +kernel) (by decide +kernel)
  obtain ⟨old, news, stored, hold, hnews, hstored, hwritten, hfilter, hkept, -, hdropped⟩ :=
    evaluate_preserves_stored phasedContract false [] "" "" _ _ _ hrun passingEvaluate ⟨""⟩ .push rfl
  exact ⟨_, _, old, news, stored, hrun, rfl, by decide +kernel, by decide +kernel, hold, hnews, hstored,
    hwritten, hfilter, hkept, hdropped⟩

end Chainloop.Crafting
