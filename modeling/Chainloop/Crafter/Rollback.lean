import Chainloop.Crafter.Explode
import Chainloop.Crafter.Steps
import Chainloop.Policies.Disabled

namespace Chainloop.Crafting

open Go Policies Materials Option

variable {c c' : Crafter}

structure Unchanged (c c' : Crafter) : Prop where
  frame : c'.state = { c.state with policyEvaluations := c'.state.policyEvaluations }
  evaluations : c'.state.policyEvaluations.elems = c.state.policyEvaluations.elems
  written : c'.written = c.written

theorem Unchanged.refl (c : Crafter) : Unchanged c c := ⟨rfl, rfl, rfl⟩

theorem Unchanged.materials (h : Unchanged c c') : c'.state.materials = c.state.materials := by
  rw [h.frame]

theorem Unchanged.consistent (h : Unchanged c c') (hc : Consistent c.state l) :
    Consistent c'.state l := by
  refine ⟨h.evaluations.trans hc.holds, ?_⟩
  rw [h.frame]
  exact hc.named

theorem rollbackAndReturn_spec (hc : Consistent c.state l) (h : Extends c.state l s) (e : GoError) :
    let result := rollbackAndReturn c.state.policyEvaluations.len s c e
    result.1 = .failed e ∧ Unchanged c result.2 := by
  obtain ⟨st, hroll, _, hevs, hframe⟩ := rollback_extends hc.holds h
  simp only [rollbackAndReturn, hroll]
  exact ⟨trivial, hframe, hevs, rfl⟩

theorem commitArchive_spec (hc : Consistent c.state l) (env : ArchiveEnv)
    (kind : MaterialType) (namePrefix archivePath : String) (annotations : Map String String)
    (opts : AddOpts) (entries : List ArchiveEntry) :
    let result := commitArchive env c kind namePrefix archivePath annotations opts entries
    (∃ e, result.1 = .failed e ∧ Unchanged c result.2) ∨
    (∃ mts s, result.1 = .ok mts ∧ result.2 = ⟨s.state, c.written ++ [s.state.snapshot]⟩ ∧
      Underway c.state l s
        (archiveLog env.stage c.state kind namePrefix archivePath annotations opts entries)) := by
  have hstage := stageArchive_spec hc env.stage kind namePrefix archivePath annotations opts entries
  simp only [commitArchive] at hstage ⊢
  generalize stageArchive env.stage kind namePrefix archivePath annotations opts entries
    ⟨c.state, newNameAllocator c.state.materials.keys, [], []⟩ = staged at hstage ⊢
  obtain ⟨outcome, s⟩ := staged
  rcases hstage with ⟨e, hout, hext⟩ | ⟨hout, hunder⟩
  · subst hout
    exact .inl ⟨e, rollbackAndReturn_spec hc hext e⟩
  · subst hout
    cases hw : env.write with
    | error e => exact .inl ⟨_, rollbackAndReturn_spec hc hunder.extends _⟩
    | ok _ => exact .inr ⟨s.result, s, rfl, rfl, hunder⟩

theorem addMaterialsFromArchive_spec (hc : Consistent c.state l) (env : ArchiveEnv)
    (kind namePrefix archivePath : String) (annotations : Map String String) (opts : AddOpts) :
    let result := addMaterialsFromArchive env c kind namePrefix archivePath annotations opts
    (∃ e, result.1 = .failed e ∧ Unchanged c result.2) ∨
    (∃ mts s type entries, result.1 = .ok mts ∧ MaterialType.value? kind = some type ∧
      env.walk = .ok entries ∧
      result.2 = ⟨s.state, c.written ++ [s.state.snapshot]⟩ ∧
      Underway c.state l s
        (archiveLog env.stage c.state type namePrefix archivePath annotations opts entries)) := by
  simp only [addMaterialsFromArchive]
  split
  · exact .inl ⟨_, rfl, .refl c⟩
  · next type htype =>
      split
      · exact .inl ⟨_, rfl, .refl c⟩
      · split
        · exact .inl ⟨_, rfl, .refl c⟩
        · exact .inl ⟨_, rfl, .refl c⟩
        · next entry entries hwalk =>
            rcases commitArchive_spec hc env type namePrefix archivePath annotations opts
              (entry :: entries) with hfail | ⟨mts, s, hout, hstate, hunder⟩
            · exact .inl hfail
            · exact .inr ⟨mts, s, type, entry :: entries, hout, htype, hwalk, hstate, hunder⟩

theorem apply_written (op : Op) (hc : Consistent c.state l) : (op.apply c).2.written = c.written ∨
      (op.apply c).2.written = c.written ++ [(op.apply c).2.state.snapshot] := by
  cases hcall : op.addCall? c.state with
  | some call => exact (apply_of_addCall? hcall hc.holds).written_or
  | none =>
    cases op with
    | addContractFree env kind name value annotations opts =>
      have hkind := map_eq_none_iff.mp hcall
      exact .inl (by simp [Op.apply, addMaterialContractFree, hkind])
    | addFromContract env key value annotations opts =>
      have hkey := map_eq_none_iff.mp hcall
      exact .inl (by simp [Op.apply, addMaterialFromContract, hkey])
    | addArchive env kind namePrefix archivePath annotations opts =>
      rcases addMaterialsFromArchive_spec hc env kind namePrefix archivePath annotations opts with
        ⟨e, _, hsame⟩ | ⟨mts, s, type, entries, _, _, _, hstate, _⟩
      · exact .inl hsame.written
      · exact .inr (by simp only [Op.apply, hstate])
    | evaluate env statement phase =>
      exact (evaluateAttestationPolicies_evaluates env c statement phase l hc.holds).written_or

-- A single add of a name that the state does not hold, which fails in the
-- standalone policies after the group policies have produced evaluations. They
-- stay behind without a material.
def LeavesOrphans (op : Op) (c : Crafter) : Prop :=
  ∃ call groups err, op.addCall? c.state = some call ∧
    call.material.name ∉ c.state.materials.keys ∧ groups ≠ [] ∧
    groupResults call.env.stage c.state call.material call.value call.annotations = .ok groups ∧
    policyResults call.env.stage c.state call.material call.value call.annotations call.opts =
      .error err

theorem Staged.consistent {st : CraftingState} {m : SchemaMaterial}
    (h : Staged env st m value annotations opts l outcome st') (hc : Consistent st l)
    (hkeep : ∀ groups err, groupResults env st m value annotations = .ok groups →
      policyResults env st m value annotations opts = .error err →
      groups = [] ∨ m.name ∈ st.materials.keys) :
    ∃ l', Consistent st' l' := by
  cases h with
  | refused e => exact ⟨l, hc⟩
  | groupsFailed e evs _ _ _ hevs =>
    exact ⟨_, hevs, fun ev hev hne => hc.named ev (mem_othersOf.mp hev).1 hne⟩
  | policiesFailed e evs groups _ hgroups hpolicies hnames hevs =>
    obtain ⟨err, hpolicies⟩ := hpolicies
    refine ⟨_, hevs, fun ev hev hne => ?_⟩
    rcases List.mem_append.mp hev with hev | hev
    · exact hc.named ev (mem_othersOf.mp hev).1 hne
    · rcases hkeep groups err hgroups hpolicies with hnil | hmem
      · rw [hnil] at hev
        cases hev
      · rw [hnames ev hev]
        exact hmem
  | attached mt evs groups policies _ _ _ _ _ hnames hevs =>
    refine ⟨_, hevs, fun ev hev hne => ?_⟩
    rw [Map.mem_keys_set]
    rcases List.mem_append.mp hev with hev | hev
    · exact .inr (hc.named ev (mem_othersOf.mp hev).1 hne)
    · exact .inl (hnames ev hev)

theorem Added.consistent {call : AddCall} (h : Added call c l outcome c')
    (hc : Consistent c.state l)
    (hkeep : ∀ groups err,
      groupResults call.env.stage c.state call.material call.value call.annotations = .ok groups →
      policyResults call.env.stage c.state call.material call.value call.annotations call.opts =
        .error err →
      groups = [] ∨ call.material.name ∈ c.state.materials.keys) :
    ∃ l', Consistent c'.state l' := by
  cases h with
  | stopped e st hst => exact hst.consistent hc hkeep
  | notWritten e st mt hst _ => exact hst.consistent hc hkeep
  | written st mt hst _ => exact hst.consistent hc hkeep

theorem Evaluates.consistent (h : Evaluates env statement phase c l outcome c')
    (hc : Consistent c.state l) :
    ∃ l', Consistent c'.state l' := by
  have hmerge (news) : statementEvaluations env c.state statement phase = .ok news →
      ∀ ev ∈ mergeEvaluations news l, ev.materialName ≠ "" →
        ev.materialName ∈ c.state.materials.keys := by
    intro hnews ev hev hne
    have hnames := statementEvaluations_materialName hnews
    rw [mergeEvaluations_eq l hnames] at hev
    rcases List.mem_append.mp (FirstMatch.keepFirst_subset hev) with hev | hev
    · exact absurd (hnames ev hev) hne
    · exact hc.named ev hev hne
  cases h with
  | stopped e => exact ⟨l, hc⟩
  | notWritten e news evs hnews hevs => exact ⟨_, hevs, hmerge news hnews⟩
  | written news evs hnews hevs => exact ⟨_, hevs, hmerge news hnews⟩

theorem apply_consistent (op : Op) (c : Crafter) (hc : ∃ l, Consistent c.state l)
    (hop : ¬ LeavesOrphans op c) : ∃ l, Consistent (op.apply c).2.state l := by
  obtain ⟨l, hc⟩ := hc
  cases hcall : op.addCall? c.state with
  | some call =>
    refine (apply_of_addCall? hcall hc.holds).consistent hc fun groups err hgroups hpolicies => ?_
    by_contra hno
    rw [not_or] at hno
    exact hop ⟨call, groups, err, hcall, hno.2, hno.1, hgroups, hpolicies⟩
  | none =>
    cases op with
    | addContractFree env kind name value annotations opts =>
      have hkind := map_eq_none_iff.mp hcall
      exact ⟨l, by simpa [Op.apply, addMaterialContractFree, hkind] using hc⟩
    | addFromContract env key value annotations opts =>
      have hkey := map_eq_none_iff.mp hcall
      exact ⟨l, by simpa [Op.apply, addMaterialFromContract, hkey] using hc⟩
    | addArchive env kind namePrefix archivePath annotations opts =>
      rcases addMaterialsFromArchive_spec hc env kind namePrefix archivePath annotations opts with
        ⟨e, _, hsame⟩ | ⟨mts, s, type, entries, _, _, _, hstate, hunder⟩
      · exact ⟨l, hsame.consistent hc⟩
      · have hcons := hunder.consistent hc
        exact ⟨_, by simpa only [Op.apply, hstate] using hcons⟩
    | evaluate env statement phase =>
      exact (evaluateAttestationPolicies_evaluates env c statement phase l hc.holds).consistent hc

theorem fresh_consistent (contract : Contract) (block : Bool) (hostnames : List String)
    (project version : String) :
    Consistent (Crafter.fresh contract block hostnames project version).state [] :=
  ⟨Slice.holds_nil, by simp⟩

theorem failed_archive_changes_nothing (contract : Contract) (block : Bool)
    (hostnames : List String) (project version : String) (ops : List Op) (c c' : Crafter)
    (hrun : Run (fun op c => ¬ LeavesOrphans op c)
      (.fresh contract block hostnames project version) ops c)
    (env : ArchiveEnv) (kind namePrefix archivePath : String) (annotations : Map String String)
    (opts : AddOpts) (e : GoError)
    (h : addMaterialsFromArchive env c kind namePrefix archivePath annotations opts =
      (.failed e, c')) :
    c'.state.materials = c.state.materials ∧
      c'.state.policyEvaluations.elems = c.state.policyEvaluations.elems ∧
      (∀ ev ∈ c'.state.policyEvaluations.elems, ev ≠ none) ∧ c'.written = c.written := by
  obtain ⟨l, hc⟩ := Run.invariant (fun c => ∃ l, Consistent c.state l)
    (fun op c hc hop _ => apply_consistent op c hc hop) hrun
    ⟨[], fresh_consistent contract block hostnames project version⟩
  have hspec := addMaterialsFromArchive_spec hc env kind namePrefix archivePath annotations opts
  rw [h] at hspec
  rcases hspec with ⟨_, _, hsame⟩ | ⟨_, _, _, _, hok, _⟩
  · refine ⟨hsame.materials, hsame.evaluations, ?_, hsame.written⟩
    rw [hsame.evaluations, hc.holds]
    simp
  · cases hok

def groupedContract : Contract where
  materials := []
  policies := ⟨[embeddedAttachment (phasedPolicy [[]]) false none], []⟩
  policyGroups := [baselineGroup none]
  unique := List.nodup_nil

def passingGroup : PolicyGroup :=
  ⟨⟨"baseline", "", .empty, ""⟩,
    [⟨.attestation, "", false, .unspecified, [embeddedAttachment (phasedPolicy [[]]) false none]⟩],
    [], []⟩

def brokenEngine : PolicyEnv :=
  { PolicyEnv.offline passedResult with
    verify := fun _ _ _ _ _ => .error (.new "engine timed out") }

def stageEnv (groups standalone : PolicyEnv) : StageEnv where
  craftArtifact _ value := .ok ⟨value, .empty, []⟩
  validate _ := .ok ()
  groups := groups
  standalone := standalone
  grow _ needed := needed

def addEnv (groups standalone : PolicyEnv) : AddEnv := ⟨stageEnv groups standalone, .ok (), 0⟩

def noOpts : AddOpts := ⟨none, false⟩

def failedAdd : Op :=
  .addContractFree (addEnv (groupEnv passingGroup passedResult) brokenEngine) "ATTESTATION" "foo"
    "foo.json" .empty noOpts

def failingArchive : ArchiveEnv where
  mkdirTemp := .ok ()
  walk := .ok [⟨"a.json", "/tmp/a.json"⟩]
  stage _ := stageEnv (.offline passedResult) (.offline passedResult)
  write := .ok ()

def emptyCrafter : Crafter := .fresh groupedContract false [] "" ""

-- After the failed add the orphan is stored. The archive add deletes it, fails,
-- and slices back over the slot that was cleared.
theorem archive_rollback_leaves_nil : ∃ c c' ev e,
      Run (fun _ _ => True) emptyCrafter [failedAdd] c ∧
      c.state.policyEvaluations.elems = [some ev] ∧
      addMaterialsFromArchive failingArchive c "ATTESTATION" "foo" "foo.zip" .empty noOpts =
        (.failed e, c') ∧
      c'.state.policyEvaluations.elems = [none] := by
  have hreturns : (failedAdd.apply emptyCrafter).1 ≠ .panicked := by decide +kernel
  exact ⟨_, _, _, _, .snoc failedAdd (.nil _) trivial hreturns, rfl, rfl, rfl⟩

def storedAdd : Op :=
  .addContractFree (addEnv (groupEnv passingGroup passedResult) (.offline passedResult))
    "ATTESTATION" "foo" "foo.json" .empty noOpts

theorem storedAdd_leaves_no_orphans : ¬ LeavesOrphans storedAdd emptyCrafter := by
  rintro ⟨call, groups, err, hcall, -, -, -, hpolicies⟩
  cases hcall
  cases hpolicies

theorem failed_archive_changes_nothing_after_add :
    ∃ c c' e, Run (fun op c => ¬ LeavesOrphans op c) emptyCrafter [storedAdd] c ∧
      c.state.policyEvaluations.len = 2 ∧
      addMaterialsFromArchive failingArchive c "ATTESTATION" "foo" "foo.zip" .empty noOpts =
        (.failed e, c') ∧
      c'.state.materials = c.state.materials ∧
      c'.state.policyEvaluations.elems = c.state.policyEvaluations.elems ∧
      (∀ ev ∈ c'.state.policyEvaluations.elems, ev ≠ none) ∧ c'.written = c.written := by
  have hreturns : (storedAdd.apply emptyCrafter).1 ≠ .panicked := by decide +kernel
  have hrun : Run (fun op c => ¬ LeavesOrphans op c) emptyCrafter [storedAdd]
      (storedAdd.apply emptyCrafter).2 :=
    .snoc storedAdd (.nil _) storedAdd_leaves_no_orphans hreturns
  exact ⟨_, _, _, hrun, rfl, rfl, failed_archive_changes_nothing groupedContract false [] "" ""
    [storedAdd] _ _ hrun failingArchive "ATTESTATION" "foo" "foo.zip" .empty noOpts _ rfl⟩

end Chainloop.Crafting
