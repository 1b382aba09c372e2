import Chainloop.Trace.Evidence
import Chainloop.Action.Slots

namespace Chainloop.Trace

open Go Materials Crafting
open Policies (Material)

theorem prepareMaterial_name {m : SchemaMaterial}
    (h : prepareMaterial env m value annotations = .ok prepared) : isDNS1123 m.name = true := by
  obtain ⟨_, hcraft, _⟩ := bind_eq_ok.mp h
  obtain ⟨_, hvalid, _⟩ := bind_eq_ok.mp hcraft
  rw [wrapErr_eq_ok] at hvalid
  exact validateSchemaMaterial_name hvalid

theorem crafter_adds (env : AddEnv) (st : CraftingState) (m : SchemaMaterial) (value : String)
    (annotations : Map String String) (opts : AddOpts) :
    let result := Crafting.addMaterial env ⟨st, []⟩ m value annotations opts
    (∃ mt, result.1 = .ok mt ∧ isDNS1123 m.name = true ∧
      (Action.stored st result.2).materials = st.materials.set m.name mt) ∨
    (∀ mt, result.1 ≠ .ok mt) ∧ Action.stored st result.2 = st := by
  have hname (mt st') : stageMaterial env.stage st m value annotations opts = (.ok mt, st') →
      isDNS1123 m.name = true := by
    intro h
    unfold stageMaterial at h
    cases hprep : prepareMaterial env.stage m value annotations with
    | error e =>
      rw [hprep] at h
      cases h
    | ok prepared => exact prepareMaterial_name hprep
  have hstage := (Action.stageMaterial_adds env.stage st m value annotations opts).2
  unfold Crafting.addMaterial
  generalize stageMaterial env.stage st m value annotations opts = staged at hname hstage ⊢
  obtain ⟨outcome, st'⟩ := staged
  cases outcome with
  | failed e => exact .inr ⟨by simp, rfl⟩
  | panicked => exact .inr ⟨by simp, rfl⟩
  | ok mt =>
    cases env.write with
    | error e => exact .inr ⟨by simp [Crafter.write], rfl⟩
    | ok _ => exact .inl ⟨mt, rfl, hname mt st' rfl, (hstage mt rfl).2.2⟩

-- AttestationExecutor.AddMaterial runs the add action on one file.
def executorRequest (name path : String) (kind : MaterialType) (annotations : Map String String) :
    Action.AddRequest := ⟨name, path, kind.name, annotations, [], []⟩

theorem executor_subject (env : Nat → AddEnv) (st : CraftingState) (path : String)
    (kind : MaterialType) (annotations : Map String String) (opts : AddOpts) (hname : name ≠ "") :
    let result := Action.addSubject env ⟨st, []⟩ (executorRequest name path kind annotations) opts
    (∃ mt, result.1 = .ok mt ∧ isDNS1123 name = true ∧
      (Action.stored st result.2).materials = st.materials.set name mt) ∨
    (∀ mt, result.1 ≠ .ok mt) ∧ Action.stored st result.2 = st := by
  have hkind : kind.name ≠ "" := by cases kind <;> decide
  simp only [Action.addSubject, executorRequest, hname, hkind, and_false, if_false, ne_eq,
    not_false_eq_true, true_and]
  split_ifs with hcontract
  · simp only [addMaterialFromContract]
    cases hlookup : Contract.lookup st.contract name with
    | none => exact .inr ⟨by simp, rfl⟩
    | some m =>
      have hm := (Action.lookup_mem hlookup).2
      have hadd := crafter_adds (env 0) st m path annotations opts
      rwa [hm] at hadd
  · simp only [addMaterialContractFree, MaterialType.value?_name, hname, if_false]
    exact crafter_adds (env 0) st (freeMaterial kind name) path annotations opts

theorem executor_not_exploded {kind : MaterialType}
    (hkind : kind.name = specMaterialKind ∨ kind.name = evidenceKind)
    (h : Action.prepareRun env (executorRequest name path kind annotations) = .ok prepared) :
    prepared.2 = .none := by
  have hwhole : Action.isExplodableKind kind.name = false := by
    rcases hkind with hkind | hkind <;> rw [hkind] <;> decide
  have hformat := Action.prepareRun_format h
  rw [Action.shouldExplode] at hformat
  simp only [executorRequest, hwhole] at hformat
  exact (Except.ok.inj hformat).symm

theorem executor_adds (env : Action.RunEnv) (st : CraftingState) (path : String)
    {kind : MaterialType} (annotations : Map String String) (hname : name ≠ "")
    (hkind : kind.name = specMaterialKind ∨ kind.name = evidenceKind) :
    let result := Action.run env st (executorRequest name path kind annotations)
    ∃ reply mt, result.2.materials = (addMaterial reply name mt st.materials).2 ∧
      ((∃ mts, result.1 = .ok mts) ↔
        ∃ digest, (addMaterial reply name mt st.materials).1 = .ok digest) := by
  have hnothing : ∃ (reply : Reply) (mt : Material),
      st.materials = (addMaterial reply name mt st.materials).2 ∧
        ¬ ∃ digest, (addMaterial reply name mt st.materials).1 = .ok digest := by
    refine ⟨.failed (.new ""), ⟨name, path, kind, .empty, false, false⟩, ?_, ?_⟩
    · simp [addMaterial_materials, Reply.stores]
    · simp [addMaterial_ok_iff, Reply.succeeds]
  simp only [Action.run]
  cases hprep : Action.prepareRun env (executorRequest name path kind annotations) with
  | error e => simpa using hnothing
  | ok prepared =>
    obtain ⟨inputs, format⟩ := prepared
    have hformat : format = .none := executor_not_exploded hkind hprep
    have hsubject := executor_subject env.add st path kind annotations ⟨inputs, false⟩ hname
    simp only [hformat, Action.runPlain] at hsubject ⊢
    generalize Action.addSubject env.add ⟨st, []⟩ (executorRequest name path kind annotations)
      ⟨inputs, false⟩ = result at hsubject ⊢
    obtain ⟨outcome, c⟩ := result
    rcases hsubject with ⟨mt, hout, hvalid, hset⟩ | ⟨hout, hsame⟩
    · -- the state is written, and only the conversion can still fail
      subst hout
      have hfiles : Action.addPolicyInputEvidence env.evidence c mt [] = (.ok (), c) := rfl
      simp only [executorRequest, hfiles, Action.finish] at hset ⊢
      cases Action.attMaterialsToAction env [mt] with
      | error e =>
        refine ⟨.storedThenFailed e, mt, ?_, ?_⟩
        · simp [addMaterial_materials, Reply.stores, hvalid, hset]
        · simp [addMaterial_ok_iff, Reply.succeeds, Action.Outcome.ofExcept, Except.map]
      | ok _ =>
        refine ⟨.stored "", mt, ?_, ?_⟩
        · simp [addMaterial_materials, Reply.stores, hvalid, hset]
        · simp [addMaterial_ok_iff, Reply.succeeds, Action.Outcome.ofExcept, Except.map, hvalid]
    · cases outcome with
      | ok mt => exact absurd rfl (hout mt)
      | failed e => simpa [hsame] using hnothing
      | panicked => simpa [hsame] using hnothing

theorem executor_adds_evidence :
    let result := Action.run Action.offlineRun Action.artifactState
      (executorRequest "bar" "bar.md" .evidence .empty)
    result.2.materials.size = 1 ∧ ∃ reply mt, result.2.materials =
      (addMaterial reply "bar" mt Action.artifactState.materials).2 := by
  obtain ⟨reply, mt, h, -⟩ := executor_adds Action.offlineRun Action.artifactState "bar.md" .empty
    (by decide : "bar" ≠ "") (.inl rfl : MaterialType.evidence.name = _ ∨ _)
  exact ⟨by decide +kernel, reply, mt, h⟩

end Chainloop.Trace
