import Chainloop.Policies.Phases
import Chainloop.Policies.Verifier

namespace Chainloop.Policies

open Go

variable {ev : PolicyEvaluation} {opts : EvalOpts}

theorem mergeResults_materialName
    (h : mergeResults env pv attachment policy ref opts args overrides run = .ok ev) :
    ev.materialName = opts.name := by
  obtain ⟨violations, _, he⟩ := bind_eq_ok.mp h
  cases he
  rfl

theorem evaluate_materialName
    (h : evaluatePolicyAttachment env pv attachment subject opts = .ok (some ev)) :
    ev.materialName = opts.name := by
  obtain ⟨⟨executed, result⟩, htrace, he⟩ := map_eq_ok.mp h
  cases he
  obtain ⟨policy, ref, _, hev⟩ := evaluateTraced_inv htrace
  cases hev with
  | merged _ _ _ _ _ _ _ _ _ hmerge => exact mergeResults_materialName hmerge

theorem evaluateInGroup_materialName
    (h : evaluateInGroup env pv groupAtt group desc subject opts att = .ok (some ev)) :
    ev.materialName = opts.name := by
  obtain ⟨skip, _, h⟩ := bind_eq_ok.mp h
  cases skip with
  | true => cases h
  | false =>
    obtain ⟨result, hev, h⟩ := bind_eq_ok.mp h
    rw [policyErr_eq_ok] at hev
    cases result with
    | none => cases h
    | some found =>
      have hname := evaluate_materialName hev
      cases h
      exact hname

theorem evaluateEach_spec (h : evaluateEach evaluate attachments = .ok trace) :
    List.Forall₂ (fun att e => e.1 = att ∧ evaluate att = .ok e.2) attachments trace := by
  refine (mapM_eq_ok_iff.mp h).imp ?_
  intro att e he
  obtain ⟨ev, hev, he⟩ := bind_eq_ok.mp he
  cases he
  exact ⟨rfl, hev⟩

theorem evaluateEach_forall {evaluate : PolicyAttachment → Except GoError (Option PolicyEvaluation)}
    {attachments : List PolicyAttachment} {trace : Trace} {P : PolicyEvaluation → Prop}
    (h : evaluateEach evaluate attachments = .ok trace)
    (hP : ∀ att ev, evaluate att = .ok (some ev) → P ev) : ∀ ev ∈ trace.evaluations, P ev := by
  intro ev hev
  obtain ⟨e, hmem, he⟩ := List.mem_filterMap.mp hev
  obtain ⟨att, _, _, hone⟩ := forall₂_exists_of_mem_right (evaluateEach_spec h) hmem
  exact hP att ev (he ▸ hone)

theorem evaluations_flatten {α : Type} {l : List α} {f : α → Except GoError Trace}
    {P : PolicyEvaluation → Prop} (h : l.mapM f = .ok traces)
    (hf : ∀ a trace, f a = .ok trace → ∀ ev ∈ trace.evaluations, P ev) :
    ∀ ev ∈ Trace.evaluations traces.flatten, P ev := by
  intro ev hev
  obtain ⟨e, he, hev⟩ := List.mem_filterMap.mp hev
  obtain ⟨trace, htrace, he⟩ := List.mem_flatten.mp he
  obtain ⟨a, _, ha⟩ := forall₂_exists_of_mem_right (mapM_eq_ok_iff.mp h) htrace
  exact hf a trace ha ev (List.mem_filterMap.mpr ⟨e, he, hev⟩)

theorem verifyMaterial_materialName {material : Material}
    (h : verifyMaterial env pv material path content = .ok evs) :
    ∀ ev ∈ evs, ev.materialName = material.id := by
  obtain ⟨trace, htrace, rfl⟩ := map_eq_ok.mp h
  obtain ⟨attachments, _, htrace⟩ := bind_eq_ok.mp htrace
  split_ifs at htrace with hempty
  · cases htrace
    simp [Trace.evaluations]
  · obtain ⟨subject, _, htrace⟩ := bind_eq_ok.mp htrace
    refine evaluateEach_forall htrace fun att ev hev => ?_
    rw [policyErr_eq_ok] at hev
    exact evaluate_materialName hev

theorem groupsVerifyMaterial_materialName {material : Material}
    (h : groupsVerifyMaterial env pv groups material path content = .ok evs) :
    ∀ ev ∈ evs, ev.materialName = material.id := by
  obtain ⟨trace, htrace, rfl⟩ := map_eq_ok.mp h
  obtain ⟨traces, htraces, htrace⟩ := bind_eq_ok.mp htrace
  cases htrace
  refine evaluations_flatten htraces fun groupAtt trace hone => ?_
  obtain ⟨⟨group, desc⟩, _, hone⟩ := bind_eq_ok.mp hone
  obtain ⟨groupArgs, _, hone⟩ := bind_eq_ok.mp hone
  obtain ⟨policyAtts, _, hone⟩ := bind_eq_ok.mp hone
  split_ifs at hone with hempty
  · cases hone
    simp [Trace.evaluations]
  · obtain ⟨subject, _, hone⟩ := bind_eq_ok.mp hone
    exact evaluateEach_forall hone fun att ev hev => evaluateInGroup_materialName hev

theorem verifyStatement_materialName (h : verifyStatement env pv statement = .ok evs) :
    ∀ ev ∈ evs, ev.materialName = "" := by
  obtain ⟨trace, htrace, rfl⟩ := map_eq_ok.mp h
  obtain ⟨subject, _, htrace⟩ := bind_eq_ok.mp htrace
  refine evaluateEach_forall htrace fun att ev hev => ?_
  rw [policyErr_eq_ok] at hev
  exact evaluate_materialName hev

theorem groupsVerifyStatement_materialName
    (h : groupsVerifyStatement env pv groups statement = .ok evs) :
    ∀ ev ∈ evs, ev.materialName = "" := by
  obtain ⟨trace, htrace, rfl⟩ := map_eq_ok.mp h
  obtain ⟨traces, htraces, htrace⟩ := bind_eq_ok.mp htrace
  cases htrace
  refine evaluations_flatten htraces fun groupAtt trace hone => ?_
  unfold groupStatementTrace at hone
  split at hone
  · split_ifs at hone
    cases hone
    simp [Trace.evaluations]
  · obtain ⟨groupArgs, _, hone⟩ := bind_eq_ok.mp hone
    obtain ⟨subject, _, hone⟩ := bind_eq_ok.mp hone
    exact evaluateEach_forall hone fun att ev hev => evaluateInGroup_materialName hev

end Chainloop.Policies
