import Chainloop.Crafter.Evaluate
import Chainloop.Policies.Results

namespace Chainloop.Crafting

open Go Policies Materials

def othersOf (name : String) (l : List PolicyEvaluation) : List PolicyEvaluation :=
  l.filter fun ev => !(ev.materialName == name)

theorem mem_othersOf {ev : PolicyEvaluation} :
    ev ∈ othersOf name l ↔ ev ∈ l ∧ ev.materialName ≠ name := by
  simp [othersOf]

theorem othersOf_eq_self (h : ∀ ev ∈ l, ev.materialName ≠ name) : othersOf name l = l :=
  List.filter_eq_self.mpr fun ev hev => by simpa using h ev hev

def groupResults (env : StageEnv) (st : CraftingState) (m : SchemaMaterial) (value : String)
    (annotations : Map String String) : Except GoError (List PolicyEvaluation) := do
  let (mt, content) ← prepareMaterial env m value annotations
  groupsVerifyMaterial env.groups (st.verifier .unspecified none) st.contract.policyGroups mt value
    content

def policyResults (env : StageEnv) (st : CraftingState) (m : SchemaMaterial) (value : String)
    (annotations : Map String String) (opts : AddOpts) : Except GoError (List PolicyEvaluation) := do
  let (mt, content) ← prepareMaterial env m value annotations
  verifyMaterial env.standalone (st.verifier .unspecified opts.runtimeInputs) mt value content

-- Everything stageMaterial can do to a state whose evaluations are `l`.
inductive Staged (env : StageEnv) (st : CraftingState) (m : SchemaMaterial) (value : String)
    (annotations : Map String String) (opts : AddOpts) (l : List PolicyEvaluation) :
    Outcome Material → CraftingState → Prop
  | refused (e : GoError) : Staged env st m value annotations opts l (.failed e) st
  | groupsFailed (e : GoError) (evs : Slice PolicyEvaluation) (hname : m.name ≠ "")
      (hprepared : ∃ prepared, prepareMaterial env m value annotations = .ok prepared)
      (hgroups : ∃ err, groupResults env st m value annotations = .error err)
      (hevs : evs.Holds (othersOf m.name l)) :
      Staged env st m value annotations opts l (.failed e) { st with policyEvaluations := evs }
  | policiesFailed (e : GoError) (evs : Slice PolicyEvaluation) (groups : List PolicyEvaluation)
      (hname : m.name ≠ "") (hgroups : groupResults env st m value annotations = .ok groups)
      (hpolicies : ∃ err, policyResults env st m value annotations opts = .error err)
      (hnames : ∀ ev ∈ groups, ev.materialName = m.name)
      (hevs : evs.Holds (othersOf m.name l ++ groups)) :
      Staged env st m value annotations opts l (.failed e) { st with policyEvaluations := evs }
  | attached (mt : Material) (evs : Slice PolicyEvaluation) (groups policies : List PolicyEvaluation)
      (hname : m.name ≠ "") (hid : mt.id = m.name) (htype : mt.materialType = m.type)
      (hgroups : groupResults env st m value annotations = .ok groups)
      (hpolicies : policyResults env st m value annotations opts = .ok policies)
      (hnames : ∀ ev ∈ groups ++ policies, ev.materialName = m.name)
      (hevs : evs.Holds (othersOf m.name l ++ (groups ++ policies))) :
      Staged env st m value annotations opts l (.ok mt)
        { st with policyEvaluations := evs, materials := st.materials.set m.name mt }

theorem prepareMaterial_spec {m : SchemaMaterial} {mt : Material}
    (h : prepareMaterial env m value annotations = .ok (mt, content)) :
    mt.id = m.name ∧ mt.materialType = m.type ∧ m.name ≠ "" := by
  obtain ⟨⟨crafted, stored⟩, hcraft, h⟩ := bind_eq_ok.mp h
  have hspec := craft_spec hcraft
  simp only at h
  split at h
  · cases h
  · obtain ⟨_, _, h⟩ := bind_eq_ok.mp h
    cases h
    exact hspec

theorem stageMaterial_staged (env : StageEnv) (st : CraftingState) (m : SchemaMaterial)
    (value : String) (annotations : Map String String) (opts : AddOpts)
    (l : List PolicyEvaluation) (hl : st.policyEvaluations.Holds l) :
    Staged env st m value annotations opts l (stageMaterial env st m value annotations opts).1
      (stageMaterial env st m value annotations opts).2 := by
  unfold stageMaterial
  cases hprep : prepareMaterial env m value annotations with
  | error e => exact .refused e
  | ok prepared =>
    obtain ⟨mt, content⟩ := prepared
    obtain ⟨hid, htype, hname⟩ := prepareMaterial_spec hprep
    obtain ⟨remaining, hdel, hrem⟩ := hl.deleteFunc fun ev => ev.materialName == m.name
    simp only [hdel]
    cases hg : groupsVerifyMaterial env.groups (st.verifier .unspecified none)
        st.contract.policyGroups mt value content with
    | error e =>
      refine .groupsFailed _ remaining hname ⟨_, hprep⟩ ⟨e, ?_⟩ hrem
      simp [groupResults, hprep, bind, Except.bind, hg]
    | ok groups =>
      have hgroups : groupResults env st m value annotations = .ok groups := by
        simp [groupResults, hprep, bind, Except.bind, hg]
      have hgnames : ∀ ev ∈ groups, ev.materialName = m.name :=
        fun ev hev => (groupsVerifyMaterial_materialName hg ev hev).trans hid
      cases hp : verifyMaterial env.standalone (st.verifier .unspecified opts.runtimeInputs)
          mt value content with
      | error e =>
        refine .policiesFailed _ _ groups hname hgroups ⟨e, ?_⟩ hgnames (hrem.append env.grow groups)
        simp [policyResults, hprep, bind, Except.bind, hp]
      | ok policies =>
        have hpnames : ∀ ev ∈ policies, ev.materialName = m.name :=
          fun ev hev => (verifyMaterial_materialName hp ev hev).trans hid
        refine .attached mt _ groups policies hname hid htype hgroups ?_ ?_ ?_
        · simp [policyResults, hprep, bind, Except.bind, hp]
        · intro ev hev
          rcases List.mem_append.mp hev with hev | hev
          · exact hgnames ev hev
          · exact hpnames ev hev
        · have hboth := (hrem.append env.grow groups).append env.grow policies
          rwa [List.append_assoc] at hboth

theorem Staged.not_panicked (h : Staged env st m value annotations opts l outcome st') :
    outcome ≠ .panicked := by
  cases h <;> simp

end Chainloop.Crafting
