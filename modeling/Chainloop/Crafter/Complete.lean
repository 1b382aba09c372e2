import Chainloop.Crafter.State

namespace Chainloop.Crafting

open Go Policies Materials Map

structure Presence where
  missing : List String
  groupMembers : Map String (List String)
  groupSatisfied : Map String Bool
  groupOrder : List String

def Presence.start : Presence := ⟨[], .empty, .empty, []⟩

def Presence.step (craftedNames : List String) (p : Presence) (m : SchemaMaterial) : Presence :=
  if m.group ≠ "" then
    { p with
      groupOrder :=
        if (p.groupMembers.get? m.group).isSome then p.groupOrder else p.groupOrder ++ [m.group]
      groupMembers := p.groupMembers.set m.group (p.groupMembers.getD m.group [] ++ [m.name])
      groupSatisfied :=
        if m.name ∈ craftedNames then p.groupSatisfied.set m.group true else p.groupSatisfied }
  else if m.name ∉ craftedNames ∧ m.optional = false then { p with missing := p.missing ++ [m.name] }
  else p

def Presence.errors (p : Presence) : List String :=
  (if p.missing = [] then []
    else ["some materials have not been crafted yet: " ++ ", ".intercalate p.missing]) ++
  (p.groupOrder.filter fun group => !(p.groupSatisfied.getD group false)).map fun group =>
    "at least one material from group " ++ quote group ++ " is required: " ++
      ", ".intercalate (p.groupMembers.getD group [])

def validateMaterialsPresence (expectedMaterials : List SchemaMaterial)
    (craftedNames : List String) : Except GoError Unit :=
  let errs := (expectedMaterials.foldl (Presence.step craftedNames) .start).errors
  if errs = [] then .ok () else .error (.new ("; ".intercalate errs))

def validateComplete (validate : CraftingState → Except GoError Unit) (dryRun : Bool)
    (st : CraftingState) : Except GoError Unit := do
  let _ ← (if dryRun then .ok () else wrapErr "invalid crafting state" (validate st))
  validateMaterialsPresence st.contract.materials st.materials.keys

structure Presence.Of (craftedNames : List String) (l : List SchemaMaterial) (p : Presence) :
    Prop where
  missing : ∀ name, name ∈ p.missing ↔
    ∃ m ∈ l, m.group = "" ∧ m.optional = false ∧ m.name ∉ craftedNames ∧ m.name = name
  members : ∀ group, group ∈ p.groupMembers.keys ↔ group ∈ p.groupOrder
  order : ∀ group, group ∈ p.groupOrder ↔ ∃ m ∈ l, m.group ≠ "" ∧ m.group = group
  satisfied : ∀ group, p.groupSatisfied.getD group false = true ↔
    ∃ m ∈ l, m.group ≠ "" ∧ m.group = group ∧ m.name ∈ craftedNames

variable {m : SchemaMaterial}

theorem Presence.Of.single {p q : Presence} (h : Presence.Of craftedNames l p)
    (hgroup : m.group = "") (hmembers : q.groupMembers = p.groupMembers)
    (horder : q.groupOrder = p.groupOrder) (hsatisfied : q.groupSatisfied = p.groupSatisfied)
    (hmissing : ∀ name, name ∈ q.missing ↔
      name ∈ p.missing ∨ m.optional = false ∧ m.name ∉ craftedNames ∧ m.name = name) :
    Presence.Of craftedNames (l ++ [m]) q := by
  refine ⟨?_, ?_, ?_, ?_⟩
  · intro name
    rw [hmissing, h.missing]
    simp [hgroup]
  · rw [hmembers, horder]
    exact h.members
  · rw [horder]
    simpa [hgroup] using h.order
  · rw [hsatisfied]
    simpa [hgroup] using h.satisfied

variable {p : Presence}

theorem Presence.Of.step_single (h : Presence.Of craftedNames l p)
    (hgroup : m.group = "") :
    Presence.Of craftedNames (l ++ [m]) (p.step craftedNames m) := by
  unfold Presence.step
  rw [if_neg (not_not.mpr hgroup)]
  split_ifs with hmiss
  · refine h.single hgroup rfl rfl rfl fun name => ?_
    simp [hmiss, eq_comm (a := name)]
  · refine h.single hgroup rfl rfl rfl fun name => ?_
    constructor
    · exact .inl
    · rintro (h | ⟨hopt, hname, _⟩)
      · exact h
      · exact absurd ⟨hname, hopt⟩ hmiss

theorem Presence.Of.mem_order (h : Presence.Of craftedNames l p) (g group : String) :
    group ∈ (if (p.groupMembers.get? g).isSome then p.groupOrder else p.groupOrder ++ [g])
      ↔ group = g ∨ group ∈ p.groupOrder := by
  have hmem : (p.groupMembers.get? g).isSome = true ↔ g ∈ p.groupOrder := by
    rw [← mem_keys_iff_isSome, h.members]
  split_ifs with hs
  · exact ⟨.inr, fun h => h.elim (fun he => he ▸ hmem.mp hs) id⟩
  · simp [or_comm]

theorem Presence.Of.step_group (h : Presence.Of craftedNames l p)
    (hgroup : m.group ≠ "") :
    Presence.Of craftedNames (l ++ [m]) (p.step craftedNames m) := by
  unfold Presence.step
  rw [if_pos hgroup]
  refine ⟨?_, ?_, ?_, ?_⟩
  · simpa [hgroup] using h.missing
  · intro group
    rw [mem_keys_set, h.mem_order, h.members]
  · intro group
    rw [h.mem_order, h.order]
    simp [hgroup, or_comm, eq_comm (a := group)]
  · intro group
    by_cases hcrafted : m.name ∈ craftedNames
    · rw [if_pos hcrafted, getD, get?_set]
      by_cases he : group = m.group
      · simp only [he, if_true, Option.getD_some, true_iff]
        exact ⟨m, by simp, hgroup, rfl, hcrafted⟩
      · rw [if_neg he, ← getD, h.satisfied]
        simp [Ne.symm he]
    · rw [if_neg hcrafted, h.satisfied]
      simp [hcrafted]

theorem Presence.Of.step (h : Presence.Of craftedNames l p) (m : SchemaMaterial) :
    Presence.Of craftedNames (l ++ [m]) (p.step craftedNames m) := by
  by_cases hgroup : m.group = ""
  · exact h.step_single hgroup
  · exact h.step_group hgroup

theorem Presence.foldl_of (craftedNames : List String) (l : List SchemaMaterial) :
    Presence.Of craftedNames l (l.foldl (Presence.step craftedNames) .start) := by
  induction l using List.reverseRecOn with
  | nil => exact ⟨by simp [start], by simp [start], by simp [start], by simp [start, getD]⟩
  | append_singleton l m ih =>
    rw [List.foldl_append]
    exact ih.step m

theorem Presence.errors_eq_nil (p : Presence) :
    p.errors = [] ↔ p.missing = [] ∧ ∀ group ∈ p.groupOrder, p.groupSatisfied.getD group false = true := by
  unfold Presence.errors
  simp

theorem validateMaterialsPresence_iff (expected : List SchemaMaterial) (names : List String) :
    validateMaterialsPresence expected names = .ok () ↔
      (∀ m ∈ expected, m.group = "" → m.optional = false → m.name ∈ names) ∧
      ∀ m ∈ expected, m.group ≠ "" → ∃ m' ∈ expected, m'.group = m.group ∧ m'.name ∈ names := by
  have hof := Presence.foldl_of names expected
  have hok : validateMaterialsPresence expected names = .ok () ↔
      (expected.foldl (Presence.step names) .start).errors = [] := by
    unfold validateMaterialsPresence
    by_cases he : (expected.foldl (Presence.step names) .start).errors = [] <;> simp
  rw [hok, Presence.errors_eq_nil]
  refine and_congr ?_ ?_
  · rw [List.eq_nil_iff_forall_not_mem]
    constructor
    · intro hnone m hm hgroup hopt
      by_contra hname
      exact hnone m.name ((hof.missing _).mpr ⟨m, hm, hgroup, hopt, hname, rfl⟩)
    · intro hall name hmem
      obtain ⟨m, hm, hgroup, hopt, hname, _⟩ := (hof.missing _).mp hmem
      exact hname (hall m hm hgroup hopt)
  · constructor
    · intro hall m hm hgroup
      obtain ⟨m', hm', _, he, hname⟩ :=
        (hof.satisfied _).mp (hall m.group ((hof.order _).mpr ⟨m, hm, hgroup, rfl⟩))
      exact ⟨m', hm', he, hname⟩
    · intro hall group hmem
      obtain ⟨m, hm, hgroup, rfl⟩ := (hof.order _).mp hmem
      obtain ⟨m', hm', he, hname⟩ := hall m hm hgroup
      exact (hof.satisfied _).mpr ⟨m', hm', he ▸ hgroup, he, hname⟩

end Chainloop.Crafting
