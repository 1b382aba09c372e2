import Chainloop.Archives.Walk

namespace Chainloop.Archives

open Go Option
open List hiding after

-- One component below the root, by its depth. Climbing above the root has no result.
def descend (depth : Nat) (e : String) : Option Nat :=
  if e = "" ∨ e = "." then some depth
  else if e = ".." then if depth = 0 then none else some (depth - 1)
  else some (depth + 1)

def StaysInside (elements : List String) : Prop := (elements.foldlM descend 0).isSome

def components (name : String) : List String := splitString "/" (replaceAll "\\" "/" name)

def Relative (name : String) : Prop :=
  startsWith (replaceAll "\\" "/" name) "/" = false ∧ hasWindowsDriveLetter (replaceAll "\\" "/" name) = false

-- The components leave the virtual root and come back into it by its name.
def Reenters (elements : List String) : Prop :=
  ∃ before after, elements = before ++ "root" :: after ∧ cleanRooted ("root" :: before) = [] ∧
    StaysInside after

theorem cleanRooted_snoc (elements : List String) (e : String) :
    cleanRooted (elements ++ [e]) = if e = "" ∨ e = "." then cleanRooted elements
      else if e = ".." then (cleanRooted elements).dropLast else cleanRooted elements ++ [e] := by
  simp [cleanRooted, foldl_append]

theorem cleanRooted_append (elements : List String) (h : elements.foldlM descend 0 = some depth)
    (dir : List String) :
    ∃ inside, inside.length = depth ∧ cleanRooted (dir ++ elements) = cleanRooted dir ++ inside := by
  induction elements using reverseRecOn generalizing depth with
  | nil => exact ⟨[], by simpa using h, by simp⟩
  | append_singleton elements e ih =>
    rw [foldlM_append] at h
    obtain ⟨before, hbefore, hlast⟩ := bind_eq_some_iff.mp h
    obtain ⟨inside, rfl, hclean⟩ := ih hbefore
    rw [foldlM_cons, descend] at hlast
    rw [← append_assoc, cleanRooted_snoc, hclean]
    split_ifs at hlast ⊢ with _ _ hzero
    · exact ⟨inside, by simpa using hlast, rfl⟩
    · cases hlast
    · refine ⟨inside.dropLast, by simpa using hlast, dropLast_append_of_ne_nil ?_⟩
      exact fun hnil => hzero (by simp [hnil])
    · exact ⟨inside ++ [e], by simpa using hlast, by simp⟩

theorem StaysInside.of_append (h : StaysInside (before ++ after)) : StaysInside before := by
  rw [StaysInside, foldlM_append] at h
  cases hdepth : before.foldlM descend 0 with
  | none => simp [hdepth] at h
  | some depth => exact isSome_of_eq_some hdepth

-- A rooted path starts with a component that nothing after it climbs above.
theorem head?_cleanRooted (hr : r ≠ "" ∧ r ≠ "." ∧ r ≠ "..") :
    (cleanRooted elements).head? = some r ↔ ∃ before after,
      elements = before ++ r :: after ∧ cleanRooted before = [] ∧ StaysInside after := by
  have hback {before after} : cleanRooted before = [] → StaysInside after →
      ∃ depth inside, after.foldlM descend 0 = some depth ∧ inside.length = depth ∧
        cleanRooted (before ++ r :: after) = r :: inside := by
    intro hbefore hafter
    obtain ⟨depth, hdepth⟩ := isSome_iff_exists.mp hafter
    obtain ⟨inside, hlength, hclean⟩ := cleanRooted_append after hdepth (before ++ [r])
    rw [cleanRooted_snoc, hbefore] at hclean
    exact ⟨depth, inside, hdepth, hlength, by simpa [hr] using hclean⟩
  constructor
  · induction elements using reverseRecOn with
    | nil => simp [cleanRooted]
    | append_singleton elements e ih =>
      intro h
      by_cases hnew : cleanRooted elements = [] ∧ e = r
      · exact ⟨elements, [], by rw [hnew.2], hnew.1, rfl⟩
      · rw [cleanRooted_snoc] at h
        have hup : e = ".." → 1 < (cleanRooted elements).length := by
          rintro rfl
          by_contra hshort
          simp [head?_dropLast, hshort] at h
        have hhead : (cleanRooted elements).head? = some r := by
          split_ifs at h with _ hdots
          · exact h
          · rwa [head?_dropLast, if_pos (hup hdots)] at h
          · cases hs : cleanRooted elements with
            | nil =>
              rw [hs] at h
              exact absurd ⟨hs, some.inj h⟩ hnew
            | cons first rest => rwa [hs] at h
        obtain ⟨before, after, rfl, hbefore, hafter⟩ := ih hhead
        obtain ⟨depth, inside, hdepth, hlength, hclean⟩ := hback hbefore hafter
        refine ⟨before, after ++ [e], by simp, hbefore, ?_⟩
        rw [hclean, length_cons] at hup
        have hdeep : ¬ (e = ".." ∧ depth = 0) := fun h => by
          have := hup h.1
          omega
        rw [StaysInside, foldlM_append, hdepth]
        change (descend depth e >>= pure).isSome = true
        unfold descend
        split_ifs <;> simp_all
  · rintro ⟨before, after, rfl, hbefore, hafter⟩
    obtain ⟨-, inside, -, -, hclean⟩ := hback hbefore hafter
    rw [hclean]
    rfl

theorem StaysInside.not_reenters (h : StaysInside elements) : ¬ Reenters elements := by
  rintro ⟨before, after, rfl, hbefore, -⟩
  obtain ⟨depth, hdepth⟩ := isSome_iff_exists.mp h.of_append
  obtain ⟨inside, -, hclean⟩ := cleanRooted_append before hdepth ["root"]
  rw [singleton_append, hbefore] at hclean
  cases hclean

theorem head?_virtual_root (name : String) :
    (cleanRooted (splitString "/" ("/root/" ++ replaceAll "\\" "/" name))).head? = some "root" ↔
      StaysInside (components name) ∨ Reenters (components name) := by
  have hsplit : splitString "/" ("/root/" ++ replaceAll "\\" "/" name) = "" :: "root" :: components name := by
    have hlist : ("/root/" ++ replaceAll "\\" "/" name).toList =
        ['/', 'r', 'o', 'o', 't'] ++ '/' :: (replaceAll "\\" "/" name).toList := by
      rw [String.toList_append]
      rfl
    have hroot : Text.split ['/'] ['/', 'r', 'o', 'o', 't'] = [[], ['r', 'o', 'o', 't']] := by decide
    rw [components, splitString, splitString, hlist, show "/".toList = ['/'] from rfl, Text.split_append, hroot]
    rfl
  have hskip : cleanRooted ("" :: "root" :: components name) = cleanRooted ("root" :: components name) := rfl
  rw [hsplit, hskip, head?_cleanRooted (by decide)]
  constructor
  · rintro ⟨before, after, heq, hbefore, hafter⟩
    rcases cons_eq_append_iff.mp heq with ⟨rfl, hrest⟩ | ⟨before, rfl, hrest⟩
    · cases hrest
      exact .inl hafter
    · exact .inr ⟨before, after, hrest, hbefore, hafter⟩
  · rintro (hinside | ⟨before, after, heq, hbefore, hafter⟩)
    · exact ⟨[], components name, rfl, rfl, hinside⟩
    · exact ⟨"root" :: before, after, by rw [heq]; rfl, hbefore, hafter⟩

theorem safePath_eq_true : safePath name = true ↔
    Relative name ∧ (StaysInside (components name) ∨ Reenters (components name)) := by
  rw [← head?_virtual_root, safePath]
  split_ifs with hrooted
  · refine iff_of_false nofun fun h => ?_
    rw [h.1.1, h.1.2] at hrooted
    cases hrooted
  · rw [Bool.not_eq_true, Bool.or_eq_false_iff] at hrooted
    rw [beq_iff_eq]
    exact (and_iff_right hrooted).symm

-- What the check is for: it takes the relative names that stay inside, and a name that it
-- takes stays in every directory that it is joined to.
def Confined (name : String) : Prop :=
  (safePath name = true ↔ Relative name ∧ StaysInside (components name)) ∧
    (safePath name = true → ∀ dir, cleanRooted dir <+: cleanRooted (dir ++ components name))

theorem confined_iff_not_reentering (name : String) :
    Confined name ↔ ¬ (Relative name ∧ Reenters (components name)) := by
  constructor
  · rintro ⟨hiff, -⟩ ⟨hrelative, hreenters⟩
    have hinside := (hiff.mp (safePath_eq_true.mpr ⟨hrelative, .inr hreenters⟩)).2
    exact hinside.not_reenters hreenters
  · intro hnot
    have hiff : safePath name = true ↔ Relative name ∧ StaysInside (components name) := by
      rw [safePath_eq_true, and_or_left, or_iff_left hnot]
    refine ⟨hiff, fun hsafe dir => ?_⟩
    obtain ⟨depth, hdepth⟩ := isSome_iff_exists.mp (hiff.mp hsafe).2
    obtain ⟨inside, -, hclean⟩ := cleanRooted_append _ hdepth dir
    exact ⟨inside, hclean.symm⟩

-- The name leaves an extraction directory for its sibling with the name of the virtual root.
theorem sibling_root_accepted : ¬ ∀ name, Confined name := by
  intro h
  obtain ⟨-, hjoin⟩ := h "../root/x"
  have hleft := hjoin (by decide +kernel) ["data", "out"]
  exact absurd hleft (by decide +kernel)

end Chainloop.Archives
