import Mathlib.Data.List.Infix

namespace Chainloop.Text

open List hiding after

variable {α : Type} [DecidableEq α]

-- strings.Cut: the text before and after the first occurrence of `sep`.
def cut (sep : List α) : List α → Option (List α × List α)
  | [] => if sep.isEmpty then some ([], []) else none
  | c :: cs =>
    if sep.isPrefixOf (c :: cs) then some ([], (c :: cs).drop sep.length)
    else (cut sep cs).map fun p => (c :: p.1, p.2)

def contains (sep s : List α) : Bool := (cut sep s).isSome

-- strings.Split for a non-empty separator. The counter skips the characters of a
-- separator that was just found.
def splitFrom (sep : List α) : Nat → List α → List (List α)
  | _, [] => [[]]
  | skip + 1, _ :: cs => splitFrom sep skip cs
  | 0, c :: cs =>
    if sep.isPrefixOf (c :: cs) then [] :: splitFrom sep (sep.length - 1) cs
    else match splitFrom sep 0 cs with
      | [] => [[c]]
      | part :: parts => (c :: part) :: parts

def split (sep s : List α) : List (List α) := splitFrom sep 0 s

theorem isSome_cut_iff (sep s : List α) : (cut sep s).isSome = true ↔ sep <:+: s := by
  induction s with
  | nil => simp [cut]
  | cons c cs ih =>
    rw [cut, infix_cons_iff, ← isPrefixOf_iff_prefix, ← ih]
    by_cases h : sep.isPrefixOf (c :: cs) = true <;> simp [h]

theorem contains_iff (sep s : List α) : contains sep s = true ↔ sep <:+: s := isSome_cut_iff sep s

variable {c : α}

theorem split_of_not_mem (h : c ∉ s) : split [c] s = [s] := by
  unfold split
  induction s with
  | nil => rfl
  | cons d rest ih =>
    rw [mem_cons, not_or] at h
    simp [splitFrom, h.1, ih h.2]

theorem split_of_cut (h : c ∉ before) :
    split [c] (before ++ c :: after) = before :: split [c] after := by
  unfold split
  induction before with
  | nil => simp [splitFrom]
  | cons d rest ih =>
    rw [mem_cons, not_or] at h
    simp [splitFrom, h.1, ih h.2]

theorem split_cons_self (c : α) (s : List α) : split [c] (c :: s) = [] :: split [c] s := by
  simp [split, splitFrom]

theorem splitFrom_ne_nil (sep : List α) (skip : Nat) (s : List α) : splitFrom sep skip s ≠ [] := by
  fun_induction splitFrom <;> simp_all

theorem split_cons_of_ne (h : c ≠ d) (s : List α) :
    ∃ part parts, split [c] s = part :: parts ∧ split [c] (d :: s) = (d :: part) :: parts := by
  obtain ⟨part, parts, hs⟩ := exists_cons_of_ne_nil (splitFrom_ne_nil [c] 0 s)
  simp [split, splitFrom, h, hs]

theorem not_mem_of_mem_split (h : p ∈ split [c] s) : c ∉ p := by
  induction s generalizing p with
  | nil =>
    rw [split_of_not_mem not_mem_nil, mem_singleton] at h
    simp [h]
  | cons d rest ih =>
    by_cases hd : c = d
    · subst hd
      rw [split_cons_self] at h
      rcases mem_cons.mp h with rfl | h
      · exact not_mem_nil
      · exact ih h
    · obtain ⟨part, parts, hs, hcons⟩ := split_cons_of_ne hd rest
      rw [hcons] at h
      rw [hs] at ih
      rcases mem_cons.mp h with rfl | h
      · exact not_mem_cons_of_ne_of_not_mem hd (ih mem_cons_self)
      · exact ih (mem_cons_of_mem _ h)

theorem split_append (c : α) (before after : List α) :
    split [c] (before ++ c :: after) = split [c] before ++ split [c] after := by
  induction before with
  | nil => exact split_cons_self c after
  | cons d rest ih =>
    by_cases hd : c = d
    · subst hd
      rw [cons_append, split_cons_self, split_cons_self, ih, cons_append]
    · obtain ⟨part, parts, hs, hcons⟩ := split_cons_of_ne hd rest
      obtain ⟨part', parts', hs', hcons'⟩ := split_cons_of_ne hd (rest ++ c :: after)
      rw [ih, hs, cons_append] at hs'
      cases hs'
      rw [cons_append, hcons', hcons, cons_append]

theorem prefix_and_infix_of_split {part : List α} (h : split [c] s = part :: parts) :
    part <+: s ∧ ∀ p ∈ parts, p <:+: s := by
  induction s generalizing part parts with
  | nil =>
    cases h
    exact ⟨ nil_prefix, by simp⟩
  | cons d rest ih =>
    by_cases hd : c = d
    · subst hd
      rw [split_cons_self] at h
      cases hrest : split [c] rest with rw [hrest] at h
      | nil =>
        cases h
        exact ⟨ nil_prefix, by simp⟩
      | cons first more =>
        cases h
        obtain ⟨hfirst, hmore⟩ := ih hrest
        refine ⟨ nil_prefix, fun p hp => ?_⟩
        rcases mem_cons.mp hp with rfl | hp
        · exact (hfirst.isInfix).trans (suffix_cons c rest).isInfix
        · exact (hmore p hp).trans (suffix_cons c rest).isInfix
    · obtain ⟨first, more, hs, hcons⟩ := split_cons_of_ne hd rest
      rw [hcons] at h
      cases h
      obtain ⟨hfirst, hmore⟩ := ih hs
      refine ⟨(prefix_cons_inj d).mpr hfirst, fun p hp => ?_⟩
      exact (hmore p hp).trans (suffix_cons d rest).isInfix

theorem infix_of_mem_split (h : p ∈ split [c] s) : p <:+: s := by
  cases hs : split [c] s with
  | nil =>
    rw [hs] at h
    cases h
  | cons part parts =>
    obtain ⟨hfirst, hrest⟩ := prefix_and_infix_of_split hs
    rw [hs] at h
    rcases mem_cons.mp h with rfl | h
    · exact hfirst.isInfix
    · exact hrest p h

end Chainloop.Text
