import Mathlib.Data.List.Basic
import Mathlib.Data.List.Induction
import Mathlib.Data.List.Pairwise

-- Lists that keep the first element of every class of matching elements. Elements
-- with the property `exempt` stay in any case.
namespace Chainloop.FirstMatch

open List

variable {α : Type}

def add (matching : α → α → Bool) (acc : List α) (x : α) : List α :=
  if acc.any fun y => matching y x then acc else acc ++ [x]

def addExempt (matching : α → α → Bool) (exempt : α → Bool) (acc : List α) (x : α) : List α :=
  if exempt x then acc ++ [x] else add matching acc x

def keepFirst (matching : α → α → Bool) (exempt : α → Bool) (l : List α) : List α :=
  l.foldl (addExempt matching exempt) []

structure Equivalence (matching : α → α → Bool) : Prop where
  refl : ∀ x, matching x x = true
  symm : ∀ x y, matching x y = true → matching y x = true
  trans : ∀ x y z, matching x y = true → matching y z = true → matching x z = true

variable {matching : α → α → Bool} {exempt : α → Bool}

theorem keepFirst_append_singleton (l : List α) (x : α) : keepFirst matching exempt (l ++ [x]) =
      addExempt matching exempt (keepFirst matching exempt l) x := by
  rw [keepFirst, foldl_append]
  rfl

theorem foldl_add_eq (l acc : List α) (h : ∀ x ∈ l, exempt x = false) :
    l.foldl (add matching) acc = l.foldl (addExempt matching exempt) acc := by
  induction l generalizing acc with
  | nil => rfl
  | cons x rest ih =>
    have hx : add matching acc x = addExempt matching exempt acc x := by
      simp [addExempt, h x mem_cons_self]
    rw [foldl_cons, hx]
    exact ih _ fun y hy => h y (mem_cons_of_mem _ hy)

theorem mem_addExempt : z ∈ addExempt matching exempt acc x ↔
      z ∈ acc ∨ (z = x ∧ (exempt x = true ∨ ∀ y ∈ acc, matching y x = false)) := by
  unfold addExempt add
  split_ifs with hx hany
  · simp [hx]
  · obtain ⟨y, hy, hyx⟩ := any_eq_true.mp hany
    have hno : ¬ ∀ y ∈ acc, matching y x = false := by
      intro hall
      rw [hall y hy] at hyx
      cases hyx
    simp [hx, hno]
  · have hall : ∀ y ∈ acc, matching y x = false := by simpa using hany
    rw [mem_append, mem_singleton]
    exact or_congr_right (iff_self_and.mpr fun _ => .inr hall)

theorem keepFirst_subset (h : z ∈ keepFirst matching exempt l) : z ∈ l := by
  induction l using reverseRecOn with
  | nil => cases h
  | append_singleton l x ih =>
    rw [keepFirst_append_singleton, mem_addExempt] at h
    rcases h with h | ⟨rfl, -⟩
    · exact mem_append_left _ (ih h)
    · exact mem_append_right _ mem_cons_self

theorem exists_kept (heq : Equivalence matching) (h : x ∈ l) :
    ∃ y ∈ keepFirst matching exempt l, matching y x = true := by
  induction l using reverseRecOn with
  | nil => cases h
  | append_singleton l z ih =>
    rw [keepFirst_append_singleton]
    rcases mem_append.mp h with h | h
    · obtain ⟨y, hy, hyx⟩ := ih h
      exact ⟨y, mem_addExempt.mpr (.inl hy), hyx⟩
    · rw [mem_singleton] at h
      subst h
      by_cases hkept : exempt x = true ∨ ∀ y ∈ keepFirst matching exempt l, matching y x = false
      · exact ⟨x, mem_addExempt.mpr (.inr ⟨rfl, hkept⟩), heq.refl x⟩
      · simp only [not_or, not_forall, Bool.not_eq_false] at hkept
        obtain ⟨-, y, hy, hyx⟩ := hkept
        exact ⟨y, mem_addExempt.mpr (.inl hy), hyx⟩

theorem kept_unmatched_iff (heq : Equivalence matching) (l : List α) (x : α) :
    (∀ y ∈ keepFirst matching exempt l, matching y x = false) ↔ ∀ y ∈ l, matching y x = false := by
  constructor
  · intro h y hy
    obtain ⟨z, hz, hzy⟩ := exists_kept heq hy
    by_contra hyx
    have hzx := heq.trans z y x hzy (by simpa using hyx)
    rw [h z hz] at hzx
    cases hzx
  · intro h y hy
    exact h y (keepFirst_subset hy)

theorem mem_keepFirst (heq : Equivalence matching) :
    z ∈ keepFirst matching exempt l ↔ ∃ before after, l = before ++ z :: after ∧
      (exempt z = true ∨ ∀ y ∈ before, matching y z = false) := by
  induction l using reverseRecOn with
  | nil => simp [keepFirst]
  | append_singleton l x ih =>
    rw [keepFirst_append_singleton, mem_addExempt, kept_unmatched_iff heq, ih]
    constructor
    · rintro (⟨before, after, rfl, hz⟩ | ⟨rfl, hz⟩)
      · exact ⟨before, after ++ [x], by simp, hz⟩
      · exact ⟨l, [], rfl, hz⟩
    · rintro ⟨before, after, hl, hz⟩
      rcases eq_nil_or_concat after with rfl | ⟨rest, w, rfl⟩
      · obtain ⟨rfl, hx⟩ := append_inj' hl rfl
        cases hx
        exact .inr ⟨rfl, hz⟩
      · have hl' : l ++ [x] = (before ++ z :: rest) ++ [w] := by simpa using hl
        obtain ⟨rfl, -⟩ := append_inj' hl' rfl
        exact .inl ⟨before, rest, rfl, hz⟩

theorem filter_exempt_keepFirst (l : List α) :
    (keepFirst matching exempt l).filter exempt = l.filter exempt := by
  induction l using reverseRecOn with
  | nil => rfl
  | append_singleton l x ih =>
    rw [keepFirst_append_singleton, filter_append, ← ih]
    unfold addExempt add
    split_ifs with hx hany
    · rw [filter_append]
    · simp [hx]
    · rw [filter_append]

structure Ordered (matching : α → α → Bool) (exempt : α → Bool) (l : List α) : Prop where
  front : ∃ first rest, l = first ++ rest ∧ (∀ x ∈ first, exempt x = false) ∧
    (∀ x ∈ rest, exempt x = true) ∧ first.Pairwise fun x y => matching x y = false

theorem ordered_nil : Ordered matching exempt [] := ⟨[], [], rfl, by simp, by simp, .nil⟩

theorem Ordered.append_exempt (h : Ordered matching exempt l) (hmore : ∀ x ∈ more, exempt x = true) :
    Ordered matching exempt (l ++ more) := by
  obtain ⟨first, rest, rfl, hfirst, hrest, hpair⟩ := h.front
  refine ⟨first, rest ++ more, by simp, hfirst, fun x hx => ?_, hpair⟩
  rcases mem_append.mp hx with hx | hx
  · exact hrest x hx
  · exact hmore x hx

theorem Ordered.filter {l : List α} (h : Ordered matching exempt l) (keep : α → Bool) :
    Ordered matching exempt (l.filter keep) := by
  obtain ⟨first, rest, rfl, hfirst, hrest, hpair⟩ := h.front
  refine ⟨first.filter keep, rest.filter keep, filter_append .., ?_, ?_, hpair.filter _⟩
  · exact fun x hx => hfirst x (mem_filter.mp hx).1
  · exact fun x hx => hrest x (mem_filter.mp hx).1

theorem keepFirst_append_exempt (l rest : List α) (hrest : ∀ x ∈ rest, exempt x = true) :
    keepFirst matching exempt (l ++ rest) = keepFirst matching exempt l ++ rest := by
  induction rest using reverseRecOn with
  | nil => simp
  | append_singleton rest x ih =>
    have hx : exempt x = true := hrest x (by simp)
    rw [← append_assoc, keepFirst_append_singleton,
      ih fun y hy => hrest y (mem_append_left _ hy), addExempt, if_pos hx, append_assoc]

theorem pairwise_keepFirst (l : List α) :
    (keepFirst matching exempt l).Pairwise fun x y => exempt y = false → matching x y = false := by
  induction l using reverseRecOn with
  | nil => exact .nil
  | append_singleton l x ih =>
    rw [keepFirst_append_singleton]
    unfold addExempt add
    split_ifs with hx hany
    · refine pairwise_append.mpr ⟨ih, pairwise_singleton _ _, fun y _ z hz hex => ?_⟩
      rw [mem_singleton.mp hz, hx] at hex
      cases hex
    · exact ih
    · have hall : ∀ y ∈ keepFirst matching exempt l, matching y x = false := by simpa using hany
      refine pairwise_append.mpr ⟨ih, pairwise_singleton _ _, fun y hy z hz _ => ?_⟩
      rw [mem_singleton.mp hz]
      exact hall y hy

theorem Ordered.keepFirst (h : Ordered matching exempt old) (hnews : ∀ x ∈ news, exempt x = false) :
    Ordered matching exempt (keepFirst matching exempt (news ++ old)) := by
  obtain ⟨first, rest, rfl, hfirst, hrest, -⟩ := h.front
  rw [← append_assoc, keepFirst_append_exempt _ rest hrest]
  have hall : ∀ x ∈ FirstMatch.keepFirst matching exempt (news ++ first), exempt x = false := by
    intro x hx
    rcases mem_append.mp (keepFirst_subset hx) with hx | hx
    · exact hnews x hx
    · exact hfirst x hx
  refine ⟨_, rest, rfl, hall, hrest, ?_⟩
  exact (pairwise_keepFirst _).imp_of_mem fun _ hy hpair => hpair (hall _ hy)

theorem Ordered.matched_of_dropped (heq : Equivalence matching) (h : Ordered matching exempt old)
    (hx : x ∈ old) (hex : exempt x = false)
    (hdrop : x ∉ FirstMatch.keepFirst matching exempt (news ++ old)) :
    ∃ y ∈ news, matching y x = true := by
  obtain ⟨first, rest, rfl, -, hrest, hpair⟩ := h.front
  have hmem : x ∈ first := by
    rcases mem_append.mp hx with hx | hx
    · exact hx
    · rw [hrest x hx] at hex
      cases hex
  obtain ⟨before, after, rfl⟩ := append_of_mem hmem
  by_contra hno
  push Not at hno
  refine hdrop ((mem_keepFirst heq).mpr ⟨news ++ before, after ++ rest, by simp, .inr ?_⟩)
  intro y hy
  rcases mem_append.mp hy with hy | hy
  · simpa using hno y hy
  · exact (pairwise_append.mp hpair).2.2 y hy x mem_cons_self

end Chainloop.FirstMatch
