import Chainloop.Go.Map

namespace Chainloop.Go

open List

-- Values that are stored once and found by a hash. Different values may have the same hash.
structure Interned {α κ : Type} [DecidableEq κ] (hash : α → κ) where
  values : List α
  buckets : Map κ (List Nat)
  nodup : values.Nodup
  filed : ∀ k i, i ∈ buckets.getD k [] ↔ ∃ a, values[i]? = some a ∧ hash a = k

namespace Interned

variable {α κ : Type} [DecidableEq α] [DecidableEq κ] {hash : α → κ}

def empty : Interned hash where
  values := []
  buckets := .empty
  nodup := nodup_nil
  filed k i := by simp [Map.getD]

def find? (t : Interned hash) (a : α) : Option Nat :=
  (t.buckets.getD (hash a) []).find? fun i => t.values[i]? = some a

variable {t : Interned hash}

theorem getElem?_of_find? (h : t.find? a = some i) : t.values[i]? = some a := by
  simpa using find?_some h

theorem not_mem_of_find? (h : t.find? a = none) : a ∉ t.values := by
  intro ha
  obtain ⟨i, hi⟩ := mem_iff_getElem?.mp ha
  have hbucket : i ∈ t.buckets.getD (hash a) [] := (t.filed (hash a) i).mpr ⟨a, hi, rfl⟩
  simpa [hi] using find?_eq_none.mp h i hbucket

def file (buckets : Map κ (List Nat)) (k : κ) (i : Nat) : Map κ (List Nat) :=
  buckets.set k (buckets.getD k [] ++ [i])

theorem getD_file (buckets : Map κ (List Nat)) (k j : κ) (i : Nat) : (file buckets k i).getD j [] =
      if j = k then buckets.getD k [] ++ [i] else buckets.getD j [] := by
  unfold file Map.getD
  rw [Map.get?_set]
  split_ifs <;> rfl

omit [DecidableEq α] in
theorem getElem?_snoc {l : List α} :
    (l ++ [a])[i]? = some b ↔ l[i]? = some b ∨ (i = l.length ∧ b = a) := by
  obtain hlt | rfl | hgt := lt_trichotomy i l.length
  · rw [getElem?_append_left hlt]
    constructor
    · exact .inl
    · rintro (h | ⟨rfl, -⟩)
      · exact h
      · exact absurd hlt (lt_irrefl _)
  · rw [getElem?_concat_length]
    simp [eq_comm]
  · have hnone : (l ++ [a])[i]? = none := by simpa using Nat.succ_le_of_lt hgt
    have hold : l[i]? = none := by simpa using hgt.le
    simp [hnone, hold, hgt.ne']

def add (t : Interned hash) (a : α) (h : a ∉ t.values) : Interned hash where
  values := t.values ++ [a]
  buckets := file t.buckets (hash a) t.values.length
  nodup := nodup_append.mpr ⟨t.nodup, nodup_singleton a, by
    intro b hb c hc hbc
    exact h (mem_singleton.mp hc ▸ hbc ▸ hb)⟩
  filed k i := by
    have hold := t.filed k i
    simp only [getElem?_snoc, or_and_right, exists_or, ← hold, getD_file]
    by_cases hk : k = hash a
    · subst hk
      simp
    · simp [hk, Ne.symm hk]

def intern (t : Interned hash) (a : α) : Interned hash × Nat :=
  match h : t.find? a with
  | some i => (t, i)
  | none => (t.add a (not_mem_of_find? h), t.values.length)

theorem intern_cases (t : Interned hash) (a : α) :
    ((t.intern a).1 = t ∧ t.values[(t.intern a).2]? = some a) ∨
      ((t.intern a).1.values = t.values ++ [a] ∧ (t.intern a).2 = t.values.length) := by
  unfold intern
  split
  · rename_i i h
    exact .inl ⟨rfl, getElem?_of_find? h⟩
  · exact .inr ⟨rfl, rfl⟩

theorem getElem?_intern (t : Interned hash) (a : α) :
    (t.intern a).1.values[(t.intern a).2]? = some a := by
  obtain ⟨ht, hi⟩ | ⟨ht, hi⟩ := intern_cases t a
  · rw [ht, hi]
  · rw [ht, hi, getElem?_concat_length]

theorem values_isPrefix_intern (t : Interned hash) (a : α) :
    t.values <+: (t.intern a).1.values := by
  obtain ⟨ht, -⟩ | ⟨ht, -⟩ := intern_cases t a
  · rw [ht]
  · rw [ht]
    exact prefix_append _ _

theorem place_of_intern (h : i < (t.intern a).1.values.length) :
    i < t.values.length ∨ i = (t.intern a).2 := by
  obtain ⟨ht, -⟩ | ⟨ht, hi⟩ := intern_cases t a
  · rw [ht] at h
    exact .inl h
  · rw [ht, length_append, length_singleton] at h
    omega

end Interned

end Chainloop.Go
