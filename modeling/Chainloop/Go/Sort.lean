import Mathlib.Data.List.Rotate
import Mathlib.Data.List.Sort
import Mathlib.Data.List.TakeWhile
import Mathlib.Data.String.Basic

namespace Chainloop.Go

open List

-- sort.Slice on a text of the elements. Equal elements may come in any order.
structure SliceSort where
  byKey : {α : Type} → (α → String) → List α → List α
  perm : ∀ {α : Type} (key : α → String) (l : List α), (byKey key l).Perm l
  sorted : ∀ {α : Type} (key : α → String) (l : List α),
    (byKey key l).Pairwise fun a b => ¬ key b < key a

-- Up to twelve elements sort.Slice sorts by insertion.
def SliceSort.insertion : SliceSort where
  byKey key l := l.insertionSort fun a b => ¬ key b < key a
  perm _ l := perm_insertionSort _ l
  sorted key l := by
    have htotal : Std.Total fun a b => ¬ key b < key a :=
      ⟨fun a b => by simpa only [not_lt] using le_total (key a) (key b)⟩
    have htrans : IsTrans _ fun a b => ¬ key b < key a :=
      ⟨fun a b c hab hbc => by simpa only [not_lt] using (not_lt.mp hab).trans (not_lt.mp hbc)⟩
    exact pairwise_insertionSort _ l

-- Another order that sort.Slice may give: the elements are rotated before they are sorted.
def SliceSort.rotated (n : Nat) : SliceSort where
  byKey key l := SliceSort.insertion.byKey key (l.rotate n)
  perm key l := (SliceSort.insertion.perm key (l.rotate n)).trans (rotate_perm l n)
  sorted key l := SliceSort.insertion.sorted key (l.rotate n)

theorem SliceSort.rotated_byKey {α : Type} (n : Nat) (key : α → String) (l : List α) :
    (SliceSort.rotated n).byKey key l = (l.rotate n).insertionSort fun a b => ¬ key b < key a := rfl

theorem SliceSort.exists_first {α : Type} (key : α → String) {l : List α} {a : α} (h : a ∈ l) :
    ∃ (sort : SliceSort) (before after : List α), sort.byKey key l = before ++ a :: after ∧
      ∀ b ∈ before, key b < key a := by
  obtain ⟨front, back, rfl⟩ := append_of_mem h
  have hsorted : (SliceSort.rotated front.length).byKey key (front ++ a :: back) =
      (a :: (back ++ front)).insertionSort fun b c => ¬ key c < key b := by
    rw [rotated_byKey, rotate_append_length_eq, cons_append]
  rw [insertionSort_cons_eq_take_drop] at hsorted
  refine ⟨_, _, _, hsorted, fun b hb => ?_⟩
  simpa using mem_takeWhile_imp hb

end Chainloop.Go
