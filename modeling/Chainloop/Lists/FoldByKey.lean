import Mathlib.Algebra.BigOperators.Group.List.Basic
import Mathlib.Algebra.GroupWithZero.Nat
import Mathlib.Algebra.Ring.Int.Defs
import Mathlib.Data.List.Induction
import Mathlib.Data.List.Nodup

namespace Chainloop.Lists

open List

variable {α κ : Type} [DecidableEq κ]

-- A list with one entry for each key. An element is merged into the entry with its key, or
-- starts an entry at the end of the list.
def addByKey (key : α → κ) (merge : α → α → α) (start : α → α) (entries : List α) (a : α) :
    List α :=
  if key a ∈ entries.map key then entries.map fun e => if key e = key a then merge e a else e
  else entries ++ [start a]

def foldByKey (key : α → κ) (merge : α → α → α) (start : α → α) (l : List α) : List α :=
  l.foldl (addByKey key merge start) []

variable {key : α → κ} {merge : α → α → α} {start : α → α}

theorem foldByKey_concat (l : List α) (a : α) : foldByKey key merge start (l ++ [a]) =
      addByKey key merge start (foldByKey key merge start l) a := by
  unfold foldByKey
  rw [foldl_append]
  rfl

structure KeepsKey (key : α → κ) (merge : α → α → α) (start : α → α) : Prop where
  merge : ∀ e a, key (merge e a) = key e
  start : ∀ a, key (start a) = key a

variable (hkey : KeepsKey key merge start)
include hkey

theorem keys_addByKey (entries : List α) (a : α) : (addByKey key merge start entries a).map key =
      if key a ∈ entries.map key then entries.map key else entries.map key ++ [key a] := by
  unfold addByKey
  split_ifs with hmem
  · rw [map_map]
    refine map_congr_left fun e _ => ?_
    by_cases he : key e = key a
    · simp [he, hkey.merge]
    · simp [he]
  · simp [hkey.start]

theorem mem_keys_foldByKey (l : List α) (k : κ) :
    k ∈ (foldByKey key merge start l).map key ↔ k ∈ l.map key := by
  induction l using reverseRecOn with
  | nil => rfl
  | append_singleton l a ih =>
    rw [foldByKey_concat, keys_addByKey hkey, map_append, mem_append, ← ih]
    split_ifs with hmem
    · constructor
      · exact Or.inl
      · rintro (hk | hk)
        · exact hk
        · rw [mem_singleton.mp hk]
          exact hmem
    · simp

theorem nodup_keys_foldByKey (l : List α) : ((foldByKey key merge start l).map key).Nodup := by
  induction l using reverseRecOn with
  | nil => exact nodup_nil
  | append_singleton l a ih =>
    rw [foldByKey_concat, keys_addByKey hkey]
    split_ifs with hmem
    · exact ih
    · rw [nodup_append]
      refine ⟨ih, nodup_singleton _, fun k hk k' hk' => ?_⟩
      rintro rfl
      rw [mem_singleton.mp hk'] at hk
      exact hmem hk

theorem iff_of_mem_foldByKey {Q : α → Prop} (hmerge : ∀ e a, Q (merge e a) ↔ Q e ∨ Q a)
    (hstart : ∀ a, Q (start a) ↔ Q a) (he : e ∈ foldByKey key merge start l) :
    Q e ↔ ∃ a ∈ l, key a = key e ∧ Q a := by
  induction l using reverseRecOn generalizing e with
  | nil => cases he
  | append_singleton l a ih =>
    rw [foldByKey_concat] at he
    unfold addByKey at he
    split_ifs at he with hmem
    · obtain ⟨f, hf, rfl⟩ := mem_map.mp he
      split_ifs with hkeys
      · rw [hmerge, hkey.merge, ih hf]
        simp [hkeys]
      · rw [ih hf]
        simp [Ne.symm hkeys]
    · rcases mem_append.mp he with hf | hf
      · have hkeys : key a ≠ key e := fun h => hmem (h ▸ mem_map_of_mem hf)
        rw [ih hf]
        simp [hkeys]
      · have hnew : ∀ b ∈ l, key b ≠ key a := fun b hb h =>
          hmem ((mem_keys_foldByKey hkey l _).mpr (h ▸ mem_map_of_mem hb))
        rw [mem_singleton.mp hf, hstart, hkey.start]
        constructor
        · intro ha
          exact ⟨a, by simp, rfl, ha⟩
        · rintro ⟨b, hb, hkeys, hq⟩
          rcases mem_append.mp hb with hb | hb
          · exact absurd hkeys (hnew b hb)
          · rw [← mem_singleton.mp hb]
            exact hq

omit hkey in
theorem sum_merged {w w' : α → Int} {a : α} (hmerge : ∀ e, key e = key a → w (merge e a) = w e + w' a)
    {entries : List α} (hnodup : (entries.map key).Nodup) :
    ((entries.map fun e => if key e = key a then merge e a else e).map w).sum =
      (entries.map w).sum + if key a ∈ entries.map key then w' a else 0 := by
  induction entries with
  | nil => simp
  | cons e rest ih =>
    obtain ⟨hfresh, hrest⟩ := nodup_cons.mp hnodup
    have ih := ih hrest
    simp only [map_cons, sum_cons, mem_cons]
    by_cases he : key e = key a
    · rw [he] at hfresh
      rw [if_neg hfresh] at ih
      rw [ih, if_pos he, hmerge e he, if_pos (.inl he.symm)]
      omega
    · rw [ih, if_neg he]
      simp only [Ne.symm he, false_or]
      omega

theorem sum_foldByKey {w : α → Int} (hmerge : ∀ e a, key e = key a → w (merge e a) = w e + w' a)
    (hstart : ∀ a, w (start a) = w' a) (l : List α) :
    ((foldByKey key merge start l).map w).sum = (l.map w').sum := by
  induction l using reverseRecOn with
  | nil => rfl
  | append_singleton l a ih =>
    rw [foldByKey_concat, map_append, sum_append, ← ih]
    unfold addByKey
    split_ifs with hmem
    · rw [sum_merged (fun e he => hmerge e a he) (nodup_keys_foldByKey hkey l), if_pos hmem]
      simp
    · simp [hstart]

omit hkey in
theorem forall_mem_foldByKey {P : α → Prop} (hmerge : ∀ e, ∀ a ∈ l, P e → P (merge e a))
    (hstart : ∀ a ∈ l, P (start a)) : ∀ e ∈ foldByKey key merge start l, P e := by
  induction l using reverseRecOn with
  | nil => simp [foldByKey]
  | append_singleton l a ih =>
    have ih := ih (fun e b hb => hmerge e b (by simp [hb])) fun b hb => hstart b (by simp [hb])
    intro e he
    rw [foldByKey_concat] at he
    unfold addByKey at he
    split_ifs at he with hmem
    · obtain ⟨f, hf, rfl⟩ := mem_map.mp he
      split_ifs
      · exact hmerge f a (by simp) (ih f hf)
      · exact ih f hf
    · rcases mem_append.mp he with hf | hf
      · exact ih e hf
      · rw [mem_singleton.mp hf]
        exact hstart a (by simp)

end Chainloop.Lists
