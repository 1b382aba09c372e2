import Mathlib.Data.Finset.Card

namespace Chainloop.Go

open List

-- A Go map. Go fixes no iteration order. The entries here stand in insertion
-- order, so that a walk over them is one of the orders Go may choose.
structure Map (κ ν : Type) where
  entries : List (κ × ν)
  nodup : (entries.map Prod.fst).Nodup
deriving DecidableEq

namespace Map

variable {κ ν : Type}

def empty : Map κ ν := ⟨[], nodup_nil⟩

instance : Inhabited (Map κ ν) := ⟨empty⟩

def keys (m : Map κ ν) : List κ := m.entries.map Prod.fst

def size (m : Map κ ν) : Nat := m.entries.length

@[simp] theorem keys_empty : (empty : Map κ ν).keys = [] := rfl

theorem mem_keys (m : Map κ ν) (k : κ) : k ∈ m.keys ↔ ∃ v, (k, v) ∈ m.entries := by
  simp [keys]

@[ext] theorem ext_entries {m n : Map κ ν} (h : m.entries = n.entries) : m = n := by
  cases m; cases n; cases h; rfl

def map {μ : Type} (m : Map κ ν) (f : ν → μ) : Map κ μ :=
  ⟨m.entries.map fun e => (e.1, f e.2), by
    rw [map_map]
    exact m.nodup⟩

theorem keys_map {μ : Type} (m : Map κ ν) (f : ν → μ) : (m.map f).keys = m.keys := by
  simp [keys, map]

def Holds {α : Type} (m : Map κ (List α)) (x : α) : Prop := ∃ e ∈ m.entries, x ∈ e.2

variable {α : Type}

theorem not_holds_empty (x : α) : ¬ (empty : Map κ (List α)).Holds x := by
  rintro ⟨e, he, _⟩
  cases he

variable [DecidableEq κ]

def get? (m : Map κ ν) (k : κ) : Option ν := m.entries.lookup k

-- m[k] for a value type whose zero value is `zero`.
def getD (m : Map κ ν) (k : κ) (zero : ν) : ν := (m.get? k).getD zero

private theorem keys_overwrite (l : List (κ × ν)) (k : κ) (v : ν) :
    (l.map fun e => if e.1 = k then (k, v) else e).map Prod.fst = l.map Prod.fst := by
  rw [map_map]
  apply map_congr_left
  intro e _
  by_cases he : e.1 = k <;> simp [he]

def set (m : Map κ ν) (k : κ) (v : ν) : Map κ ν :=
  if hk : k ∈ m.entries.map Prod.fst then
    ⟨m.entries.map fun e => if e.1 = k then (k, v) else e, by
      rw [keys_overwrite]; exact m.nodup⟩
  else
    ⟨m.entries ++ [(k, v)], by
      rw [map_append]
      exact nodup_append.mpr ⟨m.nodup, by simp, by
        intro a ha b hb hab
        simp only [map_cons, map_nil, mem_singleton] at hb
        exact hk (hb ▸ hab ▸ ha)⟩⟩

def erase (m : Map κ ν) (k : κ) : Map κ ν :=
  ⟨m.entries.filter fun e => e.1 ≠ k, by
    have hs := (filter_sublist (p := fun e : κ × ν => decide (e.1 ≠ k)) (l := m.entries)).map Prod.fst
    exact m.nodup.sublist hs⟩

-- The literal map[κ]ν{...}: a repeated key keeps the last value.
def ofList (l : List (κ × ν)) : Map κ ν :=
  l.foldl (fun m e => m.set e.1 e.2) empty

def copy (dst src : Map κ ν) : Map κ ν :=
  src.entries.foldl (fun m e => m.set e.1 e.2) dst

-- maps.Equal. It does not tell a nil map from an empty one.
def equal [DecidableEq ν] (m n : Map κ ν) : Bool :=
  m.size == n.size && m.entries.all fun e => n.get? e.1 == some e.2

@[simp] theorem get?_empty (k : κ) : (empty : Map κ ν).get? k = none := rfl

theorem get?_eq_none_iff (m : Map κ ν) (k : κ) : m.get? k = none ↔ k ∉ m.keys := by
  unfold get? keys
  rw [lookup_eq_none_iff]
  constructor
  · intro h hk
    obtain ⟨e, he, rfl⟩ := mem_map.mp hk
    simpa using h e he
  · intro h e he
    simp only [bne_iff_ne]
    rintro rfl
    exact h (mem_map_of_mem he)

theorem get?_eq_some_iff (m : Map κ ν) (k : κ) (v : ν) :
    m.get? k = some v ↔ (k, v) ∈ m.entries := by
  unfold get?
  rw [lookup_eq_some_iff]
  constructor
  · rintro ⟨before, after, he, _⟩
    simp [he]
  · intro h
    obtain ⟨before, after, he⟩ := append_of_mem h
    refine ⟨before, after, he, fun e hb => ?_⟩
    have hn := m.nodup
    rw [he, map_append, nodup_append] at hn
    have hne := hn.2.2 e.1 (mem_map_of_mem hb) k (by simp)
    simpa using Ne.symm hne

theorem mem_keys_iff_isSome (m : Map κ ν) (k : κ) : k ∈ m.keys ↔ (m.get? k).isSome := by
  rw [← Option.ne_none_iff_isSome, ne_eq, get?_eq_none_iff, not_not]

def filter (m : Map κ ν) (keep : κ → ν → Bool) : Map κ ν :=
  ⟨m.entries.filter fun e => keep e.1 e.2, m.nodup.sublist (filter_sublist.map Prod.fst)⟩

def mapValues (m : Map κ ν) (f : κ → ν → ν) : Map κ ν :=
  ⟨m.entries.map fun e => (e.1, f e.1 e.2), by
    rw [map_map]
    exact m.nodup⟩

section
variable (m : Map κ ν)

theorem get?_filter (keep : κ → ν → Bool) (k : κ) (v : ν) :
    (m.filter keep).get? k = some v ↔ m.get? k = some v ∧ keep k v = true := by
  rw [get?_eq_some_iff, get?_eq_some_iff]
  exact mem_filter

theorem get?_erase (k j : κ) : (m.erase k).get? j = if j = k then none else m.get? j := by
  have herase : m.erase k = m.filter fun j _ => decide (j ≠ k) := rfl
  ext v
  rw [herase, get?_filter]
  by_cases h : j = k <;> simp [h]

theorem get?_mapValues (f : κ → ν → ν) (k : κ) : (m.mapValues f).get? k = (m.get? k).map (f k) := by
  ext v
  rw [get?_eq_some_iff, Option.map_eq_some_iff]
  constructor
  · intro h
    obtain ⟨e, he, heq⟩ := mem_map.mp h
    cases heq
    exact ⟨e.2, (get?_eq_some_iff m e.1 e.2).mpr he, rfl⟩
  · rintro ⟨w, hw, rfl⟩
    exact mem_map.mpr ⟨(k, w), (get?_eq_some_iff m k w).mp hw, rfl⟩

theorem set_entries_of_fresh (k : κ) (v : ν) (hk : k ∉ m.keys) :
    (m.set k v).entries = m.entries ++ [(k, v)] := by
  unfold set
  rw [dif_neg (show k ∉ m.entries.map Prod.fst from hk)]

theorem set_entries_of_mem (k : κ) (v : ν) (hk : k ∈ m.keys) :
    (m.set k v).entries = m.entries.map fun e => if e.1 = k then (k, v) else e := by
  unfold set
  rw [dif_pos (show k ∈ m.entries.map Prod.fst from hk)]

theorem mem_set_entries (k : κ) (v : ν) (e : κ × ν) :
    e ∈ (m.set k v).entries ↔ e = (k, v) ∨ (e.1 ≠ k ∧ e ∈ m.entries) := by
  by_cases hk : k ∈ m.keys
  · rw [set_entries_of_mem m k v hk, mem_map]
    constructor
    · rintro ⟨f, hf, rfl⟩
      by_cases h : f.1 = k
      · exact Or.inl (by simp [h])
      · exact Or.inr (by simpa [h] using hf)
    · rintro (rfl | ⟨h, he⟩)
      · obtain ⟨w, hw⟩ := (mem_keys m k).mp hk
        exact ⟨(k, w), hw, by simp⟩
      · exact ⟨e, he, by simp [h]⟩
  · rw [set_entries_of_fresh m k v hk, mem_append, mem_singleton]
    constructor
    · rintro (h | h)
      · refine Or.inr ⟨?_, h⟩
        rintro rfl
        exact hk (mem_map_of_mem h)
      · exact Or.inl h
    · rintro (h | h)
      · exact Or.inr h
      · exact Or.inl h.2

end

@[simp] theorem get?_set_self (m : Map κ ν) (k : κ) (v : ν) : (m.set k v).get? k = some v := by
  rw [get?_eq_some_iff, mem_set_entries]
  exact Or.inl rfl

theorem mem_foldl_set_entries {k : α → κ} {v : α → ν} {l : List α} {m : Map κ ν}
    {e : κ × ν} (h : e ∈ (l.foldl (fun m x => m.set (k x) (v x)) m).entries) :
    (∃ x ∈ l, (k x, v x) = e) ∨ e ∈ m.entries := by
  induction l generalizing m with
  | nil => exact .inr h
  | cons x rest ih =>
    rcases ih h with ⟨y, hy, he⟩ | h
    · exact .inl ⟨y, mem_cons_of_mem _ hy, he⟩
    · rcases (mem_set_entries m (k x) (v x) e).mp h with he | h
      · exact .inl ⟨x, mem_cons_self, he.symm⟩
      · exact .inr h.2

theorem get?_set_ne (m : Map κ ν) (v : ν) (h : j ≠ k) : (m.set k v).get? j = m.get? j := by
  ext w
  rw [get?_eq_some_iff, mem_set_entries, get?_eq_some_iff]
  simp [h]

theorem get?_set (m : Map κ ν) (k j : κ) (v : ν) :
    (m.set k v).get? j = if j = k then some v else m.get? j := by
  by_cases h : j = k
  · simp [h]
  · rw [get?_set_ne m v h, if_neg h]

@[simp] theorem mem_keys_set (m : Map κ ν) (k j : κ) (v : ν) :
    j ∈ (m.set k v).keys ↔ j = k ∨ j ∈ m.keys := by
  rw [mem_keys_iff_isSome, get?_set]
  by_cases h : j = k
  · simp [h]
  · simp [h, mem_keys_iff_isSome]

def reorder (m : Map κ ν) (l : List (κ × ν)) (h : l.Perm m.entries) : Map κ ν :=
  ⟨l, (h.map Prod.fst).nodup_iff.mpr m.nodup⟩

theorem get?_reorder (m : Map κ ν) {l : List (κ × ν)} (h : l.Perm m.entries) (k : κ) :
    (m.reorder l h).get? k = m.get? k := by
  apply Option.ext
  intro v
  rw [get?_eq_some_iff, get?_eq_some_iff]
  exact h.mem_iff

theorem get?_map {μ : Type} (m : Map κ ν) (f : ν → μ) (k : κ) :
    (m.map f).get? k = (m.get? k).map f := by
  have hlookup : ∀ l : List (κ × ν),
      (l.map fun e => (e.1, f e.2)).lookup k = (l.lookup k).map f := by
    intro l
    induction l with
    | nil => rfl
    | cons e rest ih =>
      rw [map_cons, lookup_cons, lookup_cons]
      cases k == e.1 with
      | true => rfl
      | false => exact ih
  exact hlookup m.entries

theorem get?_foldl_combine (combine : Option ν → ν → ν) (n m : Map κ ν) (k : κ) :
    (n.entries.foldl (fun m e => m.set e.1 (combine (m.get? e.1) e.2)) m).get? k =
      match n.get? k with
      | none => m.get? k
      | some v => some (combine (m.get? k) v) := by
  have hfold : ∀ (l : List (κ × ν)) (m : Map κ ν), (l.map Prod.fst).Nodup →
      (l.foldl (fun m e => m.set e.1 (combine (m.get? e.1) e.2)) m).get? k = match l.lookup k with
        | none => m.get? k
        | some v => some (combine (m.get? k) v) := by
    intro l
    induction l with
    | nil => exact fun m _ => rfl
    | cons e rest ih =>
      intro m hnodup
      obtain ⟨hfresh, hrest⟩ := nodup_cons.mp hnodup
      rw [foldl_cons, ih _ hrest, lookup_cons]
      by_cases hk : k = e.1
      · have hgone : rest.lookup k = none := by
          rw [lookup_eq_none_iff]
          intro f hf
          simp only [bne_iff_ne, hk]
          exact fun heq => hfresh (mem_map.mpr ⟨f, hf, heq.symm⟩)
        rw [hgone, hk, beq_self_eq_true, get?_set_self]
      · rw [beq_false_of_ne hk, get?_set_ne _ _ hk]
  exact hfold n.entries m n.nodup

theorem get?_copy (m n : Map κ ν) (k : κ) : (m.copy n).get? k = (n.get? k).or (m.get? k) := by
  rw [copy, get?_foldl_combine (fun _ v => v) n m k]
  cases n.get? k <;> rfl

theorem keys_set_of_mem (m : Map κ ν) (k : κ) (v : ν) (hk : k ∈ m.keys) :
    (m.set k v).keys = m.keys := by
  rw [keys, set_entries_of_mem m k v hk, keys_overwrite, keys]

-- m[k] = append(m[k], x), for a map of slices.
def push {α : Type} (m : Map κ (List α)) (k : κ) (x : α) : Map κ (List α) :=
  m.set k (m.getD k [] ++ [x])

theorem holds_push (m : Map κ (List α)) (k : κ) (x y : α) :
    (m.push k x).Holds y ↔ m.Holds y ∨ y = x := by
  have hget (l) : (k, l) ∈ m.entries → m.getD k [] = l := by
    intro hl
    rw [getD, (get?_eq_some_iff m k l).mpr hl, Option.getD_some]
  constructor
  · rintro ⟨e, he, hy⟩
    rcases (mem_set_entries ..).mp he with rfl | ⟨_, he⟩
    · rcases mem_append.mp hy with hy | hy
      · cases hk : m.get? k with
        | none =>
          rw [getD, hk] at hy
          cases hy
        | some l =>
          have hl := (get?_eq_some_iff m k l).mp hk
          rw [hget l hl] at hy
          exact .inl ⟨(k, l), hl, hy⟩
      · exact .inr (mem_singleton.mp hy)
    · exact .inl ⟨e, he, hy⟩
  · rintro (⟨e, he, hy⟩ | rfl)
    · by_cases hk : e.1 = k
      · refine ⟨(k, m.getD k [] ++ [x]), (mem_set_entries ..).mpr (.inl rfl), ?_⟩
        rw [hget e.2 (hk ▸ he)]
        exact mem_append_left _ hy
      · exact ⟨e, (mem_set_entries ..).mpr (.inr ⟨hk, he⟩), hy⟩
    · exact ⟨_, (mem_set_entries ..).mpr (.inl rfl), mem_append_right _ mem_cons_self⟩

def elements {α : Type} (m : Map κ (List α)) : List α := m.entries.flatMap Prod.snd

theorem elements_push (m : Map κ (List α)) (k : κ) (x : α) :
    (m.push k x).elements.Perm (m.elements ++ [x]) := by
  unfold elements push
  by_cases hk : k ∈ m.keys
  · obtain ⟨l, hl⟩ := (mem_keys m k).mp hk
    obtain ⟨before, after, he⟩ := append_of_mem hl
    -- The key stands in one entry only, so the others are left as they are.
    have hnodup := m.nodup
    rw [he, map_append] at hnodup
    have hother : ∀ e ∈ before ++ after, e.1 ≠ k := by
      intro e hmem hek
      have hkey : k ∈ before.map Prod.fst ++ after.map Prod.fst := by
        rw [← map_append, ← hek]
        exact mem_map_of_mem hmem
      exact (nodup_cons.mp (nodup_middle.mp hnodup)).1 hkey
    have hsame (part : List (κ × List α)) : (∀ e ∈ part, e ∈ before ++ after) →
        (part.map fun e => if e.1 = k then (k, m.getD k [] ++ [x]) else e) = part := by
      intro hpart
      refine (map_congr_left fun e he => ?_).trans (map_id _)
      rw [if_neg (hother e (hpart e he))]
      rfl
    have hget : m.getD k [] = l := by
      rw [getD, (get?_eq_some_iff m k l).mpr hl, Option.getD_some]
    rw [set_entries_of_mem m k _ hk, he, map_append, map_cons,
      hsame before (fun e h => mem_append_left _ h),
      hsame after (fun e h => mem_append_right _ h), if_pos rfl, hget]
    simp only [flatMap_append, flatMap_cons, append_assoc]
    exact (perm_append_comm.append_left l).append_left _
  · have hget : m.getD k [] = [] := by
      rw [getD, (get?_eq_none_iff m k).mpr hk, Option.getD_none]
    rw [set_entries_of_fresh m k _ hk, hget]
    simp

theorem foldl_set_entries (l : List (κ × ν)) : ∀ m : Map κ ν, (m.keys ++ l.map Prod.fst).Nodup →
      (l.foldl (fun m e => m.set e.1 e.2) m).entries = m.entries ++ l := by
  induction l with
  | nil => simp
  | cons e rest ih =>
    intro m hnodup
    have hfresh : e.1 ∉ m.keys := by
      intro hmem
      exact (nodup_append.mp hnodup).2.2 e.1 hmem e.1 (by simp) rfl
    have hset := set_entries_of_fresh m e.1 e.2 hfresh
    have hkeys : (m.set e.1 e.2).keys = m.keys ++ [e.1] := by
      rw [keys, hset, map_append]
      rfl
    rw [foldl_cons, ih, hset, append_assoc]
    · rfl
    · rw [hkeys, append_assoc]
      simpa using hnodup

theorem ofList_entries (m : Map κ ν) : ofList m.entries = m := by
  apply ext_entries
  have h := foldl_set_entries m.entries empty (by simpa using m.nodup)
  simpa [ofList, empty] using h

theorem set_entries_append {m n : Map κ ν} {added : List (κ × ν)}
    (hn : n.entries = m.entries ++ added) (hm : k ∉ m.keys) (hk : k ∈ n.keys) :
    (n.set k v).entries = m.entries ++ added.map fun e => if e.1 = k then (k, v) else e := by
  rw [set_entries_of_mem n k v hk, hn, map_append]
  congr 1
  refine (map_congr_left fun e he => ?_).trans (map_id _)
  have : e.1 ≠ k := fun hek => hm (hek ▸ mem_map_of_mem he)
  simp [this]

-- Entries appended under fresh keys are gone once every one of those keys is
-- deleted, and the map is the earlier one again, order included.
theorem entries_eraseAll (ks : List κ) (m : Map κ ν) :
    (ks.foldl erase m).entries = m.entries.filter fun e => e.1 ∉ ks := by
  induction ks generalizing m with
  | nil => simp
  | cons k rest ih =>
    rw [foldl_cons, ih (m.erase k)]
    simp only [erase, filter_filter]
    apply filter_congr
    simp [Bool.and_comm]

theorem eraseAll_append (m n : Map κ ν) (added : List (κ × ν)) (ks : List κ)
    (hn : n.entries = m.entries ++ added) (hadded : ∀ e ∈ added, e.1 ∈ ks)
    (hfresh : ∀ k ∈ ks, k ∉ m.keys) : ks.foldl erase n = m := by
  apply ext_entries
  rw [entries_eraseAll, hn, filter_append]
  have hm : m.entries.filter (fun e => e.1 ∉ ks) = m.entries := by
    apply filter_eq_self.mpr
    intro e he
    simpa using fun hk => hfresh e.1 hk (mem_map_of_mem he)
  have ha : added.filter (fun e => e.1 ∉ ks) = [] := by
    apply filter_eq_nil_iff.mpr
    intro e he
    simpa using hadded e he
  rw [hm, ha, append_nil]

section Equal

variable [DecidableEq ν]

theorem equal_iff (m n : Map κ ν) : m.equal n = true ↔ ∀ k, m.get? k = n.get? k := by
  unfold equal
  rw [Bool.and_eq_true, all_eq_true]
  simp only [beq_iff_eq]
  constructor
  · rintro ⟨hsize, hall⟩ k
    have hsub : ∀ j v, m.get? j = some v → n.get? j = some v := fun j v h =>
      hall (j, v) ((get?_eq_some_iff m j v).mp h)
    cases hm : m.get? k with
    | some v => exact (hsub k v hm).symm
    | none =>
      -- Both key lists are duplicate free and of one length, so the
      -- inclusion of the first in the second is an equality.
      by_contra hne
      have hkn : k ∈ n.keys := by
        by_contra hk
        exact hne ((get?_eq_none_iff n k).mpr hk).symm
      have hkm : k ∉ m.keys := (get?_eq_none_iff m k).mp hm
      have hinc : m.keys ⊆ n.keys.erase k := by
        intro j hj
        obtain ⟨v, hv⟩ := Option.isSome_iff_exists.mp ((mem_keys_iff_isSome m j).mp hj)
        have hjn : j ∈ n.keys := (mem_keys_iff_isSome n j).mpr (by simp [hsub j v hv])
        refine (mem_erase_of_ne ?_).mpr hjn
        rintro rfl
        exact hkm hj
      have hle := (subperm_of_subset m.nodup hinc).length_le
      have hlen := length_erase_of_mem hkn
      have hpos := length_pos_of_mem hkn
      simp only [size, keys, length_map] at hsize hle hlen hpos
      omega
  · intro h
    have hperm : m.keys.Perm n.keys := by
      refine (perm_ext_iff_of_nodup m.nodup n.nodup).mpr fun k => ?_
      have hk : k ∈ m.keys ↔ k ∈ n.keys := by
        rw [mem_keys_iff_isSome, mem_keys_iff_isSome, h k]
      exact hk
    refine ⟨?_, fun e he => ?_⟩
    · have hl := hperm.length_eq
      simpa only [size, keys, length_map] using hl
    · rw [← h e.1]
      exact (get?_eq_some_iff m e.1 e.2).mpr he

theorem equal_refl (m : Map κ ν) : m.equal m = true := (equal_iff m m).mpr fun _ => rfl

theorem equal_symm {m n : Map κ ν} (h : m.equal n = true) : n.equal m = true :=
  (equal_iff n m).mpr fun k => ((equal_iff m n).mp h k).symm

theorem equal_trans {m n : Map κ ν} (h : m.equal n = true) (h' : n.equal o = true) :
    m.equal o = true :=
  (equal_iff m o).mpr fun k => ((equal_iff m n).mp h k).trans ((equal_iff n o).mp h' k)

end Equal

end Map

end Chainloop.Go
