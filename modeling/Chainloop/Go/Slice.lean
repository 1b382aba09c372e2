import Mathlib.Data.List.Basic
import Mathlib.Tactic.Ring

namespace Chainloop.Go

open List Nat

-- A Go slice of pointers: the part of the backing array from the first element
-- to the capacity, of which the first `len` entries are visible. A `none` is a
-- nil pointer.
structure Slice (α : Type) where
  backing : List (Option α)
  len : Nat
  len_le : len ≤ backing.length
deriving DecidableEq

namespace Slice

variable {α : Type}

def nil : Slice α := ⟨[], 0, le_refl 0⟩

instance : Inhabited (Slice α) := ⟨nil⟩

def cap (s : Slice α) : Nat := s.backing.length

def elems (s : Slice α) : List (Option α) := s.backing.take s.len

def ofList (l : List α) : Slice α := ⟨l.map some, l.length, by simp⟩

-- append(s, xs...). It writes behind the visible part while the capacity lasts.
-- Otherwise it moves to a new array, whose size the runtime chooses (`grow`).
def append (grow : Nat → Nat → Nat) (s : Slice α) (xs : List α) : Slice α :=
  if h : s.len + xs.length ≤ s.cap then
    ⟨s.elems ++ xs.map some ++ s.backing.drop (s.len + xs.length), s.len + xs.length, by
      have := s.len_le
      simp only [cap] at h
      simp only [elems, length_append, length_take, length_map, length_drop]
      omega⟩
  else
    ⟨s.elems ++ xs.map some ++
        replicate (grow s.cap (s.len + xs.length) - (s.len + xs.length)) none,
      s.len + xs.length, by
      have := s.len_le
      simp only [elems, length_append, length_take, length_map, length_replicate]
      omega⟩

-- s[:n]. Go panics beyond the capacity, not beyond the length.
def reslice (s : Slice α) (n : Nat) : Option (Slice α) :=
  if h : n ≤ s.cap then some ⟨s.backing, n, h⟩ else none

-- The visible elements, unless one of them is nil and reading it panics.
def deref (s : Slice α) : Option (List α) := s.elems.mapM id

-- slices.DeleteFunc with a predicate that reads the pointer. The survivors move
-- to the front and the slots they leave behind are cleared.
def deleteFunc (del : α → Bool) (s : Slice α) : Option (Slice α) :=
  s.deref.map fun l =>
    let kept := l.filter fun a => !del a
    ⟨kept.map some ++ replicate (s.len - kept.length) none ++ s.backing.drop s.len,
      min kept.length s.len, by simp⟩

def Holds (s : Slice α) (l : List α) : Prop := s.elems = l.map some

@[simp] theorem length_elems (s : Slice α) : s.elems.length = s.len := by
  simp [elems, s.len_le]

variable {s : Slice α}

theorem Holds.len_eq {l : List α} (h : s.Holds l) : s.len = l.length := by
  have := congrArg length h
  simpa using this

theorem holds_nil : (nil : Slice α).Holds [] := rfl

theorem Holds.unique (h : s.Holds l) (h' : s.Holds l') : l = l' := by
  have he : l.map some = l'.map some := h.symm.trans h'
  exact map_injective_iff.mpr (Option.some_injective α) he

theorem mapM_id_map_some (l : List α) : (l.map some).mapM id = some l := by
  induction l with
  | nil => rfl
  | cons a rest ih => simp [mapM_cons, ih]

theorem Holds.deref (h : s.Holds l) : s.deref = some l := by
  rw [Slice.deref, h, mapM_id_map_some]

theorem holds_of_deref (h : s.deref = some l) : s.Holds l := by
  unfold Slice.deref at h
  unfold Holds
  generalize s.elems = elems at h ⊢
  induction elems generalizing l with
  | nil =>
    cases h
    rfl
  | cons a rest ih =>
    rw [mapM_cons] at h
    obtain ⟨b, hb, h⟩ := Option.bind_eq_some_iff.mp h
    obtain ⟨l', hrest, he⟩ := Option.bind_eq_some_iff.mp h
    cases he
    cases hb
    rw [ih hrest, map_cons]

@[simp] theorem elems_append (grow : Nat → Nat → Nat) (s : Slice α) (xs : List α) :
    (s.append grow xs).elems = s.elems ++ xs.map some := by
  have hl : (s.elems ++ xs.map some).length = s.len + xs.length := by simp
  unfold append
  split_ifs with h
  · simp only [elems] at hl ⊢
    rw [← hl, take_left]
  · simp only [elems] at hl ⊢
    rw [← hl, take_left]

theorem Holds.append (grow : Nat → Nat → Nat) (h : s.Holds l) (xs : List α) :
    (s.append grow xs).Holds (l ++ xs) := by
  rw [Holds, elems_append, h, map_append]

theorem reslice_of_extended (s t : Slice α) (more : List (Option α))
    (h : t.elems = s.elems ++ more) :
    ∃ r, t.reslice s.len = some r ∧ r.elems = s.elems := by
  have hlen : s.len ≤ t.len := by
    have := congrArg length h
    simp only [length_elems, length_append] at this
    omega
  have hcap : s.len ≤ t.cap := hlen.trans t.len_le
  refine ⟨⟨t.backing, s.len, hcap⟩, by simp [reslice, hcap], ?_⟩
  calc t.backing.take s.len = t.elems.take s.len := by
        rw [elems, take_take, min_eq_left hlen]
    _ = (s.elems ++ more).take s.len := by rw [h]
    _ = s.elems := take_left' (length_elems s)

theorem Holds.deleteFunc {l : List α} (h : s.Holds l) (del : α → Bool) :
    ∃ t, s.deleteFunc del = some t ∧ t.Holds (l.filter fun a => !del a) := by
  unfold Slice.deleteFunc
  rw [h.deref]
  refine ⟨_, rfl, ?_⟩
  have hle : (l.filter fun a => !del a).length ≤ s.len := by
    rw [h.len_eq]
    exact length_filter_le _ l
  simp only [min_eq_left hle, append_assoc]
  exact take_left' (by simp)

end Slice

end Chainloop.Go
