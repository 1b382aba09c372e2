import Chainloop.Go.Map

namespace Chainloop.Go

-- Maps are reached by their addresses, so that two variables may hold the same map.
structure MapHeap (κ ν : Type) where
  maps : List (Map κ ν)

abbrev MapRef := Option Nat

namespace MapHeap

variable {κ ν : Type}

def load (h : MapHeap κ ν) : MapRef → Map κ ν
  | none => .empty
  | some address => h.maps[address]?.getD .empty

def push (h : MapHeap κ ν) (m : Map κ ν) : MapHeap κ ν := ⟨h.maps ++ [m]⟩

def make (h : MapHeap κ ν) : MapHeap κ ν × Nat := (h.push .empty, h.maps.length)

def Allocated (h : MapHeap κ ν) (r : MapRef) : Prop := ∀ address ∈ r, address < h.maps.length

def Extends (h h' : MapHeap κ ν) : Prop := h.maps <+: h'.maps

theorem Extends.refl (h : MapHeap κ ν) : Extends h h := List.prefix_rfl

theorem Extends.trans (h₁₂ : Extends h₁ h₂) (h₂₃ : Extends h₂ h₃) :
    Extends h₁ h₃ := List.IsPrefix.trans h₁₂ h₂₃

variable {h h' : MapHeap κ ν}

theorem Extends.load (hext : Extends h h') (hr : h.Allocated r) :
    h'.load r = h.load r := by
  cases r with
  | none => rfl
  | some address =>
    obtain ⟨added, hadded⟩ := hext
    have hlt : address < h.maps.length := hr address rfl
    simp only [MapHeap.load, ← hadded, List.getElem?_append_left hlt]

theorem Extends.allocated (hext : Extends h h') (hr : h.Allocated r) :
    h'.Allocated r :=
  fun address haddress => Nat.lt_of_lt_of_le (hr address haddress) hext.length_le

theorem extends_push (h : MapHeap κ ν) (m : Map κ ν) : Extends h (h.push m) :=
  List.prefix_append _ _

theorem load_push (h : MapHeap κ ν) (m : Map κ ν) : (h.push m).load (some h.maps.length) = m := by
  simp [load, push]

theorem allocated_push (h : MapHeap κ ν) (m : Map κ ν) :
    (h.push m).Allocated (some h.maps.length) := by
  rintro address ⟨⟩
  simp [push]

variable [DecidableEq κ]

def store (h : MapHeap κ ν) (address : Nat) (k : κ) (v : ν) : MapHeap κ ν :=
  ⟨h.maps.modify address (·.set k v)⟩

theorem store_push (h : MapHeap κ ν) (m : Map κ ν) (k : κ) (v : ν) :
    (h.push m).store h.maps.length k v = h.push (m.set k v) := by
  have hmodify (l : List (Map κ ν)) : (l ++ [m]).modify l.length (·.set k v) = l ++ [m.set k v] := by
    induction l with
    | nil => rfl
    | cons x rest ih => exact congrArg (x :: ·) ih
  exact congrArg MapHeap.mk (hmodify h.maps)

theorem foldl_store_push (h : MapHeap κ ν) (m : Map κ ν) {α : Type} (key : α → κ)
    (value : Map κ ν → α → ν) (l : List α) :
    l.foldl (fun g x => g.store h.maps.length (key x) (value (g.load (some h.maps.length)) x))
        (h.push m) =
      h.push (l.foldl (fun n x => n.set (key x) (value n x)) m) := by
  induction l generalizing m with
  | nil => rfl
  | cons x rest ih => rw [List.foldl_cons, List.foldl_cons, load_push, store_push, ih]

-- The call leaves the maps of `h` as they were and returns a map with the entries of `m`.
structure Computes (h : MapHeap κ ν) (out : MapHeap κ ν × MapRef) (m : Map κ ν) : Prop where
  unmodified : h.Extends out.1
  allocated : out.1.Allocated out.2
  get? : ∀ k, (out.1.load out.2).get? k = m.get? k

theorem Computes.of_push (h : MapHeap κ ν) {m n : Map κ ν} (hget : ∀ k, m.get? k = n.get? k) :
    Computes h (h.push m, some h.maps.length) n where
  unmodified := extends_push h m
  allocated := allocated_push h m
  get? k := by rw [load_push, hget]

end MapHeap

-- The order in which range visits a map. Go chooses it anew for every loop, and so does this
-- one: between two loops over a map that is not empty the heap has changed.
structure RangeOrder (κ ν : Type) where
  entries : MapHeap κ ν → Map κ ν → List (κ × ν)
  perm : ∀ h m, (entries h m).Perm m.entries

namespace MapHeap

variable {κ ν : Type} [DecidableEq κ] (order : RangeOrder κ ν)

def copyTo (h : MapHeap κ ν) (address : Nat) (src : MapRef) : MapHeap κ ν :=
  (order.entries h (h.load src)).foldl (fun g e => g.store address e.1 e.2) h

theorem exists_foldl_range_push (combine : Option ν → ν → ν) (h g : MapHeap κ ν) (m n : Map κ ν) :
    ∃ m', (order.entries g n).foldl (fun g e => g.store h.maps.length e.1
          (combine ((g.load (some h.maps.length)).get? e.1) e.2)) (h.push m) = h.push m' ∧
      ∀ k, m'.get? k =
        match n.get? k with
        | none => m.get? k
        | some v => some (combine (m.get? k) v) := by
  refine ⟨_, foldl_store_push h m Prod.fst (fun m e => combine (m.get? e.1) e.2) _, fun k => ?_⟩
  have hcombine := Map.get?_foldl_combine combine (n.reorder _ (order.perm g n)) m k
  rw [Map.get?_reorder] at hcombine
  exact hcombine

theorem exists_copyTo_push (h : MapHeap κ ν) (m : Map κ ν) (hsrc : h.Allocated src) :
    ∃ m', (h.push m).copyTo order h.maps.length src = h.push m' ∧
      ∀ k, m'.get? k = ((h.load src).get? k).or (m.get? k) := by
  obtain ⟨m', hheap, hget⟩ :=
    exists_foldl_range_push order (fun _ v => v) h (h.push m) m (h.load src)
  refine ⟨m', ?_, fun k => ?_⟩
  · unfold copyTo
    rw [(h.extends_push m).load hsrc]
    exact hheap
  · rw [hget]
    cases (h.load src).get? k <;> rfl

end MapHeap

end Chainloop.Go
