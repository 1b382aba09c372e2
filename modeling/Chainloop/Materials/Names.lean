import Mathlib.Data.Fintype.Card
import Chainloop.Go.Map
import Chainloop.Go.Strings

namespace Chainloop.Materials

open Go String Nat

def isNameChar (c : Char) : Bool := ('a' ≤ c && c ≤ 'z') || ('0' ≤ c && c ≤ '9')

-- unicode.ToLower, as far as its result can be a name character: the Latin
-- capitals, the dotted capital I and the Kelvin sign.
def toLowerName (c : Char) : Char :=
  if c.val = 0x130 then 'i' else if c.val = 0x212a then 'k' else c.toLower

-- The loop of SanitizeMaterialName: a hyphen is pending after a run of other
-- characters, and is written only if something has been written before.
def sanitizeFrom (pendingHyphen started : Bool) : List Char → List Char
  | [] => []
  | c :: cs =>
    let r := toLowerName c
    if isNameChar r then
      if pendingHyphen && started then '-' :: r :: sanitizeFrom false true cs
      else r :: sanitizeFrom false true cs
    else sanitizeFrom true started cs

def sanitizeMaterialName (s : String) : String := ofList (sanitizeFrom false false s.toList)

structure NameAllocator where
  used : List String
  named : Map String Nat
deriving DecidableEq

def newNameAllocator (existing : List String) : NameAllocator := ⟨existing, .empty⟩

def nameOr (fallback base : String) : String :=
  if sanitizeMaterialName base = "" then fallback else sanitizeMaterialName base

def candidateName (b : String) (n : Nat) : String :=
  if n = 0 then b else b ++ "-" ++ n.repr

def firstFree (used : List String) (b : String) : Nat → Nat → Nat
  | 0, n => n
  | fuel + 1, n => if used.contains (candidateName b n) then firstFree used b fuel (n + 1) else n

def allocateNamed (a : NameAllocator) (base : String) : String × NameAllocator :=
  let b := nameOr "material" base
  let n := firstFree a.used b a.used.length (a.named.getD b 0)
  (candidateName b n, ⟨candidateName b n :: a.used, a.named.set b (n + 1)⟩)

theorem candidateName_injective (b : String) : Function.Injective (candidateName b) := by
  intro m n h
  have hne (k : Nat) : b ≠ b ++ "-" ++ k.repr := by
    intro he
    have hlen := congrArg length he
    simp only [length_append] at hlen
    have : "-".length = 1 := rfl
    omega
  unfold candidateName at h
  split_ifs at h with hm hn hn
  · omega
  · exact absurd h (hne n)
  · exact absurd h.symm (hne m)
  · have hrepr : m.repr = n.repr := (append_right_inj _).mp h
    have hdigits : toDigits 10 m = toDigits 10 n := by
      rw [← toList_repr, ← toList_repr, hrepr]
    rw [← ofDigitChars_toDigits (b := 10) (n := m) (by omega) (by omega), hdigits,
      ofDigitChars_toDigits (by omega) (by omega)]

-- Either the search stopped at a free name, or it refused as many as it had fuel.
theorem firstFree_spec (used : List String) (b : String) (fuel n : Nat) :
    candidateName b (firstFree used b fuel n) ∉ used ∨
      ∀ i < fuel, candidateName b (n + i) ∈ used := by
  induction fuel generalizing n with
  | zero => exact .inr (by simp)
  | succ fuel ih =>
    by_cases hused : used.contains (candidateName b n)
    · have hmem : candidateName b n ∈ used := by simpa using hused
      simp only [firstFree, hused]
      rcases ih (n + 1) with hfree | hall
      · exact .inl hfree
      · refine .inr fun i hi => ?_
        cases i with
        | zero => exact hmem
        | succ i =>
          have := hall i (by omega)
          rwa [show n + 1 + i = n + (i + 1) by omega] at this
    · simp only [firstFree, hused]
      exact .inl (by simpa using hused)

theorem firstFree_exhausted (used : List String) (b : String) (fuel n : Nat)
    (hall : ∀ i < fuel, candidateName b (n + i) ∈ used) : firstFree used b fuel n = n + fuel := by
  induction fuel generalizing n with
  | zero => rfl
  | succ fuel ih =>
    have h0 : used.contains (candidateName b n) = true := by
      simpa using hall 0 (by omega)
    simp only [firstFree, h0, if_true]
    rw [ih (n + 1) fun i hi => by
      rw [show n + 1 + i = n + (i + 1) by omega]
      exact hall (i + 1) (by omega)]
    omega

theorem not_all_used (used : List String) (b : String) (n : Nat) :
    ¬ ∀ i < used.length + 1, candidateName b (n + i) ∈ used := by
  intro hall
  have hsub : (Finset.range (used.length + 1)).image (fun i => candidateName b (n + i)) ⊆
      used.toFinset := by
    intro x hx
    obtain ⟨i, hi, rfl⟩ := Finset.mem_image.mp hx
    exact List.mem_toFinset.mpr (hall i (Finset.mem_range.mp hi))
  have hcard := Finset.card_le_card hsub
  rw [Finset.card_image_of_injective _ fun i j h => by
    have := candidateName_injective b h
    omega, Finset.card_range] at hcard
  have := used.toFinset_card_le
  omega

theorem allocateNamed_fresh (a : NameAllocator) (base : String) :
    (allocateNamed a base).1 ∉ a.used := by
  unfold allocateNamed
  simp only
  generalize nameOr "material" base = b
  generalize a.named.getD b 0 = n
  rcases firstFree_spec a.used b a.used.length n with hfree | hall
  · exact hfree
  · rw [firstFree_exhausted a.used b _ n hall]
    intro hmem
    refine not_all_used a.used b n fun i hi => ?_
    by_cases hlast : i < a.used.length
    · exact hall i hlast
    · rwa [show i = a.used.length by omega]

@[simp] theorem allocateNamed_used (a : NameAllocator) (base : String) :
    (allocateNamed a base).2.used = (allocateNamed a base).1 :: a.used := rfl

end Chainloop.Materials
