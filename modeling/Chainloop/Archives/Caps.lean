import Mathlib.Algebra.BigOperators.Group.List.Basic
import Chainloop.Archives.Walk

namespace Chainloop.Archives

open Go Option

variable {σ : Type}

structure Source (σ : Type) where
  read : σ → Nat → (List UInt8 × Option Ending) × σ
  bounded : ∀ s len, (read s len).1.1.length ≤ len

def int64 (v : Int) : Int := v.bmod (2 ^ 64)

-- p[:probe] for a longer buffer, which panics for a negative bound.
def bufferFor (probe : Int) (len : Nat) : Option Nat :=
  if probe < len then if probe < 0 then none else some probe.toNat else some len

def tooLarge : List UInt8 × Option Ending := ([], some (.failed errArchiveTooLarge))

-- A Read of a capReader: what the caller gets, and what the reader behind it gave.
structure CapCall where
  given : List UInt8 × Option Ending
  behind : Option (List UInt8 × Option Ending)
deriving DecidableEq

def capRead (source : Source σ) (max total : Int) (s : σ) (len : Nat) : Option (CapCall × Int × σ) :=
  if max < total then some (⟨tooLarge, none⟩, total, s)
  else do
    let len ← bufferFor (int64 (max - total + 1)) len
    let (r, s) := source.read s len
    let total := int64 (total + r.1.length)
    return (⟨if max < total then tooLarge else r, some r⟩, total, s)

-- A schedule names for each Read the capReader and the length of the buffer. All of them
-- count into one total.
def runCaps (source : Source σ) (max : Int) :
    Int → (Nat → σ) → List (Nat × Nat) → Option (List CapCall)
  | _, _, [] => some []
  | total, readers, (i, len) :: schedule => do
    let (call, total, s) ← capRead source max total (readers i) len
    let calls ← runCaps source max total (Function.update readers i s) schedule
    return call :: calls

def bytesGiven (calls : List CapCall) : Int := ((calls.map fun c => c.given.1.length).sum : Nat)

def bytesBehind (calls : List CapCall) : Int :=
  ((calls.map fun c => (c.behind.map fun r => r.1.length).getD 0).sum : Nat)

-- The Reads one after the other on the readers as each Read leaves them: the reader behind is
-- asked with the buffer, cut to one byte more than is left, as long as the bytes it and the others
-- have given do not pass the limit.
inductive ReadsBehind (source : Source σ) (max : Int) :
    Int → (Nat → σ) → List (Nat × Nat) → List CapCall → Prop
  | nil (total : Int) (readers : Nat → σ) : ReadsBehind source max total readers [] []
  | refused {total : Int} {len : Nat} (hover : max < total)
      (h : ReadsBehind source max total readers schedule calls) :
      ReadsBehind source max total readers ((i, len) :: schedule) (⟨given, none⟩ :: calls)
  | asked {total : Int} {k len : Nat} (hleft : total ≤ max)
      (hk : (k : Int) = min (len : Int) (max - total + 1)) (hread : source.read (readers i) k = (r, s))
      (h : ReadsBehind source max (total + r.1.length) (Function.update readers i s) schedule calls) :
      ReadsBehind source max total readers ((i, len) :: schedule) (⟨given, some r⟩ :: calls)

variable {max total : Int} {calls : List CapCall}

theorem int64_of_small (h : 0 ≤ v) (hv : v < 2 ^ 63) : int64 v = v :=
  Int.bmod_eq_of_le (by omega) (by omega)

-- Nothing overflows, since a Read asks for one byte more than is left at most.
theorem capRead_cases (source : Source σ) (h0 : 0 ≤ total) (hmax : max < 2 ^ 63 - 1)
    (s : σ) (len : Nat) : max < total ∧ capRead source max total s len = some (⟨tooLarge, none⟩, total, s) ∨
      total ≤ max ∧ ∃ (k : Nat) (r : List UInt8 × Option Ending) (s' : σ),
        (k : Int) = min (len : Int) (max - total + 1) ∧ source.read s k = (r, s') ∧
        capRead source max total s len =
          some (⟨if max < total + r.1.length then tooLarge else r, some r⟩, total + r.1.length, s') := by
  unfold capRead
  split_ifs with htotal
  · exact .inl ⟨htotal, rfl⟩
  · have hprobe : int64 (max - total + 1) = max - total + 1 := int64_of_small (by omega) (by omega)
    obtain ⟨k, hk, hbuffer⟩ : ∃ k : Nat, (k : Int) = min (len : Int) (max - total + 1) ∧
        bufferFor (max - total + 1) len = some k := by
      unfold bufferFor
      split_ifs with hlong hneg
      · omega
      · exact ⟨_, by omega, rfl⟩
      · exact ⟨len, by omega, rfl⟩
    have hbounded := source.bounded s k
    have hsum : int64 (total + (source.read s k).1.1.length) = total + (source.read s k).1.1.length :=
      int64_of_small (by omega) (by omega)
    refine .inr ⟨by omega, k, (source.read s k).1, (source.read s k).2, hk, rfl, ?_⟩
    simp [hprobe, hbuffer, hsum]

structure CapLaws (max total : Int) (calls : List CapCall) : Prop where
  within : total ≤ max → total + bytesGiven calls ≤ max
  beyond : max < total → bytesGiven calls = 0
  whole : total + bytesBehind calls ≤ max → ∀ c ∈ calls, c.behind = some c.given
  refused : ∀ before c after, calls = before ++ c :: after →
    max < total + bytesBehind (before ++ [c]) → c.given = tooLarge

theorem bytesGiven_cons (c : CapCall) (calls : List CapCall) :
    bytesGiven (c :: calls) = c.given.1.length + bytesGiven calls := by
  simp [bytesGiven]

theorem bytesBehind_cons (c : CapCall) (calls : List CapCall) :
    bytesBehind (c :: calls) = ((c.behind.map fun r => r.1.length).getD 0 : Nat) + bytesBehind calls := by
  simp [bytesBehind]

theorem bytesBehind_nonneg (calls : List CapCall) : 0 ≤ bytesBehind calls := Int.natCast_nonneg _

theorem CapLaws.refuse (h : CapLaws max total calls) (htotal : max < total) :
    CapLaws max total (⟨tooLarge, none⟩ :: calls) where
  within hle := by omega
  beyond _ := by
    rw [bytesGiven_cons, h.beyond htotal]
    rfl
  whole hle := by
    have := bytesBehind_nonneg (⟨tooLarge, none⟩ :: calls)
    omega
  refused before c after heq hover := by
    cases before with
    | nil =>
      cases heq
      rfl
    | cons first before =>
      cases heq
      rw [List.cons_append, bytesBehind_cons] at hover
      exact h.refused before c after rfl (by simpa using hover)

theorem CapLaws.pass {r : List UInt8 × Option Ending} (h : CapLaws max (total + r.1.length) calls)
    (htotal : total ≤ max) :
    CapLaws max total (⟨if max < total + r.1.length then tooLarge else r, some r⟩ :: calls) where
  within _ := by
    rw [bytesGiven_cons]
    split_ifs with hover
    · rw [h.beyond hover]
      simpa [tooLarge] using htotal
    · have := h.within (by omega)
      dsimp only
      omega
  beyond hover := by omega
  whole hle := by
    rw [bytesBehind_cons] at hle
    have hrest := bytesBehind_nonneg calls
    simp only [map_some, getD_some] at hle
    rw [List.forall_mem_cons, if_neg (by omega)]
    exact ⟨rfl, h.whole (by omega)⟩
  refused before c after heq hover := by
    cases before with
    | nil =>
      cases heq
      exact if_pos (by simpa [bytesBehind] using hover)
    | cons first before =>
      cases heq
      rw [List.cons_append, bytesBehind_cons, ← Int.add_assoc] at hover
      exact h.refused before c after rfl hover

theorem runCaps_laws (source : Source σ) (hmax : max < 2 ^ 63 - 1) (schedule : List (Nat × Nat))
    (total : Int) (h0 : 0 ≤ total) (readers : Nat → σ) :
    ∃ calls, runCaps source max total readers schedule = some calls ∧
      ReadsBehind source max total readers schedule calls ∧ CapLaws max total calls := by
  induction schedule generalizing total readers with
  | nil =>
    refine ⟨[], rfl, .nil total readers, fun h => ?_, fun _ => rfl, nofun, fun before c after heq => ?_⟩
    · simpa [bytesGiven] using h
    · cases before <;> cases heq
  | cons call schedule ih =>
    obtain ⟨i, len⟩ := call
    rcases capRead_cases source h0 hmax (readers i) len with
      ⟨hover, hcall⟩ | ⟨hle, k, r, s', hk, hread, hcall⟩
    · obtain ⟨calls, hrun, hbehind, hlaws⟩ := ih total h0 readers
      exact ⟨_, by simp [runCaps, hcall, hrun], .refused hover hbehind, hlaws.refuse hover⟩
    · obtain ⟨calls, hrun, hbehind, hlaws⟩ :=
        ih (total + r.1.length) (by omega) (Function.update readers i s')
      exact ⟨_, by simp [runCaps, hcall, hrun], .asked hle hk hread hbehind, hlaws.pass hle⟩

theorem capped_reads_within_limit (source : Source σ) (max : Int) (h0 : 0 ≤ max) (hmax : max < 2 ^ 63 - 1)
    (readers : Nat → σ) (schedule : List (Nat × Nat)) :
    ∃ calls, runCaps source max 0 readers schedule = some calls ∧
      ReadsBehind source max 0 readers schedule calls ∧ bytesGiven calls ≤ max ∧
      (bytesBehind calls ≤ max → ∀ c ∈ calls, c.behind = some c.given) ∧
      ∀ before c after, calls = before ++ c :: after → max < bytesBehind (before ++ [c]) →
        c.given = tooLarge := by
  obtain ⟨calls, hrun, hbehind, hlaws⟩ :=
    runCaps_laws source hmax schedule 0 (Int.le_refl 0) readers
  have hwithin := hlaws.within h0
  have hwhole := hlaws.whole
  have hrefused := hlaws.refused
  simp only [Int.zero_add] at hwithin hwhole hrefused
  exact ⟨calls, hrun, hbehind, hwithin, hwhole, hrefused⟩

def byteSource : Source (List UInt8) where
  read bytes len := ((bytes.take len, if bytes.length ≤ len then some .eof else none), bytes.drop len)
  bounded bytes len := List.length_take_le len bytes

def passed (r : List UInt8 × Option Ending) : CapCall := ⟨r, some r⟩

-- Two readers of two bytes each: a limit of four lets everything through, and with a limit of
-- three the fourth byte is refused, as is every Read after it.
theorem two_capped_readers :
    (∃ calls, runCaps byteSource 4 0 (fun _ => [1, 2]) [(0, 8), (1, 1), (1, 8)] = some calls ∧
      calls.map CapCall.behind =
        [some ([1, 2], some .eof), some ([1], none), some ([2], some .eof)] ∧
      ∀ c ∈ calls, c.behind = some c.given) ∧
    ∃ third fourth, runCaps byteSource 3 0 (fun _ => [1, 2]) [(0, 8), (1, 1), (1, 8), (1, 8)] =
        some [passed ([1, 2], some .eof), passed ([1], none), third, fourth] ∧
      third.given = tooLarge ∧ fourth.given = tooLarge := by
  constructor
  · obtain ⟨calls, hrun, -, -, hwhole, -⟩ := capped_reads_within_limit byteSource 4 (by decide)
      (by decide) (fun _ => [1, 2]) [(0, 8), (1, 1), (1, 8)]
    obtain rfl : [passed ([1, 2], some .eof), passed ([1], none), passed ([2], some .eof)] = calls :=
      Option.some.inj (Eq.trans (by decide +kernel) hrun)
    exact ⟨_, hrun, rfl, hwhole (by decide)⟩
  · obtain ⟨calls, hrun, -, -, -, hrefused⟩ := capped_reads_within_limit byteSource 3
      (by decide) (by decide) (fun _ => [1, 2]) [(0, 8), (1, 1), (1, 8), (1, 8)]
    obtain rfl : [passed ([1, 2], some .eof), passed ([1], none),
        ⟨tooLarge, some ([2], some .eof)⟩, ⟨tooLarge, none⟩] = calls :=
      Option.some.inj (Eq.trans (by decide +kernel) hrun)
    exact ⟨_, _, hrun, hrefused [_, _] _ [_] rfl (by decide), hrefused [_, _, _] _ [] rfl (by decide)⟩

end Chainloop.Archives
