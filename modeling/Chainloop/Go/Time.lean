import Mathlib.Algebra.GroupWithZero.Nat
import Mathlib.Algebra.Ring.Int.Defs
import Mathlib.Data.List.Basic
import Mathlib.Data.List.TakeWhile

-- The calendar of Go's time package and its RFC 3339 texts. An instant is the number of
-- nanoseconds since the epoch.
namespace Chainloop.Go.Time

open List Option Nat

structure Date where
  year : Nat
  month : Nat
  day : Nat
deriving DecidableEq

def isLeap (year : Nat) : Bool := year % 4 == 0 && (year % 100 != 0 || year % 400 == 0)

def monthLengths (year : Nat) : List Nat :=
  [31, if isLeap year then 29 else 28, 31, 30, 31, 30, 31, 31, 30, 31, 30, 31]

def daysIn (month year : Nat) : Nat := (monthLengths year).getD (month - 1) 0

def daysBefore (month year : Nat) : Nat := ((monthLengths year).take (month - 1)).sum

def daysBeforeYear (year : Nat) : Int :=
  let y : Int := year - 1
  365 * y + y / 4 - y / 100 + y / 400

def daysSince (d : Date) : Int := daysBeforeYear d.year + daysBefore d.month d.year + (d.day - 1)

def monthDay : List Nat → Nat → Nat × Nat
  | [], day => (0, day)
  | length :: rest, day =>
    if day < length then (0, day)
    else
      let (month, day) := monthDay rest (day - length)
      (month + 1, day)

-- The year and the day of it. Cycles of 400, 100 and 4 years are cut off first; the last
-- cycle of 100 years in one of 400, and the last year in one of 4, is a day longer.
def yearDay (days : Nat) : Nat × Nat :=
  let n400 := days / 146097
  let d400 := days % 146097
  let n100 := d400 / 36524 - d400 / 36524 / 4
  let d100 := d400 - 36524 * n100
  let n4 := d100 / 1461
  let d4 := d100 % 1461
  let n1 := d4 / 365 - d4 / 365 / 4
  (400 * n400 + 100 * n100 + 4 * n4 + n1 + 1, d4 - 365 * n1)

def dateOf (days : Nat) : Date :=
  let (year, yday) := yearDay days
  let (month, day) := monthDay (monthLengths year) yday
  ⟨year, month + 1, day + 1⟩

def digit (n : Nat) : Char := Char.ofNat (48 + n)

-- appendInt: at least the given number of digits.
def appendInt : Nat → Nat → List Char
  | 0, x => if x = 0 then [] else toDigits 10 x
  | width + 1, x => appendInt width (x / 10) ++ [digit (x % 10)]

-- The fraction of a second, without the zeros at its end.
def formatNano (nsec : Nat) : List Char :=
  if nsec = 0 then [] else '.' :: ((appendInt 9 nsec).reverse.dropWhile (· == '0')).reverse

-- The zone as hours and minutes east of Greenwich, for an offset in seconds.
def formatZone (offset : Int) : List Char :=
  if offset = 0 then ['Z']
  else
    let zone := (offset.tdiv 60).natAbs
    (if offset.tdiv 60 < 0 then '-' else '+') ::
      appendInt 2 (zone / 60) ++ ':' :: appendInt 2 (zone % 60)

def epoch : Nat := 62135596800

def localSeconds (t : Nat) (offset : Int) : Nat :=
  ((epoch + t / 1000000000 : Nat) + offset : Int).toNat

-- t.Format(time.RFC3339Nano) for a time whose location has the given offset.
def formatRFC3339Nano (t : Nat) (offset : Int) : List Char :=
  let seconds := localSeconds t offset
  let date := dateOf (seconds / 86400)
  let clock := seconds % 86400
  appendInt 4 date.year ++ '-' :: appendInt 2 date.month ++ '-' :: appendInt 2 date.day ++
    'T' :: appendInt 2 (clock / 3600) ++ ':' :: appendInt 2 (clock / 60 % 60) ++
    ':' :: appendInt 2 (clock % 60) ++ formatNano (t % 1000000000) ++ formatZone offset

def isDigit (c : Char) : Bool := '0' ≤ c && c ≤ '9'

def readDigit (x : Nat) (c : Char) : Option Nat :=
  if isDigit c then some (x * 10 + (c.toNat - 48)) else none

def readDigits (s : List Char) : Option Nat := s.foldlM readDigit 0

def parseUint (s : List Char) (min max : Nat) : Option Nat := do
  let x ← readDigits s
  if x < min ∨ max < x then none else some x

def parseNanoseconds : List Char → Nat × List Char
  | '.' :: c :: rest =>
    if isDigit c then
      let digits := (c :: rest).takeWhile isDigit
      let kept := digits.take 9
      ((readDigits kept).getD 0 * 10 ^ (9 - kept.length), (c :: rest).dropWhile isDigit)
    else (0, '.' :: c :: rest)
  | s => (0, s)

def parseZone : List Char → Option Int
  | ['Z'] => some 0
  | [sign, h1, h2, colon, m1, m2] => do
    let hr ← parseUint [h1, h2] 0 23
    let mm ← parseUint [m1, m2] 0 59
    if (sign = '-' ∨ sign = '+') ∧ colon = ':' then
      let zoneOffset : Int := (hr * 60 + mm : Nat) * 60
      some (if sign = '-' then -zoneOffset else zoneOffset)
    else none
  | _ => none

def parseRFC3339 : List Char → Option Int
  | y1 :: y2 :: y3 :: y4 :: dash1 :: m1 :: m2 :: dash2 :: d1 :: d2 :: tee :: h1 :: h2 :: colon1 ::
      n1 :: n2 :: colon2 :: s1 :: s2 :: rest => do
      let year ← parseUint [y1, y2, y3, y4] 0 9999
      let month ← parseUint [m1, m2] 1 12
      let day ← parseUint [d1, d2] 1 (daysIn month year)
      let hour ← parseUint [h1, h2] 0 23
      let min ← parseUint [n1, n2] 0 59
      let sec ← parseUint [s1, s2] 0 59
      if dash1 = '-' ∧ dash2 = '-' ∧ tee = 'T' ∧ colon1 = ':' ∧ colon2 = ':' then
        let (nsec, rest) := parseNanoseconds rest
        let zoneOffset ← parseZone rest
        let seconds := daysSince ⟨year, month, day⟩ * 86400 + (hour * 3600 + min * 60 + sec : Nat)
        return (seconds - epoch - zoneOffset) * 1000000000 + nsec
      else none
  | _ => none

theorem isLeap_iff (year : Nat) :
    isLeap year = true ↔ year % 4 = 0 ∧ (year % 100 ≠ 0 ∨ year % 400 = 0) := by
  simp [isLeap]

theorem monthLengths_sum (year : Nat) :
    (monthLengths year).sum = if isLeap year then 366 else 365 := by
  unfold monthLengths
  cases isLeap year <;> rfl

theorem exists_cycles (days : Nat) : ∃ n400 n100 n4 n1,
    (yearDay days).1 = 400 * n400 + 100 * n100 + 4 * n4 + n1 + 1 ∧
      146097 * n400 + 36524 * n100 + 1461 * n4 + 365 * n1 + (yearDay days).2 = days ∧
      n100 ≤ 3 ∧ n4 ≤ 24 ∧ n1 ≤ 3 ∧ (yearDay days).2 ≤ 365 ∧
      ((yearDay days).2 = 365 → n1 = 3 ∧ (n4 ≠ 24 ∨ n100 = 3)) := by
  obtain ⟨d400, hd400⟩ : ∃ d, d = days % 146097 := ⟨_, rfl⟩
  obtain ⟨n100, hn100⟩ : ∃ n, n = d400 / 36524 - d400 / 36524 / 4 := ⟨_, rfl⟩
  have hbound : n100 ≤ 3 ∧ 36524 * n100 ≤ d400 ∧ (n100 ≠ 3 → d400 - 36524 * n100 < 36524) ∧
      d400 - 36524 * n100 ≤ 36524 := by omega
  obtain ⟨d100, hd100⟩ : ∃ d, d = d400 - 36524 * n100 := ⟨_, rfl⟩
  obtain ⟨d4, hd4⟩ : ∃ d, d = d100 % 1461 := ⟨_, rfl⟩
  obtain ⟨n1, hn1⟩ : ∃ n, n = d4 / 365 - d4 / 365 / 4 := ⟨_, rfl⟩
  have hyear : n1 ≤ 3 ∧ 365 * n1 ≤ d4 ∧ d4 - 365 * n1 ≤ 365 ∧
      (d4 - 365 * n1 = 365 → d4 = 1460 ∧ n1 = 3) := by omega
  have hsplit : yearDay days = (400 * (days / 146097) + 100 * n100 + 4 * (d100 / 1461) + n1 + 1,
      d4 - 365 * n1) := by
    subst hn1 hd4 hd100 hn100 hd400
    rfl
  refine ⟨days / 146097, n100, d100 / 1461, n1, ?_⟩
  rw [hsplit]
  refine ⟨rfl, ?_, hbound.1, ?_, hyear.1, hyear.2.2.1, fun hlast => ⟨(hyear.2.2.2 hlast).2, ?_⟩⟩
  · simp only
    omega
  · omega
  · have hd4 := (hyear.2.2.2 hlast).1
    omega

-- The last year of four, unless it is also the last of a hundred and not of four hundred.
theorem isLeap_of_cycles (h4 : n4 ≤ 24) (h : n4 ≠ 24 ∨ n100 = 3) :
    isLeap (400 * n400 + 100 * n100 + 4 * n4 + 3 + 1) = true := by
  rw [isLeap_iff]
  refine ⟨by omega, ?_⟩
  by_cases hn4 : n4 = 24
  · have hn100 : n100 = 3 := h.resolve_left (fun hne => hne hn4)
    exact .inr (by omega)
  · exact .inl (by omega)

theorem yearDay_spec (days : Nat) : daysBeforeYear (yearDay days).1 + (yearDay days).2 = days ∧
      (yearDay days).2 < (monthLengths (yearDay days).1).sum := by
  obtain ⟨n400, n100, n4, n1, hyear, hdays, h100, h4, h1, hlength, hlast⟩ := exists_cycles days
  generalize yearDay days = y at *
  obtain ⟨year, yday⟩ := y
  simp only at *
  constructor
  · have hy : ((year : Nat) : Int) - 1 = (400 * n400 + 100 * n100 + 4 * n4 + n1 : Nat) := by omega
    have hcenturies : (400 * n400 + 100 * n100 + 4 * n4 + n1) / 100 = 4 * n400 + n100 := by omega
    have hcycles : (400 * n400 + 100 * n100 + 4 * n4 + n1) / 400 = n400 := by omega
    rw [daysBeforeYear, hy]
    omega
  · rw [monthLengths_sum]
    split_ifs with hleap
    · omega
    · -- A day more would make it a leap year.
      have hshort : yday ≠ 365 := by
        intro hyday
        obtain ⟨hn1, hcycle⟩ := hlast hyday
        rw [hyear, hn1] at hleap
        exact hleap (isLeap_of_cycles h4 hcycle)
      omega

theorem monthDay_spec (lengths : List Nat) (day : Nat) (h : day < lengths.sum) :
    (monthDay lengths day).1 < lengths.length ∧
      (lengths.take (monthDay lengths day).1).sum + (monthDay lengths day).2 = day ∧
      (monthDay lengths day).2 < lengths.getD (monthDay lengths day).1 0 := by
  induction lengths generalizing day with
  | nil => simp at h
  | cons length rest ih =>
    rw [sum_cons] at h
    by_cases hday : day < length
    · simp [monthDay, hday]
    · obtain ⟨hmonth, hsum, hlast⟩ := ih (day - length) (by omega)
      simp only [monthDay, hday, if_false, length_cons, take_succ_cons, sum_cons, getD_cons_succ]
      refine ⟨by omega, by omega, hlast⟩

theorem dateOf_spec (days : Nat) : (1 ≤ (dateOf days).month ∧ (dateOf days).month ≤ 12) ∧
      (1 ≤ (dateOf days).day ∧ (dateOf days).day ≤ daysIn (dateOf days).month (dateOf days).year) ∧
      daysSince (dateOf days) = days := by
  obtain ⟨hcount, hyday⟩ := yearDay_spec days
  obtain ⟨hmonth, hsum, hday⟩ := monthDay_spec _ _ hyday
  have hlength : (monthLengths (yearDay days).1).length = 12 := rfl
  simp only [dateOf, daysIn, daysSince, daysBefore, Nat.add_sub_cancel]
  refine ⟨by omega, by omega, by omega⟩

theorem daysIn_le (month year : Nat) : daysIn month year ≤ 31 := by
  unfold daysIn monthLengths
  generalize month - 1 = m
  rcases isLeap year <;> rcases m with _ | _ | _ | _ | _ | _ | _ | _ | _ | _ | _ | _ | m <;> simp

theorem digit_spec (h : n < 10) : isDigit (digit n) = true ∧ (digit n).toNat - 48 = n := by
  have hall : ∀ n < 10, isDigit (digit n) = true ∧ (digit n).toNat - 48 = n := by decide
  exact hall n h

theorem readDigits_append_digit (s : List Char) (h : n < 10) :
    readDigits (s ++ [digit n]) = (readDigits s).map fun x => x * 10 + n := by
  obtain ⟨hdigit, hvalue⟩ := digit_spec h
  rw [readDigits, foldlM_append, ← readDigits]
  cases readDigits s with
  | none => rfl
  | some x => simp [readDigit, hdigit, hvalue]

theorem appendInt_spec {width x : Nat} (h : x < 10 ^ width) :
    readDigits (appendInt width x) = some x ∧ (appendInt width x).length = width ∧
      ∀ c ∈ appendInt width x, isDigit c = true := by
  induction width generalizing x with
  | zero =>
    have hx : x = 0 := by simpa using h
    rw [hx]
    exact ⟨rfl, rfl, fun c hc => absurd hc not_mem_nil⟩
  | succ width ih =>
    have hhigh : x / 10 < 10 ^ width := by
      rw [div_lt_iff_lt_mul (by decide)]
      exact h
    have hlow : x % 10 < 10 := mod_lt _ (by decide)
    obtain ⟨hread, hlength, hdigits⟩ := ih hhigh
    refine ⟨?_, ?_, fun c hc => ?_⟩
    · rw [appendInt, readDigits_append_digit _ hlow, hread, map_some, div_add_mod']
    · rw [appendInt, length_append, hlength, length_singleton]
    · rw [appendInt, mem_append, mem_singleton] at hc
      rcases hc with hc | rfl
      · exact hdigits c hc
      · exact (digit_spec hlow).1

theorem parseUint_appendInt {width x min max : Nat} (h : x < 10 ^ width) (hmin : min ≤ x)
    (hmax : x ≤ max) : parseUint (appendInt width x) min max = some x := by
  have hrange : ¬ (x < min ∨ max < x) := by omega
  simp [parseUint, (appendInt_spec h).1, hrange]

theorem twoDigits (x min max : Nat) (h : x < 100) (hmin : min ≤ x) (hmax : x ≤ max) :
    ∃ c d, appendInt 2 x = [c, d] ∧ parseUint [c, d] min max = some x := by
  have hwidth : x < 10 ^ 2 := h
  obtain ⟨c, d, htext⟩ := length_eq_two.mp (appendInt_spec hwidth).2.1
  refine ⟨c, d, htext, ?_⟩
  rw [← htext]
  exact parseUint_appendInt hwidth hmin hmax

theorem fourDigits {x : Nat} (h : x ≤ 9999) :
    ∃ c d e f, appendInt 4 x = [c, d, e, f] ∧ parseUint [c, d, e, f] 0 9999 = some x := by
  have hwidth : x < 10 ^ 4 := by omega
  obtain ⟨c, d, e, f, htext⟩ : ∃ c d e f, appendInt 4 x = [c, d, e, f] := by
    match appendInt 4 x, (appendInt_spec hwidth).2.1 with
    | [c, d, e, f], _ => exact ⟨c, d, e, f, rfl⟩
  refine ⟨c, d, e, f, htext, ?_⟩
  rw [← htext]
  exact parseUint_appendInt hwidth (zero_le x) h

theorem readDigits_append_zeros (s : List Char) (n : Nat) :
    readDigits (s ++ replicate n '0') = (readDigits s).map fun x => x * 10 ^ n := by
  induction n with
  | zero => simp
  | succ n ih =>
    have hzero : '0' = digit 0 := rfl
    rw [replicate_succ', ← append_assoc, hzero, readDigits_append_digit _ (by decide),
      ← hzero, ih, Option.map_map]
    congr 1
    simp [pow_succ]

theorem exists_trimmed (s : List Char) : ∃ kept n, s = kept ++ replicate n '0' ∧
    (s.reverse.dropWhile (· == '0')).reverse = kept := by
  refine ⟨_, (s.reverse.takeWhile (· == '0')).length, ?_, rfl⟩
  have hzeros : s.reverse.takeWhile (· == '0') =
      replicate (s.reverse.takeWhile (· == '0')).length '0' := by
    refine eq_replicate_of_mem fun c hc => ?_
    simpa using mem_takeWhile_imp hc
  have hsplit := congrArg reverse (takeWhile_append_dropWhile (p := (· == '0')) (l := s.reverse))
  rw [reverse_append, reverse_reverse, hzeros, reverse_replicate] at hsplit
  exact hsplit.symm

theorem parseNanoseconds_formatNano (h : nsec < 1000000000) (rest : List Char)
    (hc : isDigit c = false) (hpoint : c ≠ '.') :
    parseNanoseconds (formatNano nsec ++ c :: rest) = (nsec, c :: rest) := by
  unfold formatNano
  by_cases hzero : nsec = 0
  · rw [if_pos hzero, nil_append, hzero]
    unfold parseNanoseconds
    split
    · rename_i heq
      exact absurd (cons.inj heq).1 hpoint
    · rfl
  · obtain ⟨hread, hlength, hdigits⟩ := appendInt_spec (show nsec < 10 ^ 9 from h)
    obtain ⟨kept, n, hsplit, htrim⟩ := exists_trimmed (appendInt 9 nsec)
    rw [if_neg hzero, htrim]
    rw [hsplit] at hread hlength hdigits
    rw [length_append, length_replicate] at hlength
    rw [readDigits_append_zeros] at hread
    obtain ⟨x, hx, hvalue⟩ := map_eq_some_iff.mp hread
    have hkept : ∀ d ∈ kept, isDigit d = true := fun d hd => hdigits d (mem_append_left _ hd)
    cases kept with
    | nil =>
      -- Only zeros would be the number zero.
      cases hx
      simp at hvalue
      exact absurd hvalue.symm hzero
    | cons d ds =>
      have htake : (d :: (ds ++ c :: rest)).takeWhile isDigit = d :: ds := by
        rw [← cons_append, takeWhile_append_of_pos hkept]
        simp [hc]
      have hdrop : (d :: (ds ++ c :: rest)).dropWhile isDigit = c :: rest := by
        rw [← cons_append, dropWhile_append_of_pos hkept]
        simp [hc]
      have hnine : (d :: ds).take 9 = d :: ds := take_of_length_le (by omega)
      have hzeros : 9 - (d :: ds).length = n := by omega
      simp only [cons_append, parseNanoseconds, hkept d mem_cons_self, if_true, htake,
        hdrop, hnine, hx, getD_some, hzeros, hvalue]

def WholeMinutes (offset : Int) : Prop := ∃ minutes : Int, offset = minutes * 60 ∧ minutes.natAbs < 24 * 60

def Writable (t : Nat) (offset : Int) : Prop :=
  WholeMinutes offset ∧ (dateOf (localSeconds t offset / 86400)).year ≤ 9999

theorem parseZone_formatZone (h : WholeMinutes offset) :
    parseZone (formatZone offset) = some offset := by
  obtain ⟨minutes, rfl, hminutes⟩ := h
  unfold formatZone
  by_cases hzero : minutes * 60 = 0
  · rw [if_pos hzero, hzero]
    rfl
  · have hzone : (minutes * 60).tdiv 60 = minutes := Int.mul_tdiv_cancel _ (by decide)
    obtain ⟨h1, h2, hh, hhr⟩ := twoDigits (minutes.natAbs / 60) 0 23
      (by omega) (zero_le _) (by omega)
    obtain ⟨m1, m2, hm, hmm⟩ := twoDigits (minutes.natAbs % 60) 0 59
      (by omega) (zero_le _) (by omega)
    rw [if_neg hzero]
    simp only [hzone, hh, hm, cons_append, nil_append, parseZone, hhr, hmm]
    by_cases hsign : minutes < 0
    · have hvalue : -(((minutes.natAbs / 60 * 60 + minutes.natAbs % 60 : Nat) : Int) * 60)
          = minutes * 60 := by omega
      simp at hvalue ⊢
      omega
    · have hvalue : ((minutes.natAbs / 60 * 60 + minutes.natAbs % 60 : Nat) : Int) * 60
          = minutes * 60 := by omega
      simp at hvalue ⊢
      omega

theorem formatZone_cons (offset : Int) : ∃ c rest, formatZone offset = c :: rest ∧
    isDigit c = false ∧ c ≠ '.' := by
  unfold formatZone
  split
  · exact ⟨'Z', [], rfl, by decide, by decide⟩
  · simp only
    split
    · exact ⟨'-', _, rfl, by decide, by decide⟩
    · exact ⟨'+', _, rfl, by decide, by decide⟩

theorem parseRFC3339_format (h : Writable t offset) :
    parseRFC3339 (formatRFC3339Nano t offset) = some (t : Int) := by
  obtain ⟨hoffset, hyear⟩ := h
  obtain ⟨⟨hmonth, hmonth'⟩, ⟨hday, hday'⟩, hdays⟩ := dateOf_spec (localSeconds t offset / 86400)
  have hdayle := daysIn_le (dateOf (localSeconds t offset / 86400)).month
    (dateOf (localSeconds t offset / 86400)).year
  have hshift : ((localSeconds t offset : Nat) : Int) = (epoch + t / 1000000000 : Nat) + offset := by
    obtain ⟨minutes, rfl, hminutes⟩ := hoffset
    unfold localSeconds epoch
    omega
  unfold formatRFC3339Nano
  simp only
  generalize localSeconds t offset = seconds at *
  generalize dateOf (seconds / 86400) = date at *
  obtain ⟨year, month, day⟩ := date
  simp only at *
  obtain ⟨y1, y2, y3, y4, hy, hy'⟩ := fourDigits hyear
  obtain ⟨m1, m2, hm, hm'⟩ := twoDigits month 1 12 (by omega) hmonth hmonth'
  obtain ⟨d1, d2, hd, hd'⟩ := twoDigits day 1 (daysIn month year) (by omega) hday hday'
  obtain ⟨h1, h2, hh, hh'⟩ := twoDigits (seconds % 86400 / 3600) 0 23
    (by omega) (zero_le _) (by omega)
  obtain ⟨n1, n2, hn, hn'⟩ := twoDigits (seconds % 86400 / 60 % 60) 0 59
    (by omega) (zero_le _) (by omega)
  obtain ⟨s1, s2, hs, hs'⟩ := twoDigits (seconds % 86400 % 60) 0 59
    (by omega) (zero_le _) (by omega)
  obtain ⟨c, rest, hzone, hc, hpoint⟩ := formatZone_cons offset
  have hnano := parseNanoseconds_formatNano (mod_lt t (show 1000000000 > 0 by decide)) rest
    hc hpoint
  have hparsed := parseZone_formatZone hoffset
  rw [hzone] at hparsed
  simp only [hy, hm, hd, hh, hn, hs, hzone, cons_append, nil_append,
    parseRFC3339, hy', hm', hd', hh', hn', hs', hnano, hparsed, hdays, bind_eq_bind,
    bind_some, and_self, if_true]
  refine congrArg some ?_
  omega

def Plain (s : List Char) : Prop := ∀ c ∈ s, c ≠ ',' ∧ c.toNat < 128

theorem Plain.append (hs : Plain s) (ht : Plain t) : Plain (s ++ t) := by
  intro c hc
  rcases mem_append.mp hc with hc | hc
  · exact hs c hc
  · exact ht c hc

theorem Plain.cons {c : Char} (hc : c ≠ ',' ∧ c.toNat < 128) (hs : Plain s) : Plain (c :: s) := by
  intro d hd
  rcases mem_cons.mp hd with rfl | hd
  · exact hc
  · exact hs d hd

theorem plain_of_isDigit {c : Char} (h : isDigit c = true) : c ≠ ',' ∧ c.toNat < 128 := by
  simp only [isDigit, Bool.and_eq_true, decide_eq_true_eq] at h
  refine ⟨fun hcomma => ?_, ?_⟩
  · rw [hcomma] at h
    exact absurd h.1 (by decide)
  · have hle : c.toNat ≤ '9'.toNat := h.2
    exact lt_of_le_of_lt hle (by decide)

theorem plain_appendInt (h : x < 10 ^ width) : Plain (appendInt width x) :=
  fun c hc => plain_of_isDigit ((appendInt_spec h).2.2 c hc)

theorem plain_formatNano (h : nsec < 1000000000) : Plain (formatNano nsec) := by
  unfold formatNano
  split
  · exact fun c hc => absurd hc not_mem_nil
  · refine .cons (by decide) fun c hc => ?_
    rw [mem_reverse] at hc
    have hmem := mem_reverse.mp (dropWhile_subset _ hc)
    exact plain_appendInt (show nsec < 10 ^ 9 from h) c hmem

theorem plain_formatZone (h : WholeMinutes offset) : Plain (formatZone offset) := by
  obtain ⟨minutes, rfl, hminutes⟩ := h
  have hzone : (minutes * 60).tdiv 60 = minutes := Int.mul_tdiv_cancel _ (by decide)
  have hhour : Plain (appendInt 2 (minutes.natAbs / 60)) := plain_appendInt (by omega)
  have hminute : Plain (appendInt 2 (minutes.natAbs % 60)) := plain_appendInt (by omega)
  unfold formatZone
  split
  · exact .cons (by decide) fun c hc => absurd hc not_mem_nil
  · simp only [hzone]
    refine .append (.cons ?_ hhour) (.cons (by decide) hminute)
    split <;> decide

theorem plain_format (h : Writable t offset) : Plain (formatRFC3339Nano t offset) := by
  obtain ⟨hoffset, hyear⟩ := h
  obtain ⟨⟨_, hmonth⟩, ⟨_, hday⟩, _⟩ := dateOf_spec (localSeconds t offset / 86400)
  have hdayle := daysIn_le (dateOf (localSeconds t offset / 86400)).month
    (dateOf (localSeconds t offset / 86400)).year
  unfold formatRFC3339Nano
  refine .append (.append (.append (.append (.append (.append (.append
    (plain_appendInt (by omega)) (.cons (by decide) (plain_appendInt (by omega))))
    (.cons (by decide) (plain_appendInt (by omega))))
    (.cons (by decide) (plain_appendInt (by omega))))
    (.cons (by decide) (plain_appendInt (by omega))))
    (.cons (by decide) (plain_appendInt (by omega))))
    (plain_formatNano (mod_lt _ (by decide)))) (plain_formatZone hoffset)

end Chainloop.Go.Time
