import Chainloop.Archives.Dranzer
import Chainloop.Text.Captures
import Mathlib.Algebra.BigOperators.Group.List.Basic

namespace Chainloop.Archives.Dranzer

open Go Text List Option

section Wrapping

theorem toInt_toInt_add (a b : Int) : toInt (toInt a + b) = toInt (a + b) := by
  simp [toInt]

theorem toInt_add_toInt (a b : Int) : toInt (a + toInt b) = toInt (a + b) := by
  simp [toInt]

theorem toInt_toInt_mul (a b : Int) : toInt (toInt a * b) = toInt (a * b) := by
  simp [toInt]

theorem toInt_zero : toInt 0 = 0 := by
  simp [toInt]

theorem toInt_toInt (a : Int) : toInt (toInt a) = toInt a := by
  simp [toInt]

theorem toInt_eq_zero_iff (n : Nat) : toInt n = 0 ↔ 2 ^ 64 ∣ n := by
  unfold toInt
  rw [← Int.dvd_iff_bmod_eq_zero, Int.natCast_dvd_natCast]

def decimal (digits : List Char) : Nat :=
  digits.foldl (fun n c => n * 10 + (c.toNat - '0'.toNat)) 0

def readDigit (n : Option Int) (c : Char) : Option Int :=
  n.bind fun n => if isDigit c then some (toInt (n * 10 + (c.toNat - '0'.toNat : Nat))) else none

theorem atoi_eq_foldl (s : String) : atoi s = (s.toList.foldl readDigit (some 0)).getD 0 := rfl

-- The number wraps at every digit, or once in the end.
theorem atoi_eq {s : String} (hs : ∀ c ∈ s.toList, isDigit c = true) :
    atoi s = toInt (decimal s.toList) := by
  have hfold : ∀ (digits : List Char) (n : Nat), (∀ c ∈ digits, isDigit c = true) →
      digits.foldl readDigit (some (toInt n)) =
        some (toInt (digits.foldl (fun n c => n * 10 + (c.toNat - '0'.toNat)) n : Nat)) := by
    intro digits
    induction digits with
    | nil => exact fun n _ => rfl
    | cons c rest ih =>
      intro n hdigits
      have hstep : readDigit (some (toInt n)) c =
          some (toInt (n * 10 + (c.toNat - '0'.toNat) : Nat)) := by
        rw [readDigit, bind_some, if_pos (hdigits c mem_cons_self), ← toInt_toInt_add,
          toInt_toInt_mul, toInt_toInt_add]
        norm_cast
      rw [foldl_cons, hstep]
      exact ih _ fun d hd => hdigits d (mem_cons_of_mem c hd)
  have hatoi := hfold s.toList 0 hs
  rw [Int.natCast_zero, toInt_zero] at hatoi
  rw [atoi_eq_foldl, hatoi, getD_some, decimal]

end Wrapping

def textLines (data : List UInt8) : List String :=
  splitString "\n" (replaceAll "\r\n" "\n" (String.ofList (validRunes data.length data)))

def counterOf (line : String) : Option (String × String) :=
  let trimmed := trimSpace line
  if trimmed = "" || isSeparatorLine trimmed then none
  else (counterRe.submatch trimmed).map fun m => (m 1, m 2)

def numbersOf (lower : Char → Char) (key : String) (lines : List String) : List Nat :=
  lines.filterMap fun line => (counterOf line).bind fun c =>
    if normalizeKey lower c.1 = key then some (decimal c.2.toList) else none

section Lines

variable (rt : Runtime)

theorem counterRe_digits : counterRe.GroupOnly 2 isDigit := by
  have hfree : ∀ r : Regex, r.sets 2 = false → r.GroupOnly 2 isDigit :=
    fun r => Regex.groupOnly_of_not_sets isDigit
  refine ⟨hfree _ rfl, hfree _ (by decide +kernel), hfree _ rfl, hfree _ rfl, hfree _ rfl,
    ⟨fun _ => ⟨fun x hx => hx, fun x hx => hx⟩, hfree _ rfl⟩, hfree _ rfl, hfree _ rfl⟩

theorem classify_cases (line : String) : (∃ label number, counterOf line = some (label, number) ∧
      classify line = .counter label (toInt (decimal number.toList))) ∨
    (counterOf line = none ∧ ∀ label value, classify line ≠ .counter label value) := by
  unfold counterOf classify
  by_cases hskip : (decide (trimSpace line = "") || isSeparatorLine (trimSpace line)) = true
  · rw [if_pos hskip, if_pos hskip]
    exact .inr ⟨rfl, nofun⟩
  · rw [if_neg hskip, if_neg hskip]
    cases hm : counterRe.submatch (trimSpace line) with
    | some m =>
      refine .inl ⟨m 1, m 2, rfl, ?_⟩
      rw [← atoi_eq (Regex.submatch_only counterRe_digits hm)]
    | none =>
      refine .inr ⟨rfl, fun label value hline => ?_⟩
      dsimp only at hline
      repeat' split at hline
      all_goals cases hline

def Summary.note (lower : Char → Char) (s : Summary) (line : String) : Summary :=
  match counterOf line with
  | some (label, number) => s.applyCounter lower label (toInt (decimal number.toList))
  | none => s

theorem summary_step (s : ParseState) (line : String) :
    (s.step rt (classify line)).report.summary = s.report.summary.note rt.lower line := by
  unfold Summary.note
  obtain ⟨label, number, hcounter, hline⟩ | ⟨hcounter, hline⟩ := classify_cases line
  · rw [hcounter, hline]
    simp only [ParseState.step]
  · rw [hcounter]
    cases hkind : classify line with
    | counter label value => exact absurd hkind (hline label value)
    | error message code =>
      simp only [ParseState.step, ParseState.addError]
      split <;> rfl
    | other text =>
      simp only [ParseState.step, ParseState.addMetadata]
      split <;> rfl
    | _ => rfl

theorem summary_parse (data : List UInt8) :
    (parse rt data).summary = (textLines data).foldl (Summary.note rt.lower) {} := by
  have hfold : ∀ (lines : List String) (s : ParseState),
      (lines.foldl (fun s line => s.step rt (classify line)) s).report.summary =
        lines.foldl (Summary.note rt.lower) s.report.summary := by
    intro lines
    induction lines with
    | nil => exact fun s => rfl
    | cons line rest ih =>
      intro s
      rw [foldl_cons, foldl_cons, ih, summary_step]
  unfold parse
  rw [hfold]
  rfl

end Lines

section Counters

theorem counters_setWellKnown (s : Summary) (key : String) (value : Int) :
    (s.setWellKnown key value).counters = s.counters := by
  unfold Summary.setWellKnown
  split_ifs <;> rfl

def mirrored : List (String × (Summary → Int)) :=
  [("com_objects", Summary.objectCount), ("com_objects_with_kill_bit", Summary.killBit),
    ("com_objects_passed_test", Summary.passed), ("com_objects_failed_test", Summary.failed),
    ("com_objects_hung_during_test", Summary.hung)]

def Summary.Mirrors (s : Summary) : Prop := ∀ p ∈ mirrored, p.2 s = s.counters.getD p.1 0

def Summary.put (s : Summary) (key : String) (value : Int) : Summary :=
  { s with counters := s.counters.set key value }.setWellKnown key value

theorem get?_put (s : Summary) (key j : String) (value : Int) :
    (s.put key value).counters.get? j = if j = key then some value else s.counters.get? j := by
  rw [Summary.put, counters_setWellKnown, Map.get?_set]

theorem mirrored_put (hp : p ∈ mirrored) (s : Summary) (key : String) (value : Int) :
    p.2 (s.put key value) = if p.1 = key then value else p.2 s := by
  unfold mirrored at hp
  simp only [mem_cons, not_mem_nil, or_false] at hp
  unfold Summary.put Summary.setWellKnown
  obtain rfl | rfl | rfl | rfl | rfl := hp <;> split_ifs <;> simp_all

variable {s : Summary}

theorem Summary.Mirrors.put (h : s.Mirrors) (key : String) (value : Int) :
    (s.put key value).Mirrors := by
  intro p hp
  rw [Map.getD, get?_put, mirrored_put hp]
  split_ifs
  · rfl
  · exact h p hp

theorem mirrors_start : ({} : Summary).Mirrors := by
  unfold Summary.Mirrors
  decide

variable {lower : Char → Char}

theorem note_eq_put {number : String} (h : counterOf line = some (label, number)) (s : Summary) :
    s.note lower line = s.put (normalizeKey lower label) (toInt (decimal number.toList)) := by
  simp only [Summary.note, h, Summary.applyCounter, Summary.put]

theorem note_eq_self (h : counterOf line = none) (s : Summary) : s.note lower line = s := by
  simp only [Summary.note, h]

theorem Summary.Mirrors.note (h : s.Mirrors) (line : String) :
    (s.note lower line).Mirrors := by
  cases hcounter : counterOf line with
  | none =>
    rw [note_eq_self hcounter]
    exact h
  | some c =>
    rw [note_eq_put hcounter]
    exact h.put _ _

theorem Summary.Mirrors.add (h : s.Mirrors) (other : Summary) :
    (s.add other).Mirrors := by
  unfold Summary.add
  induction other.counters.entries generalizing s with
  | nil => exact h
  | cons e rest ih => exact ih (h.put _ _)

theorem get?_foldl_note (lower : Char → Char) (key : String) (lines : List String) :
    (lines.foldl (Summary.note lower) {}).counters.get? key =
      (numbersOf lower key lines).getLast?.map fun n : Nat => toInt n := by
  induction lines using reverseRecOn with
  | nil => rfl
  | append_singleton lines line ih =>
    rw [foldl_append, foldl_cons, foldl_nil, numbersOf]
    cases hcounter : counterOf line with
    | none =>
      rw [note_eq_self hcounter, ih]
      simp [hcounter, numbersOf]
    | some c =>
      rw [note_eq_put hcounter, get?_put, ih]
      by_cases hkey : key = normalizeKey lower c.1
      · simp [hcounter, hkey]
      · simp [hcounter, hkey, Ne.symm hkey, numbersOf]

-- The sum of what the two have for the key. A summary without the counter adds nothing.
theorem get?_add (s other : Summary) (key : String) : (s.add other).counters.get? key =
      match other.counters.get? key with
      | none => s.counters.get? key
      | some value => some (toInt (s.counters.getD key 0 + value)) := by
  have hfold : ∀ (entries : List (String × Int)) (s : Summary), (entries.map Prod.fst).Nodup →
      (entries.foldl (fun s e => s.put e.1 (toInt (s.counters.getD e.1 0 + e.2))) s).counters.get? key =
        match entries.lookup key with
        | none => s.counters.get? key
        | some value => some (toInt (s.counters.getD key 0 + value)) := by
    intro entries
    induction entries with
    | nil => exact fun s _ => rfl
    | cons e rest ih =>
      intro s hnodup
      obtain ⟨hfresh, hrest⟩ := nodup_cons.mp hnodup
      rw [foldl_cons, ih _ hrest, lookup_cons]
      by_cases hkey : key = e.1
      · have hgone : rest.lookup key = none := by
          rw [lookup_eq_none_iff]
          intro f hf
          simp only [bne_iff_ne, hkey]
          exact fun heq => hfresh (mem_map.mpr ⟨f, hf, heq.symm⟩)
        rw [hgone, hkey, beq_self_eq_true, get?_put, if_pos rfl]
      · rw [beq_false_of_ne hkey, get?_put, if_neg hkey, Map.getD, get?_put, if_neg hkey, Map.getD]
  exact hfold _ s other.counters.nodup

theorem getD_add (other : Summary)
    (h : toInt (s.counters.getD key 0) = s.counters.getD key 0) :
    (s.add other).counters.getD key 0 =
      toInt (s.counters.getD key 0 + other.counters.getD key 0) := by
  rw [Map.getD, get?_add]
  cases hother : other.counters.get? key with
  | none => simpa [Map.getD, hother] using h.symm
  | some value => simp [Map.getD, hother]

end Counters

section Bundles

variable (rt : Runtime)

theorem summary_newBundle (reports : List Report) :
    (newBundle reports).report.summary = reports.foldl (fun s r => s.add r.summary) {} ∧
      (newBundle reports).reports.map Entry.summary = reports.map Report.summary := by
  induction reports using reverseRecOn with
  | nil => exact ⟨rfl, rfl⟩
  | append_singleton reports report ih =>
    unfold newBundle at ih ⊢
    rw [foldl_append, foldl_append, ← ih.1, map_append, ← ih.2]
    exact ⟨rfl, by simp [addReport]⟩

theorem getD_foldl_add (key : String) (reports : List Report) :
    (reports.foldl (fun (s : Summary) r => s.add r.summary) {}).counters.getD key 0 =
      toInt (reports.map fun r => r.summary.counters.getD key 0).sum := by
  induction reports using reverseRecOn with
  | nil => exact toInt_zero.symm
  | append_singleton reports report ih =>
    rw [foldl_append, foldl_cons, foldl_nil, getD_add, ih, toInt_toInt_add,
      map_append, sum_append, map_singleton, sum_singleton]
    rw [ih, toInt_toInt]

theorem toInt_sum {α : Type} (f : α → Nat) (l : List α) :
    toInt (l.map fun x => toInt (f x)).sum = toInt ((l.map f).sum : Nat) := by
  induction l with
  | nil => rfl
  | cons x rest ih =>
    rw [map_cons, sum_cons, map_cons, sum_cons, toInt_toInt_add,
      ← toInt_add_toInt, ih, toInt_add_toInt]
    norm_cast

def reportsOf (texts : List (String × List UInt8)) : List Report :=
  texts.map fun t => { parse rt t.2 with source := t.1 }

def failedKey : String := "com_objects_failed_test"

def failedNumbers (lower : Char → Char) (data : List UInt8) : List Nat :=
  numbersOf lower failedKey (textLines data)

def lastFailed (lower : Char → Char) (data : List UInt8) : Nat :=
  (failedNumbers lower data).getLast?.getD 0

def SeesFailure (lower : Char → Char) (texts : List (String × List UInt8)) : Prop :=
  ∃ t ∈ texts, ∃ n ∈ failedNumbers lower t.2, n ≠ 0

structure CountsFailures (lower : Char → Char) (texts : List (String × List UInt8))
    (b : Bundle) : Prop where
  failed : b.report.summary.failed ≠ 0 ↔ SeesFailure lower texts
  mirrors : b.report.summary.Mirrors
  eachMirrors : ∀ e ∈ b.reports, e.summary.Mirrors

theorem mirrors_parse (data : List UInt8) : (parse rt data).summary.Mirrors := by
  rw [summary_parse]
  generalize textLines data = lines
  induction lines using reverseRecOn with
  | nil => exact mirrors_start
  | append_singleton lines line ih =>
    rw [foldl_append, foldl_cons, foldl_nil]
    exact ih.note line

theorem mirrors_newBundle (reports : List Report) : (newBundle reports).report.summary.Mirrors := by
  rw [(summary_newBundle reports).1]
  induction reports using reverseRecOn with
  | nil => exact mirrors_start
  | append_singleton reports report ih =>
    rw [foldl_append]
    exact ih.add report.summary

theorem summary_reportsOf (texts : List (String × List UInt8)) :
    (reportsOf rt texts).map Report.summary = texts.map fun t => (parse rt t.2).summary := by
  simp [reportsOf]

theorem eachMirrors_newBundle (texts : List (String × List UInt8)) :
    ∀ e ∈ (newBundle (reportsOf rt texts)).reports, e.summary.Mirrors := by
  intro e he
  have hsummary : e.summary ∈ texts.map fun t => (parse rt t.2).summary := by
    rw [← summary_reportsOf, ← (summary_newBundle _).2]
    exact mem_map_of_mem he
  obtain ⟨t, -, heq⟩ := mem_map.mp hsummary
  rw [← heq]
  exact mirrors_parse rt t.2

theorem failed_of_mirrors {s : Summary} (h : s.Mirrors) : s.failed = s.counters.getD failedKey 0 :=
  h (failedKey, Summary.failed) (.tail _ (.tail _ (.tail _ (.head _))))

theorem getD_parse (data : List UInt8) :
    (parse rt data).summary.counters.getD failedKey 0 = toInt (lastFailed rt.lower data) := by
  rw [summary_parse, Map.getD, get?_foldl_note, lastFailed, failedNumbers]
  cases (numbersOf rt.lower failedKey (textLines data)).getLast? with
  | none => rw [map_none, getD_none, getD_none, Int.natCast_zero, toInt_zero]
  | some n => rw [map_some, getD_some, getD_some]

theorem failed_newBundle (texts : List (String × List UInt8)) :
    (newBundle (reportsOf rt texts)).report.summary.failed =
      toInt ((texts.map fun t => lastFailed rt.lower t.2).sum : Nat) := by
  have hvalues : (reportsOf rt texts).map (fun r => r.summary.counters.getD failedKey 0) =
      texts.map fun t => toInt (lastFailed rt.lower t.2) := by
    simp only [reportsOf, List.map_map, Function.comp_def, getD_parse]
  rw [failed_of_mirrors (mirrors_newBundle _), (summary_newBundle _).1, getD_foldl_add, hvalues,
    toInt_sum]

theorem seesFailure_of_sum_ne_zero {texts : List (String × List UInt8)}
    (h : (texts.map fun t => lastFailed lower t.2).sum ≠ 0) : SeesFailure lower texts := by
  by_contra hnone
  apply h
  apply sum_eq_zero
  intro n hn
  obtain ⟨t, ht, rfl⟩ := mem_map.mp hn
  unfold lastFailed
  cases hlast : (failedNumbers lower t.2).getLast? with
  | none => rfl
  | some n =>
    by_contra hne
    exact hnone ⟨t, ht, n, mem_of_getLast? hlast, hne⟩

-- Within a report the last number counts, and over the reports the sum of these wraps.
theorem bundle_counts_failures_iff (texts : List (String × List UInt8)) :
    CountsFailures rt.lower texts (newBundle (reportsOf rt texts)) ↔ (SeesFailure rt.lower texts →
        ¬ 2 ^ 64 ∣ (texts.map fun t => lastFailed rt.lower t.2).sum) := by
  have hfailed : (newBundle (reportsOf rt texts)).report.summary.failed ≠ 0 ↔
      ¬ 2 ^ 64 ∣ (texts.map fun t => lastFailed rt.lower t.2).sum := by
    rw [failed_newBundle, ne_eq, toInt_eq_zero_iff]
  constructor
  · exact fun h hsees => hfailed.mp (h.failed.mpr hsees)
  · intro h
    refine ⟨⟨fun hne => ?_, fun hsees => hfailed.mpr (h hsees)⟩, mirrors_newBundle _,
      eachMirrors_newBundle rt texts⟩
    apply seesFailure_of_sum_ne_zero
    intro hzero
    exact hfailed.mp hne (hzero ▸ Nat.dvd_zero _)

def overwrittenFailure : List UInt8 :=
  bytes "Number of COM Objects Failed Test  1\nNumber of COM Objects Failed Test  0"

theorem overwritten_failure_not_counted :
    failedNumbers Runtime.small.lower overwrittenFailure = [1, 0] ∧
      ¬ CountsFailures Runtime.small.lower [("", overwrittenFailure)]
        (newBundle (reportsOf .small [("", overwrittenFailure)])) := by
  have hnumbers : failedNumbers Runtime.small.lower overwrittenFailure = [1, 0] := by
    decide +kernel
  refine ⟨hnumbers, fun h => h.failed.mpr ?_ ?_⟩
  · exact ⟨_, mem_singleton_self _, 1, by simp [hnumbers], Nat.one_ne_zero⟩
  · rw [failed_newBundle, map_singleton, sum_singleton, lastFailed, hnumbers]
    exact toInt_zero

end Bundles

end Chainloop.Archives.Dranzer
