import Mathlib.Data.List.Infix
import Mathlib.Tactic.Cases

-- Search and substitution from the left, after Go's strings.Index, strings.Count
-- and strings.ReplaceAll. The texts are lists of cells. Only the key of a cell is
-- compared, so that a cell can carry more than the character it shows.
namespace Chainloop.Text

open List Bool

variable {α β : Type} [DecidableEq α]

-- The substitution loop over the rest of a text that starts at `pos`: `new start`
-- is written for the occurrence of `old` found at `start`. The counter skips the
-- cells of an occurrence that was just found, so that occurrences do not overlap.
def substFrom (key : β → α) (old : List α) (new : Nat → List β) : Nat → Nat → List β → List β
  | _, _, [] => []
  | pos, skip + 1, _ :: cs => substFrom key old new (pos + 1) skip cs
  | pos, 0, c :: cs =>
    if old.isPrefixOf ((c :: cs).map key) then
      new pos ++ substFrom key old new (pos + 1) (old.length - 1) cs
    else c :: substFrom key old new (pos + 1) 0 cs

-- Where the occurrences start that the same search finds.
def startsFrom (old : List α) : Nat → Nat → List α → List Nat
  | _, _, [] => []
  | pos, skip + 1, _ :: cs => startsFrom old (pos + 1) skip cs
  | pos, 0, c :: cs =>
    if old.isPrefixOf (c :: cs) then pos :: startsFrom old (pos + 1) (old.length - 1) cs
    else startsFrom old (pos + 1) 0 cs

def count (old s : List α) : Nat := (startsFrom old 0 0 s).length

def replaceAll (old new s : List α) : List α := substFrom id old (fun _ => new) 0 0 s

-- The search finds `old` right after `gap` and not before.
def First (old gap : List α) : Prop := ∀ j < gap.length, ¬ old <+: (gap ++ old).drop j

omit [DecidableEq α] in
theorem First.tail (h : First old (c :: gap)) : First old gap := by
  intro j hj hpre
  exact h (j + 1) (by simpa using hj) (by simpa using hpre)

omit [DecidableEq α] in
theorem First.none_before {gap : List α} (h : First old gap) (rest : List α) (hj : j < gap.length) :
    ¬ old <+: (gap ++ old ++ rest).drop j := by
  intro hpre
  apply h j hj
  have hlen : j ≤ (gap ++ old).length := by simp; omega
  rw [drop_append_of_le_length hlen] at hpre
  apply prefix_of_prefix_length_le hpre (prefix_append _ _)
  simp only [length_drop, length_append]
  omega

omit [DecidableEq α] in
theorem absent_of_absent_cons (h : ¬ old <:+: c :: w) : ¬ old <+: c :: w ∧ ¬ old <:+: w :=
  ⟨fun hp => h hp.isInfix, fun hi => h (hi.trans (suffix_cons c w).isInfix)⟩

omit [DecidableEq α] in
theorem exists_first (old w : List α) :
    ¬ old <:+: w ∨ ∃ gap rest, w = gap ++ old ++ rest ∧ First old gap := by
  induction w with
  | nil =>
    by_cases hold : old = []
    · exact .inr ⟨[], [], by simp [hold], by simp [First]⟩
    · exact .inl fun h => hold (infix_nil.mp h)
  | cons c w ih =>
    by_cases hpre : old <+: c :: w
    · obtain ⟨rest, hrest⟩ := hpre
      exact .inr ⟨[], rest, by simpa using hrest.symm, by simp [First]⟩
    · rcases ih with hnone | ⟨gap, rest, rfl, hfirst⟩
      · left
        intro h
        rcases infix_cons_iff.mp h with hp | hi
        · exact hpre hp
        · exact hnone hi
      · right
        refine ⟨c :: gap, rest, by simp, ?_⟩
        intro j hj hp
        cases j with
        | zero =>
          apply hpre
          have happ : c :: gap ++ old <+: c :: (gap ++ old ++ rest) := by simp
          exact (by simpa using hp : old <+: c :: gap ++ old).trans happ
        | succ j => exact hfirst j (by simpa using hj) (by simpa using hp)

section Subst

variable {key : β → α} {old : List α} {new : Nat → List β}

theorem substFrom_skip (pos : Nat) (hit rest : List β) :
    substFrom key old new pos hit.length (hit ++ rest)
      = substFrom key old new (pos + hit.length) 0 rest := by
  induction hit generalizing pos with
  | nil => simp
  | cons c hit ih =>
    rw [length_cons, cons_append, substFrom, ih]
    congr 1
    omega

theorem substFrom_of_absent (pos : Nat) (w : List β) (h : ¬ old <:+: w.map key) :
    substFrom key old new pos 0 w = w := by
  induction w generalizing pos with
  | nil => rfl
  | cons c w ih =>
    obtain ⟨hhead, htail⟩ := absent_of_absent_cons h
    have hno : old.isPrefixOf ((c :: w).map key) = false := by
      rw [eq_false_iff, ne_eq, isPrefixOf_iff_prefix]
      exact hhead
    rw [substFrom, hno, ih (pos + 1) htail]
    simp

theorem substFrom_first (pos : Nat) (gap hit rest : List β) (hne : old ≠ [])
    (hhit : hit.map key = old) (hfirst : First old (gap.map key)) :
    substFrom key old new pos 0 (gap ++ hit ++ rest)
      = gap ++ new (pos + gap.length) ++ substFrom key old new (pos + gap.length + old.length) 0 rest := by
  induction gap generalizing pos with
  | nil =>
    cases hit with
    | nil => exact absurd hhit.symm hne
    | cons c hit =>
      have hpre : old.isPrefixOf ((c :: (hit ++ rest)).map key) = true := by
        rw [ isPrefixOf_iff_prefix, ← hhit, ← cons_append, map_append]
        exact prefix_append _ _
      have hlen : old.length = hit.length + 1 := by simp [← hhit]
      simp only [nil_append, cons_append, length_nil]
      rw [substFrom, if_pos hpre, hlen, Nat.add_sub_cancel, substFrom_skip]
      congr 2
      omega
  | cons c gap ih =>
    have hno : old.isPrefixOf ((c :: (gap ++ hit ++ rest)).map key) = false := by
      rw [eq_false_iff]
      have := hfirst.none_before (rest.map key) (j := 0) (by simp)
      simpa [hhit] using this
    simp only [cons_append]
    rw [substFrom, hno, ih (pos + 1) (First.tail (by simpa using hfirst))]
    have hpos : pos + 1 + gap.length = pos + (gap.length + 1) := by omega
    simp [hpos]

omit [DecidableEq α] in
-- Induction along the loop: a rest without an occurrence ends it.
theorem subst_induct (key : β → α) {old : List α} {motive : Nat → List β → Prop} (hne : old ≠ [])
    (done : ∀ pos w, ¬ old <:+: w.map key → motive pos w)
    (turn : ∀ pos gap hit rest, hit.map key = old → First old (gap.map key) →
      motive (pos + gap.length + old.length) rest → motive pos (gap ++ hit ++ rest))
    (pos : Nat) (w : List β) : motive pos w := by
  induction hn : w.length using Nat.strong_induction_on generalizing pos w with
  | _ n ih =>
    rcases exists_first old (w.map key) with hnone | ⟨gap', rest', hw, hfirst⟩
    · exact done pos w hnone
    · obtain ⟨front, rest, rfl, hfront, hrest⟩ := map_eq_append_iff.mp hw
      obtain ⟨gap, hit, rfl, hgap, hhit⟩ := map_eq_append_iff.mp hfront
      subst hgap hrest
      have hpos : 0 < old.length := length_pos_iff.mpr hne
      have hlen : hit.length = old.length := by rw [← hhit, length_map]
      apply turn pos gap hit rest hhit hfirst
      apply ih rest.length _ _ _ rfl
      simp only [length_append] at hn
      omega

theorem map_substFrom (hold : old ≠ []) {shown : Nat → List α} (pos : Nat) (w : List β)
    (h : ∀ A hit B, w = A ++ (hit ++ B) → hit.map key = old → (new (pos + A.length)).map key = shown (pos + A.length)) :
    (substFrom key old new pos 0 w).map key = substFrom id old shown pos 0 (w.map key) := by
  induction pos, w using subst_induct key hold with
  | done pos w hnone => rw [substFrom_of_absent pos w hnone, substFrom_of_absent pos _ (by simpa using hnone)]
  | turn pos gap hit rest hhit hfirst ih =>
    have hrest := ih fun A hit' B hB hhit' => by
      have := h (gap ++ hit ++ A) hit' B (by simp [hB]) hhit'
      have hlen : pos + (gap ++ hit ++ A).length = pos + gap.length + old.length + A.length := by
        simp [← hhit]
        omega
      rwa [hlen] at this
    rw [substFrom_first pos gap hit rest hold hhit hfirst, map_append, map_append, map_append, map_append, hhit,
      substFrom_first pos (gap.map key) old (rest.map key) hold (map_id _) (by rwa [map_id]), hrest,
      h gap hit rest (by simp) hhit, length_map]

end Subst

section Starts

variable {old : List α}

theorem startsFrom_skip (pos : Nat) (hit rest : List α) :
    startsFrom old pos hit.length (hit ++ rest) = startsFrom old (pos + hit.length) 0 rest := by
  induction hit generalizing pos with
  | nil => simp
  | cons c hit ih =>
    rw [length_cons, cons_append, startsFrom, ih]
    congr 1
    omega

theorem startsFrom_of_absent (pos : Nat) (w : List α) (h : ¬ old <:+: w) :
    startsFrom old pos 0 w = [] := by
  induction w generalizing pos with
  | nil => rfl
  | cons c w ih =>
    obtain ⟨hhead, htail⟩ := absent_of_absent_cons h
    have hno : old.isPrefixOf (c :: w) = false := by
      rw [eq_false_iff, ne_eq, isPrefixOf_iff_prefix]
      exact hhead
    rw [startsFrom, hno, ih (pos + 1) htail]
    simp

theorem startsFrom_first (pos : Nat) (gap rest : List α) (hne : old ≠ []) (hfirst : First old gap) :
    startsFrom old pos 0 (gap ++ old ++ rest)
      = (pos + gap.length) :: startsFrom old (pos + gap.length + old.length) 0 rest := by
  induction gap generalizing pos with
  | nil =>
    obtain ⟨c, tl, hold⟩ := exists_cons_of_ne_nil hne
    have hpre : old.isPrefixOf (c :: (tl ++ rest)) = true := by
      rw [hold]
      simp
    have hlen : old.length = tl.length + 1 := by simp [hold]
    have hw : [] ++ old ++ rest = c :: (tl ++ rest) := by simp [hold]
    rw [hw, startsFrom, if_pos hpre, hlen, Nat.add_sub_cancel, startsFrom_skip]
    simp only [length_nil]
    congr 2
    omega
  | cons c gap ih =>
    have hno : old.isPrefixOf (c :: (gap ++ old ++ rest)) = false := by
      rw [eq_false_iff]
      simpa using hfirst.none_before rest (j := 0) (by simp)
    simp only [cons_append, length_cons]
    rw [startsFrom, hno, if_neg (by simp), ih (pos + 1) hfirst.tail]
    have hpos : pos + 1 + gap.length = pos + (gap.length + 1) := by omega
    rw [hpos]

theorem mem_startsFrom (hne : old ≠ []) {j : Nat} (h : j ∈ startsFrom old pos 0 w) :
    ∃ p s, w = p ++ old ++ s ∧ j = pos + p.length := by
  induction pos, w using subst_induct id hne with
  | done pos w hnone =>
    rw [startsFrom_of_absent pos w (by simpa using hnone)] at h
    cases h
  | turn pos gap hit rest hhit hfirst ih =>
    rw [map_id] at hhit hfirst
    subst hhit
    rw [startsFrom_first pos gap rest hne hfirst] at h
    rcases mem_cons.mp h with rfl | h
    · exact ⟨gap, rest, rfl, rfl⟩
    · obtain ⟨p, s, rfl, rfl⟩ := ih h
      exact ⟨gap ++ hit ++ p, s, by simp, by simp only [length_append]; omega⟩

theorem count_eq_zero_iff (hne : old ≠ []) (w : List α) : count old w = 0 ↔ ¬ old <:+: w := by
  constructor
  · intro h hinfix
    rcases exists_first old w with hnone | ⟨gap, rest, rfl, hfirst⟩
    · exact hnone hinfix
    · rw [count, startsFrom_first 0 gap rest hne hfirst] at h
      simp at h
  · intro h
    rw [count, startsFrom_of_absent 0 w h, length_nil]

end Starts

theorem replaceAll_of_absent (new : List α) (h : ¬ old <:+: w) : replaceAll old new w = w :=
  substFrom_of_absent 0 w (by simpa using h)

end Chainloop.Text
