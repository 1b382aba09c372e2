import Chainloop.Redaction.Leaf

-- The lines of a leaf's body, by positions. A line ends before an escaped line feed
-- or carriage return.
namespace Chainloop.Redaction

open Json Text Bool Nat
open List hiding contains_iff span

def escapedAt (b : Chars) (i : Nat) : Bool := escaped false (b.take i)

def isBreak (c : Char) : Prop := c = 'n' ∨ c = 'r'

def BreakAt (b : Chars) (i : Nat) : Prop :=
  escapedAt b i = true ∧ ∃ c, b[i]? = some c ∧ isBreak c

variable {a : Chars}

theorem escapedAt_append (ha : escaped false a = false) (w : Chars) (i : Nat) :
    escapedAt (a ++ w) (a.length + i) = escapedAt w i := by
  rw [escapedAt, take_length_add_append, escaped_append, ha, escapedAt]

theorem breakAt_append (ha : escaped false a = false) (w : Chars) (i : Nat) :
    BreakAt (a ++ w) (a.length + i) ↔ BreakAt w i := by
  rw [BreakAt, BreakAt, escapedAt_append ha, getElem?_append_right (by omega),
    Nat.add_sub_cancel_left]

theorem escapedAt_succ (h : b[i]? = some c) :
    escapedAt b (i + 1) = (!escapedAt b i && c == '\\') := by
  have htake : b.take (i + 1) = b.take i ++ [c] := by
    rw [take_add_one, h]
    rfl
  rw [escapedAt, htake, escaped_append]
  rfl

variable {b : Chars}

theorem exists_of_escapedAt (hi : i ≤ b.length) (h : escapedAt b i = true) :
    ∃ j, i = j + 1 ∧ b[j]? = some '\\' ∧ escapedAt b j = false := by
  cases i with
  | zero => simp [escapedAt, escaped] at h
  | succ j =>
    have hget : b[j]? = some b[j] := getElem?_eq_getElem (by omega)
    rw [escapedAt_succ hget, and_eq_true, not_eq_true', beq_iff_eq] at h
    exact ⟨j, rfl, by rw [hget, h.2], h.1⟩

theorem BreakAt.lt_length (h : BreakAt b i) : i < b.length := by
  obtain ⟨_, c, hc, _⟩ := h
  exact (List.getElem?_eq_some_iff.mp hc).1

-- The first line of a text: nothing breaks it, and a break ends it.
structure IsLine (line w : Chars) : Prop where
  isStart : line <+: w
  unbroken : ∀ i ≤ line.length, ¬ BreakAt w i
  ended : line.length = w.length ∨ BreakAt w (line.length + 1)

theorem IsLine.append (h : IsLine line w) (ha : escaped false a = false)
    (hbefore : ∀ i < a.length, ¬ BreakAt (a ++ w) i) : IsLine (a ++ line) (a ++ w) where
  isStart := (prefix_append_right_inj a).mpr h.isStart
  unbroken := by
    intro i hi
    by_cases hlt : i < a.length
    · exact hbefore i hlt
    · obtain ⟨k, rfl⟩ := Nat.exists_eq_add_of_le (Nat.le_of_not_lt hlt)
      rw [breakAt_append ha]
      rw [length_append] at hi
      exact h.unbroken k (by omega)
  ended := by
    rw [length_append, length_append, add_assoc, breakAt_append ha]
    exact h.ended.imp (fun hlen => by omega) id

theorem not_breakAt_zero (b : Chars) : ¬ BreakAt b 0 := by
  intro h
  have := h.1
  simp [escapedAt, escaped] at this

theorem breakAt_one_iff (c d : Char) (rest : Chars) :
    BreakAt (c :: d :: rest) 1 ↔ c = '\\' ∧ isBreak d := by
  simp [BreakAt, escapedAt, escaped]

theorem isLine_cutAtEscape (w : Chars) : IsLine (cutAtEscape ['n', 'r'] w) w := by
  induction w using cutAtEscape.induct ['n', 'r'] with
  | case1 =>
    refine ⟨ nil_prefix, ?_, .inl rfl⟩
    intro i _ hbreak
    exact absurd hbreak.lt_length (by simp)
  | case2 c =>
    refine ⟨prefix_rfl, ?_, .inl rfl⟩
    intro i hi hbreak
    have h0 : i = 0 := by simpa using hbreak.lt_length
    exact not_breakAt_zero _ (h0 ▸ hbreak)
  | case3 d rest hd =>
    have hcut : cutAtEscape ['n', 'r'] ('\\' :: d :: rest) = [] := by simp [cutAtEscape, hd]
    rw [hcut]
    refine ⟨ nil_prefix, ?_, .inr ((breakAt_one_iff _ _ _).mpr ⟨rfl, by simpa [isBreak] using hd⟩)⟩
    intro i hi
    have h0 : i = 0 := by simpa using hi
    exact h0 ▸ not_breakAt_zero _
  | case4 d rest hd ih =>
    have hcut : cutAtEscape ['n', 'r'] ('\\' :: d :: rest)
        = ['\\', d] ++ cutAtEscape ['n', 'r'] rest := by simp [cutAtEscape, hd]
    rw [hcut]
    apply ih.append (by simp [escaped])
    intro i hi
    have hcases : i = 0 ∨ i = 1 := by
      have hlt : i < 2 := hi
      omega
    rcases hcases with rfl | rfl
    · exact not_breakAt_zero _
    · intro hbreak
      exact hd (by simpa [isBreak] using ((breakAt_one_iff _ _ _).mp hbreak).2)
  | case5 c d rest hc ih =>
    have hcut : cutAtEscape ['n', 'r'] (c :: d :: rest)
        = [c] ++ cutAtEscape ['n', 'r'] (d :: rest) := by
      rw [cutAtEscape, if_neg hc]
      rfl
    rw [hcut]
    apply ih.append (by simpa [escaped] using hc)
    intro i hi
    have h0 : i = 0 := by simpa using hi
    exact h0 ▸ not_breakAt_zero _

def MarkedIn (b : Chars) (x y : Nat) : Prop :=
  ∃ sig ∈ allowSignatures, ∃ m, x ≤ m ∧ m + sig.length ≤ y ∧ sig <+: b.drop m

structure AllowedLine (b : Chars) (span : Span) : Prop where
  le : span.start ≤ span.stop
  stop_le : span.stop ≤ b.length
  unbroken : ∀ i, span.start ≤ i → i ≤ span.stop → ¬ BreakAt b i
  marked : MarkedIn b span.start span.stop
  starts : span.start = 0 ∨ 0 < span.start ∧ BreakAt b (span.start - 1)
  ended : span.stop = b.length ∨ BreakAt b (span.stop + 1)

theorem hasAllowMarker_iff (s : Chars) : hasAllowMarker s = true ↔ ∃ sig ∈ allowSignatures, sig <:+: s := by
  rw [hasAllowMarker, any_eq_true]
  simp only [contains_iff]

theorem markedIn_append {line a : Chars} (hline : line <+: w) :
    hasAllowMarker line = true ↔ MarkedIn (a ++ w) a.length (a.length + line.length) := by
  obtain ⟨rest, rfl⟩ := hline
  rw [hasAllowMarker_iff]
  constructor
  · rintro ⟨sig, hsig, x, y, rfl⟩
    refine ⟨sig, hsig, a.length + x.length, by omega, by simp; omega, ?_⟩
    have hsplit : a ++ (x ++ sig ++ y ++ rest) = (a ++ x) ++ (sig ++ (y ++ rest)) := by simp
    rw [hsplit, ← length_append, drop_left]
    exact prefix_append _ _
  · rintro ⟨sig, hsig, m, hm, hend, hpre⟩
    obtain ⟨k, rfl⟩ := Nat.exists_eq_add_of_le hm
    refine ⟨sig, hsig, ?_⟩
    rw [drop_length_add_append, drop_append_of_le_length (by omega)] at hpre
    have hin : sig <+: line.drop k := by
      apply prefix_of_prefix_length_le hpre (prefix_append _ _)
      rw [length_drop]
      omega
    exact hin.isInfix.trans (drop_suffix k line).isInfix

theorem IsLine.next {a line w : Chars} (h : IsLine line w) (ha : escaped false a = false)
    (hlong : line.length + 2 ≤ w.length) :
    escaped false ((a ++ w).take (a.length + line.length + 2)) = false ∧
      BreakAt (a ++ w) (a.length + line.length + 1) := by
  have hbreak : BreakAt (a ++ w) (a.length + line.length + 1) := by
    rw [add_assoc, breakAt_append ha]
    rcases h.ended with hlen | hbreak
    · omega
    · exact hbreak
  refine ⟨?_, hbreak⟩
  obtain ⟨hesc, c, hc, -⟩ := hbreak
  have hnext := escapedAt_succ hc
  rw [hesc] at hnext
  simpa [escapedAt] using hnext

section Lines

variable {a rest : Chars}

-- The loop invariant of allowedLines: `a` is what is behind, and a line starts here.
structure AtLine (a : Chars) (b : Chars) : Prop where
  plain : escaped false a = false
  starts : a = [] ∨ BreakAt b (a.length - 1)

theorem IsLine.atLine {line : Chars} (h : IsLine line rest) (hat : AtLine a (a ++ rest))
    (hlong : line.length + 2 ≤ rest.length) :
    ∃ a', a ++ rest = a' ++ rest.drop (line.length + 2) ∧ a'.length = a.length + line.length + 2 ∧
      AtLine a' (a ++ rest) := by
  obtain ⟨hplain, hbreak⟩ := h.next hat.plain hlong
  refine ⟨a ++ rest.take (line.length + 2), by simp, by simp; omega, ?_, .inr ?_⟩
  · rwa [add_assoc, take_length_add_append] at hplain
  · have hlen : (a ++ rest.take (line.length + 2)).length - 1 = a.length + line.length + 1 := by
      simp
      omega
    rwa [hlen]

theorem allowedLine_of_mem (hat : AtLine a (a ++ rest))
    (h : span ∈ allowedLinesFrom fuel a.length rest) : AllowedLine (a ++ rest) span := by
  induction fuel generalizing a rest with
  | zero => simp [allowedLinesFrom] at h
  | succ fuel ih =>
    have hline := isLine_cutAtEscape rest
    have hlen := hline.isStart.length_le
    -- the line that starts here
    have hhere : hasAllowMarker (cutAtEscape ['n', 'r'] rest) = true →
        AllowedLine (a ++ rest) ⟨a.length, a.length + (cutAtEscape ['n', 'r'] rest).length⟩ := by
      intro hmark
      refine ⟨by simp, by simp; omega, ?_, (markedIn_append hline.isStart).mp hmark, ?_, ?_⟩
      · intro i hi hi'
        obtain ⟨k, rfl⟩ := Nat.exists_eq_add_of_le hi
        rw [breakAt_append hat.plain]
        exact hline.unbroken k (by simpa using hi')
      · rcases hat.starts with rfl | hbreak
        · exact .inl rfl
        · by_cases h0 : a.length = 0
          · exact .inl h0
          · exact .inr ⟨Nat.pos_of_ne_zero h0, hbreak⟩
      · rw [length_append, add_assoc, breakAt_append hat.plain]
        exact hline.ended.imp (fun h => by simp [h]) id
    have hfound : span ∈ (if hasAllowMarker (cutAtEscape ['n', 'r'] rest) then
        [(⟨a.length, a.length + (cutAtEscape ['n', 'r'] rest).length⟩ : Span)] else []) →
        AllowedLine (a ++ rest) span := by
      intro hmem
      split_ifs at hmem with hmark
      · rw [mem_singleton] at hmem
        exact hmem ▸ hhere hmark
      · cases hmem
    rw [allowedLinesFrom] at h
    by_cases hlong : (cutAtEscape ['n', 'r'] rest).length + 2 ≤ rest.length
    · rw [if_pos hlong, mem_append] at h
      rcases h with h | h
      · exact hfound h
      · obtain ⟨a', heq, hlen', hat'⟩ := hline.atLine hat hlong
        rw [← hlen'] at h
        rw [heq] at hat' ⊢
        exact ih hat' h
    · rw [if_neg hlong] at h
      exact hfound h

theorem exists_allowedLine (hat : AtLine a (a ++ rest)) (hfuel : rest.length < fuel)
    (hx : a.length ≤ x) (hy : y ≤ (a ++ rest).length)
    (hunbroken : ∀ i, x ≤ i → i ≤ y → ¬ BreakAt (a ++ rest) i) (hmarked : MarkedIn (a ++ rest) x y) :
    ∃ span ∈ allowedLinesFrom fuel a.length rest, span.start ≤ x ∧ y ≤ span.stop := by
  induction fuel generalizing a rest with
  | zero => omega
  | succ fuel ih =>
    have hline := isLine_cutAtEscape rest
    rw [allowedLinesFrom]
    by_cases hin : y ≤ a.length + (cutAtEscape ['n', 'r'] rest).length
    · -- the stretch lies in the line that starts here, which then carries the marker
      have hmark : hasAllowMarker (cutAtEscape ['n', 'r'] rest) = true := by
        rw [markedIn_append hline.isStart (a := a)]
        obtain ⟨sig, hsig, m, hm, hend, hpre⟩ := hmarked
        exact ⟨sig, hsig, m, by omega, by omega, hpre⟩
      refine ⟨⟨a.length, a.length + (cutAtEscape ['n', 'r'] rest).length⟩, ?_, hx, hin⟩
      by_cases hlong : (cutAtEscape ['n', 'r'] rest).length + 2 ≤ rest.length
      · rw [if_pos hlong, if_pos hmark]
        simp
      · rw [if_neg hlong, if_pos hmark]
        simp
    · -- the line ends before the stretch does, so it ends before the stretch starts
      have hlong : (cutAtEscape ['n', 'r'] rest).length + 2 ≤ rest.length := by
        rw [length_append] at hy
        rcases hline.ended with hlen' | hbreak
        · omega
        · have := hbreak.lt_length
          omega
      obtain ⟨a', heq, hlen', hat'⟩ := hline.atLine hat hlong
      have hbreak := (hline.next hat.plain hlong).2
      have hx' : a'.length ≤ x := by
        have hle : ¬ x ≤ a.length + (cutAtEscape ['n', 'r'] rest).length + 1 :=
          fun hle => hunbroken _ hle (by omega) hbreak
        omega
      rw [heq] at hat' hy hunbroken hmarked
      obtain ⟨span, hmem, hspan⟩ := ih hat' (by simp; omega) hx' hy hunbroken hmarked
      rw [hlen'] at hmem
      refine ⟨span, ?_, hspan⟩
      rw [if_pos hlong]
      exact mem_append_right _ hmem

end Lines

theorem atLine_nil (b : Chars) : AtLine [] b := ⟨rfl, .inl rfl⟩

theorem within_of_unbroken (lo hi : Nat) (hhi : hi ≤ b.length)
    (hunbroken : ∀ i, lo ≤ i → i ≤ hi → ¬ BreakAt b i) (hmarked : MarkedIn b lo hi) (hx : lo ≤ x)
    (hy : y ≤ hi) : within (allowedLines b) x y = true := by
  obtain ⟨span, hmem, hstart, hstop⟩ := exists_allowedLine (a := []) (atLine_nil b)
    (lt_succ_self b.length) (zero_le _) hhi hunbroken hmarked
  rw [within, any_eq_true]
  refine ⟨span, hmem, ?_⟩
  simp only [and_eq_true, decide_eq_true_eq]
  omega

theorem within_iff :
    within (allowedLines b) x y = true ↔ ∃ span, AllowedLine b span ∧ span.start ≤ x ∧ y ≤ span.stop := by
  constructor
  · intro h
    rw [within, any_eq_true] at h
    simp only [and_eq_true, decide_eq_true_eq] at h
    obtain ⟨span, hmem, hspan⟩ := h
    exact ⟨span, allowedLine_of_mem (a := []) (atLine_nil b) hmem, hspan⟩
  · rintro ⟨span, hline, hx, hy⟩
    exact within_of_unbroken _ _ hline.stop_le hline.unbroken hline.marked hx hy

end Chainloop.Redaction
