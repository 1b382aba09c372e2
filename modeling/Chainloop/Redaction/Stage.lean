import Chainloop.Redaction.Body
import Chainloop.Redaction.Lines
import Chainloop.Redaction.Redact

namespace Chainloop.Redaction

open Go Json Text Nat
open List hiding span

abbrev Pieces := List (Piece Char SecretRule)

-- What stands in a body for an occurrence of a secret.
def Redactor.shown (r : Redactor) (sr : SecretRule) : Chars := encodeStringBody (r.placeholder sr.ruleID)

-- A body in which some occurrences of the secrets are replaced.
structure Rewriting (P : SecretRule → Prop) (b : Chars) (ps : Pieces) : Prop where
  whole : source ps = b.zipIdx
  swaps : ∀ t sr, .swap t sr ∈ ps → P sr ∧ sr.secret ≠ [] ∧ t.map Prod.fst = sr.secret

-- Where the text shows `d`, it shows characters of the body.
def Original (new : SecretRule → Chars) (d : Chars) (ps : Pieces) : Prop :=
  ∀ i < (text new ps).length, d <+: (text new ps).drop i →
    ∀ c ∈ ((cells new ps).drop i).take d.length, c.2.isSome = true

instance (new : SecretRule → Chars) (d : Chars) (ps : Pieces) : Decidable (Original new d ps) :=
  inferInstanceAs (Decidable (∀ i < (text new ps).length, d <+: (text new ps).drop i →
    ∀ c ∈ ((cells new ps).drop i).take d.length, c.2.isSome = true))

-- Whichever occurrences of the secrets are replaced in the body, the placeholders
-- are no part of a secret or a marker, and a secret that meets a marked line or the
-- line breaks around it lies on the line.
structure Redactor.Calm (r : Redactor) (P : SecretRule → Prop) (b : Chars) : Prop where
  apart : ∀ ps, Rewriting P b ps → ∀ sr, P sr → Original r.shown sr.secret ps
  markers : r.allowMarkers = true → ∀ ps, Rewriting P b ps → ∀ sig ∈ allowSignatures, Original r.shown sig ps
  lines : r.allowMarkers = true → ∀ sr, P sr → ∀ i, sr.secret <+: b.drop i → ∀ span, AllowedLine b span →
    i < span.stop + 2 → span.start < i + sr.secret.length + 2 → span.start ≤ i ∧ i + sr.secret.length ≤ span.stop

def Redactor.OnLine (r : Redactor) (b : Chars) (i len : Nat) : Prop :=
  r.allowMarkers = true ∧ ∃ span, AllowedLine b span ∧ span.start ≤ i ∧ i + len ≤ span.stop

-- No escape reaches over the end of an occurrence that was taken.
def aligned : Bool → Pieces → Prop
  | _, [] => True
  | st, .lit c :: ps => aligned (escaped st [c.1]) ps
  | st, .swap t _ :: ps => escaped st (t.map Prod.fst) = false ∧ aligned false ps

-- The line and the breaks around it are as they were.
def Intact (b : Chars) (ps : Pieces) (span : Span) : Prop :=
  ∀ c ∈ b.zipIdx, span.start ≤ c.2 + 2 → c.2 < span.stop + 2 → .lit c ∈ ps

-- What holds of a body while it is rewritten. The secrets that are done are left on
-- marked lines only.
structure Redactor.Stage (r : Redactor) (P : SecretRule → Prop) (b : Chars) (done : Chars → Prop) (ps : Pieces) :
    Prop where
  rewriting : Rewriting P b ps
  aligned : aligned false ps
  intact : r.allowMarkers = true → ∀ span, AllowedLine b span → Intact b ps span
  left : ∀ X hit Y, ps = X ++ (lits hit ++ Y) → hit ≠ [] → done (hit.map Prod.fst) →
    r.OnLine b (source X).length hit.length

-- Placeholders start with a character that continues no escape.
def breaksFirst (q : Chars) : Bool := q.head?.any breaksEscape

theorem exists_of_breaksFirst (h : breaksFirst q = true) :
    ∃ c rest, q = c :: rest ∧ breaksEscape c = true := by
  cases q with
  | nil => simp [breaksFirst] at h
  | cons c rest => exact ⟨c, rest, rfl, by simpa [breaksFirst] using h⟩

theorem escaped_of_breaksFirst (h : breaksFirst (encodeStringBody p) = true) (st : Bool) :
    escaped st (encodeStringBody p) = false := by
  obtain ⟨c, rest, hq, hc⟩ := exists_of_breaksFirst h
  have hmem : c ∈ encodeStringBody p := by simp [hq]
  rw [escaped_of_mem hmem (bare_ne_backslash (breaksEscape_spec hc).1) st false, Bool.eq_false_iff]
  exact (lex_esc_iff (lex_encode p)).not.mp (by simp)

theorem escaped_gap_append (hfirst : First old gap) (heven : escaped false old = false) :
    escaped false (gap ++ old) = false := by
  rw [escaped_append]
  by_cases hall : ∃ c ∈ old, c ≠ '\\'
  · obtain ⟨c, hc, hne⟩ := hall
    rw [escaped_of_mem hc hne _ false, heven]
  · -- a secret of backslashes is found at the start of their run
    have hrep : old = replicate old.length '\\' := by
      apply eq_replicate_of_mem
      intro c hc
      by_contra hne
      exact hall ⟨c, hc, hne⟩
    rcases eq_nil_or_concat gap with rfl | ⟨front, c, rfl⟩
    · exact heven
    · have hc : c ≠ '\\' := by
        rintro rfl
        apply hfirst front.length (by simp)
        rw [concat_eq_append, append_assoc, drop_left, singleton_append]
        have hrun : '\\' :: old = old ++ ['\\'] := by
          rw [hrep, ← replicate_succ, replicate_succ']
        rw [hrun]
        exact prefix_append _ _
      have hplain : escaped false (front ++ [c]) = false := by
        simp [escaped_append, escaped, hc]
      rw [concat_eq_append, hplain, heven]

section Escapes

variable {new : SecretRule → Chars} {ps ps' : Pieces}

theorem aligned_append (st : Bool) (A B : Pieces) :
    aligned st (A ++ B) ↔ aligned st A ∧ aligned (escaped st ((source A).map Prod.fst)) B := by
  induction A generalizing st with
  | nil => simp [aligned, escaped]
  | cons p A ih =>
    cases p with
    | lit c => simp [aligned, ih, source, Piece.source, escaped]
    | swap t sr => simp +contextual [aligned, ih, escaped_append, and_assoc]

-- Escapes are read in the rewritten text as they were.
theorem escaped_text (hclean : ∀ t sr, .swap t sr ∈ ps → ∀ st, escaped st (new sr) = false) (st : Bool)
    (h : aligned st ps) : escaped st (text new ps) = escaped st ((source ps).map Prod.fst) := by
  induction ps generalizing st with
  | nil => rfl
  | cons p ps ih =>
    have htail := ih fun t sr ht => hclean t sr (mem_cons_of_mem _ ht)
    cases p with
    | lit c => exact htail _ h
    | swap t sr =>
      rw [text_swap, source_swap, map_append, escaped_append, escaped_append, hclean t sr mem_cons_self, h.1]
      exact htail _ h.2

theorem aligned_of_sweep (h : Sweep new old i keep pos ps ps') (heven : escaped false old = false)
    (hclean : ∀ t sr, .swap t sr ∈ ps → ∀ st, escaped st (new sr) = false) (hps : aligned false ps) :
    aligned false ps' := by
  induction h with
  | done => exact hps
  | @turn pos A B B' mid hit hhit hfirst hmid _ ih =>
    obtain ⟨hA, hrest⟩ := (aligned_append _ _ _).mp hps
    obtain ⟨hlits, hB⟩ := (aligned_append _ _ _).mp hrest
    have hend : escaped (escaped false ((source A).map Prod.fst)) old = false := by
      rw [← escaped_text (fun t sr ht => hclean t sr (by simp [ht])) false hA, ← escaped_append]
      exact escaped_gap_append hfirst heven
    rw [source_lits, hhit, hend] at hB
    have hB' := ih (fun t sr ht => hclean t sr (by simp [ht])) hB
    refine (aligned_append _ _ _).mpr ⟨hA, (aligned_append _ _ _).mpr ?_⟩
    rcases (Sweep.mid_eq hmid).2 with ⟨-, rfl⟩ | ⟨-, rfl⟩
    · exact ⟨hlits, by rwa [source_lits, hhit, hend]⟩
    · refine ⟨⟨by rwa [hhit], trivial⟩, ?_⟩
      simpa [hhit, hend] using hB'

end Escapes

section Lines

variable {u u' R v v' : Chars} (hesc : escaped false u' = escaped false u)
include hesc

theorem breakAt_mid (v v' : Chars) (hk : k < R.length) :
    BreakAt (u' ++ (R ++ v')) (u'.length + k) ↔ BreakAt (u ++ (R ++ v)) (u.length + k) := by
  have hat : ∀ u v : Chars, escapedAt (u ++ (R ++ v)) (u.length + k) = escaped (escaped false u) (R.take k) := by
    intro u v
    rw [escapedAt, take_length_add_append, take_append_of_le_length (le_of_lt hk), escaped_append]
  have hget : ∀ u v : Chars, (u ++ (R ++ v))[u.length + k]? = R[k]? := by
    intro u v
    rw [getElem?_append_right (by omega), Nat.add_sub_cancel_left, getElem?_append_left hk]
  rw [BreakAt, BreakAt, hat, hat, hget, hget, hesc]

-- A marked line that stands with its breaks in both texts is one in both.
theorem AllowedLine.transport (hu : u = [] → u' = []) (hv : v = [] → v' = []) (hlo : u = [] ∨ 2 ≤ s)
    (hhi : v = [] ∧ e ≤ R.length ∨ e + 2 ≤ R.length)
    (hline : AllowedLine (u ++ (R ++ v)) ⟨u.length + s, u.length + e⟩) :
    AllowedLine (u' ++ (R ++ v')) ⟨u'.length + s, u'.length + e⟩ := by
  have hbreak {k : Nat} (hk : k < R.length) := breakAt_mid hesc v v' hk
  have he : e ≤ R.length := by omega
  have hse := hline.le
  refine ⟨by simpa using hse, by simp; omega, fun i hi hi' => ?_, ?_, ?_, ?_⟩
  · obtain ⟨k, rfl⟩ := Nat.exists_eq_add_of_le (show u'.length ≤ i by simp at hi; omega)
    simp only [Nat.add_le_add_iff_left] at hi hi'
    by_cases hk : k < R.length
    · rw [hbreak hk]
      exact hline.unbroken _ (by simpa using hi) (by simpa using hi')
    · have hv' : v' = [] := hv (hhi.elim And.left fun h => by omega)
      intro h
      have := h.lt_length
      simp [hv'] at this
      omega
  · obtain ⟨sig, hsig, m, hm, hend, hpre⟩ := hline.marked
    simp only at hm hend
    obtain ⟨k, rfl⟩ := Nat.exists_eq_add_of_le (show u.length ≤ m by omega)
    refine ⟨sig, hsig, u'.length + k, by simpa using hm, by simp; omega, ?_⟩
    rw [drop_length_add_append, drop_append_of_le_length (by omega)] at hpre ⊢
    exact (prefix_of_prefix_length_le hpre (prefix_append _ _) (by rw [length_drop]; omega)).trans (prefix_append _ _)
  · rcases hline.starts with h0 | ⟨hpos, h⟩
    · simp only [Nat.add_eq_zero_iff, length_eq_zero_iff] at h0 ⊢
      exact .inl ⟨hu h0.1, h0.2⟩
    · simp only at hpos h
      have hs : 0 < s := by
        rcases hlo with rfl | hs
        · simpa using hpos
        · omega
      have hsR : s - 1 < R.length := by
        simp only at hse
        omega
      rw [Nat.add_sub_assoc hs, ← hbreak hsR, ← Nat.add_sub_assoc hs] at h
      exact .inr ⟨by simp only; omega, h⟩
  · rcases hline.ended with hlen | h
    · simp only [length_append] at hlen ⊢
      have hv0 : v = [] := hhi.elim And.left fun h => by omega
      rw [hv hv0]
      subst hv0
      left
      simp at hlen ⊢
      omega
    · have hlt := h.lt_length
      simp only [length_append] at hlt
      have hkR : e + 1 < R.length := by
        rcases hhi with ⟨rfl, -⟩ | h
        · simp at hlt
          omega
        · omega
      simp only at h ⊢
      rw [Nat.add_assoc, ← hbreak hkR, ← Nat.add_assoc] at h
      exact .inr h

end Lines

theorem AllowedLine.subset (h : AllowedLine b span) (h' : AllowedLine b span') (hm : span.start ≤ m)
    (hm' : m ≤ span.stop) (hn : span'.start ≤ m) (hn' : m ≤ span'.stop) :
    span.start ≤ span'.start ∧ span'.stop ≤ span.stop := by
  constructor
  · by_contra hlt
    obtain h0 | ⟨-, hbreak⟩ := h.starts
    · omega
    · exact h'.unbroken _ (by omega) (by omega) hbreak
  · by_contra hlt
    obtain h0 | hbreak := h.ended
    · have := h'.stop_le
      omega
    · exact h'.unbroken _ (by omega) (by omega) hbreak

-- A marker lies on a line, as it holds no backslash and does not start with the
-- letter of a break.
theorem exists_line_of_marker (hsig : sig ∈ allowSignatures) (h : sig <+: b.drop m) :
    ∃ span, AllowedLine b span ∧ span.start ≤ m ∧ m + sig.length ≤ span.stop := by
  have hchars : ∀ sig ∈ allowSignatures, '\\' ∉ sig ∧ ¬ (sig.head? = some 'n' ∨ sig.head? = some 'r') := by decide
  have hne : ∀ sig ∈ allowSignatures, sig ≠ [] := by decide
  obtain ⟨hslash, hhead⟩ := hchars sig hsig
  have hpos := length_pos_iff.mpr (hne sig hsig)
  have hlen := h.length_le
  rw [length_drop] at hlen
  have hget : ∀ k, k < sig.length → b[m + k]? = sig[k]? := by
    intro k hk
    obtain ⟨rest, hrest⟩ := h
    rw [← getElem?_drop, ← hrest, getElem?_append_left hk]
  rw [← within_iff]
  refine within_of_unbroken m (m + sig.length) (by omega) (fun i hi hi' hbreak => ?_)
    ⟨sig, hsig, m, le_refl m, le_refl _, h⟩ (le_refl m) (le_refl _)
  obtain ⟨k, rfl⟩ := Nat.exists_eq_add_of_le hi
  obtain ⟨hesc, c, hc, hisBreak⟩ := hbreak
  cases k with
  | zero =>
    rw [hget 0 hpos, ← head?_eq_getElem?] at hc
    rw [hc, Option.some_inj, Option.some_inj] at hhead
    exact hhead hisBreak
  | succ k =>
    obtain ⟨j, hj, hback, -⟩ := exists_of_escapedAt (by omega) hesc
    rw [show j = m + k by omega, hget k (by omega)] at hback
    exact hslash (mem_of_getElem? hback)

section Rewriting

variable {P : SecretRule → Prop} {r : Redactor} {b : Chars} {ps : Pieces}

theorem Rewriting.nonempty (h : Rewriting P b ps) (hbreaks : ∀ sr, P sr → breaksFirst (r.shown sr) = true) :
    ∀ p ∈ ps, p.source ≠ [] ∧ p.cells r.shown ≠ [] := by
  intro p hp
  cases p with
  | lit c => simp [Piece.source, Piece.cells]
  | swap t sr =>
    obtain ⟨hP, hne, ht⟩ := h.swaps t sr hp
    obtain ⟨c, rest, hq, -⟩ := exists_of_breaksFirst (hbreaks sr hP)
    refine ⟨?_, by simp [Piece.cells, hq]⟩
    rintro rfl
    exact hne ht.symm

theorem Rewriting.nodup (h : Rewriting P b ps) : (source ps).Nodup := by
  rw [h.whole]
  refine .of_map Prod.snd ?_
  rw [zipIdx_map_snd]
  exact nodup_range'

theorem Rewriting.split (h : Rewriting P b (X ++ (lits hit ++ Y))) :
    b = (source X).map Prod.fst ++ (hit.map Prod.fst ++ (source Y).map Prod.fst) := by
  have hb := congrArg (map Prod.fst) h.whole
  rw [zipIdx_map_fst] at hb
  simp [← hb]

theorem Rewriting.occurs (h : Rewriting P b (X ++ (lits hit ++ Y))) :
    hit.map Prod.fst <+: b.drop (source X).length := by
  rw [h.split, ← length_map Prod.fst, drop_left]
  exact prefix_append _ _

theorem Rewriting.pos (h : Rewriting P b (X ++ (lits hit ++ Y))) (hc : c ∈ hit) :
    (source X).length ≤ c.2 ∧ c.2 < (source X).length + hit.length := by
  obtain ⟨k, hk, rfl⟩ := getElem_of_mem hc
  have hwhole := h.whole
  rw [source_append, source_append, source_lits] at hwhole
  have hget : b.zipIdx[(source X).length + k]? = some hit[k] := by
    rw [← hwhole, getElem?_append_right (by omega), Nat.add_sub_cancel_left, getElem?_append_left hk,
      getElem?_eq_getElem hk]
  obtain ⟨hlt, hget⟩ := List.getElem?_eq_some_iff.mp hget
  rw [← hget, getElem_zipIdx]
  simp
  omega

-- An occurrence that shows characters of the body is one of the body.
theorem Original.block (h : Original r.shown d ps) (hd : d ≠ []) (hrew : Rewriting P b ps)
    (hbreaks : ∀ sr, P sr → breaksFirst (r.shown sr) = true) (hocc : d <+: (text r.shown ps).drop i) :
    ∃ X hit Y, ps = X ++ (lits hit ++ Y) ∧ hit.map Prod.fst = d ∧ (text r.shown X).length = i := by
  have hlen := hocc.length_le
  have hpos := length_pos_iff.mpr hd
  rw [length_drop] at hlen
  have horig := h i (by omega) hocc
  have hfst : (((cells r.shown ps).drop i).take d.length).map Prod.fst = d := by
    rw [map_take, map_drop]
    exact (prefix_iff_eq_take.mp hocc).symm
  obtain ⟨X, hit, Y, rfl, hX, hhit, -⟩ := exists_block
    (fun t sr ht => by simpa [Piece.cells] using (hrew.nonempty hbreaks _ ht).2)
    (by rintro hnil; rw [hnil] at hfst; exact hd hfst.symm) horig ((cells r.shown ps).take i)
    (((cells r.shown ps).drop i).drop d.length) (by simp)
  refine ⟨X, hit, Y, rfl, ?_, ?_⟩
  · rw [← hfst, ← hhit]
    simp [original, Function.comp_def]
  · rw [← length_cells, hX, length_take, length_cells]
    omega

end Rewriting

section Stage

variable {P : SecretRule → Prop} {r : Redactor} {b : Chars} {done : Chars → Prop} {ps : Pieces}
  (hst : r.Stage P b done ps) (hbreaks : ∀ sr, P sr → breaksFirst (r.shown sr) = true)
include hst hbreaks

-- A marked line of the body is one of the rewritten body.
theorem Redactor.Stage.shown_line (hallow : r.allowMarkers = true) (hline : AllowedLine b span) :
    ∃ X R s e, X ++ lits R <+: ps ∧ span = ⟨(source X).length + s, (source X).length + e⟩ ∧ e ≤ R.length ∧
      AllowedLine (text r.shown ps) ⟨(text r.shown X).length + s, (text r.shown X).length + e⟩ := by
  have hintact := hst.intact hallow span hline
  have hrew := hst.rewriting
  have hle := hline.le
  have hstop := hline.stop_le
  have hwide : span.start < span.stop := by
    obtain ⟨sig, hsig, m, hm, hend, -⟩ := hline.marked
    have hne : ∀ sig ∈ allowSignatures, sig ≠ [] := by decide
    have := length_pos_iff.mpr (hne sig hsig)
    omega
  let lo := span.start - 2
  let R := (b.zipIdx.drop lo).take (span.stop + 2 - lo)
  have hRlen : R.length = min (span.stop + 2 - lo) (b.length - lo) := by simp [R]
  have hR : R ≠ [] := by
    intro hnil
    rw [hnil, length_nil] at hRlen
    omega
  have hmem : ∀ c ∈ R, .lit c ∈ ps := by
    intro c hc
    obtain ⟨k, hk, rfl⟩ := getElem_of_mem hc
    have hat : (R[k]).2 = lo + k := by simp [R]
    exact hintact _ (mem_of_mem_drop (mem_of_mem_take hc)) (by omega) (by omega)
  have hsplit : source ps = b.zipIdx.take lo ++ (R ++ (b.zipIdx.drop lo).drop (span.stop + 2 - lo)) := by
    rw [hrew.whole, take_append_drop, take_append_drop]
  obtain ⟨X, Y, rfl, hX, hY⟩ := exists_block_of_mem hrew.nodup
    (fun t sr ht => (hrew.nonempty hbreaks _ ht).1) hR hmem _ _ hsplit
  have hXlen : (source X).length = lo := by
    rw [hX]
    simp [lo]
    omega
  obtain ⟨halX, -⟩ := (aligned_append _ _ _).mp hst.aligned
  have hclean : ∀ t sr, .swap t sr ∈ X → ∀ st, escaped st (r.shown sr) = false := fun t sr ht st =>
    escaped_of_breaksFirst (hbreaks sr (hrew.swaps t sr (by simp [ht])).1) st
  have hnil : ∀ {M : Pieces}, (∀ p ∈ M, p ∈ X ++ (lits R ++ Y)) → (source M).map Prod.fst = [] → text r.shown M = [] := by
    intro M hM hnil
    cases M with
    | nil => rfl
    | cons p M =>
      have hsource := (hrew.nonempty hbreaks p (hM p mem_cons_self)).1
      simp [source, hsource] at hnil
  have hspan : span = ⟨(source X).length + (span.start - lo), (source X).length + (span.stop - lo)⟩ := by
    rw [hXlen, Nat.add_sub_cancel' (by omega), Nat.add_sub_cancel' (by omega)]
  refine ⟨X, R, span.start - lo, span.stop - lo, by simp, hspan, by omega, ?_⟩
  rw [hspan, hrew.split, ← length_map Prod.fst] at hline
  rw [text_append, text_append, text_lits]
  refine hline.transport (escaped_text hclean false halX) (hnil fun p hp => by simp [hp])
    (hnil fun p hp => by simp [hp]) ?_ ?_
  · by_cases h2 : 2 ≤ span.start
    · right
      omega
    · left
      rw [← length_eq_zero_iff, length_map]
      omega
  · by_cases hend : span.stop + 2 ≤ b.length
    · right
      rw [length_map]
      omega
    · left
      refine ⟨?_, by rw [length_map]; omega⟩
      rw [hY, ← length_eq_zero_iff, length_map]
      simp
      omega

theorem Redactor.Stage.line_iff (hcalm : r.Calm P b) (hallow : r.allowMarkers = true)
    (heq : ps = A ++ (lits hit ++ B)) :
    within (allowedLines (text r.shown ps)) (text r.shown A).length ((text r.shown A).length + hit.length) = true ↔
      r.OnLine b (source A).length hit.length := by
  have hne := hst.rewriting.nonempty hbreaks
  have hA : A <+: ps := by simp [heq]
  constructor
  · intro hin
    obtain ⟨span', hline', hlo, hhi⟩ := within_iff.mp hin
    obtain ⟨sig, hsig, m, hm, hmend, hmark⟩ := hline'.marked
    have hsigne : ∀ sig ∈ allowSignatures, sig ≠ [] := by decide
    have hsigpos := length_pos_iff.mpr (hsigne sig hsig)
    obtain ⟨S, cs, S', hS, hcs, rfl⟩ := (hcalm.markers hallow ps hst.rewriting sig hsig).block (hsigne sig hsig)
      hst.rewriting hbreaks hmark
    have hmark' : sig <+: b.drop (source S).length := by
      rw [← hcs]
      exact (hS ▸ hst.rewriting).occurs
    obtain ⟨span, hline, hms, hme⟩ := exists_line_of_marker hsig hmark'
    obtain ⟨X, R, s, e, hX, rfl, he, hlineW⟩ := hst.shown_line hbreaks hallow hline
    simp only at hms hme
    have hdist := length_text_of_block hne hX (show S <+: ps by simp [hS]) (.inl ⟨by omega, by omega⟩)
    obtain ⟨hstart, hstop⟩ := hlineW.subset hline' (m := (text r.shown S).length) (by simp only; omega)
      (by simp only; omega) hm (by omega)
    simp only at hstart hstop
    have hdist' := length_text_of_block hne hX hA (.inr ⟨by omega, by omega⟩)
    exact ⟨hallow, _, hline, by simp only; omega, by simp only; omega⟩
  · rintro ⟨-, span, hline, hlo, hhi⟩
    obtain ⟨X, R, s, e, hX, rfl, he, hlineW⟩ := hst.shown_line hbreaks hallow hline
    simp only at hlo hhi
    have hdist := length_text_of_block hne hX hA (.inl ⟨by omega, by omega⟩)
    exact within_iff.mpr ⟨_, hlineW, by simp only; omega, by simp only; omega⟩

end Stage

section Step

variable {P : SecretRule → Prop} {r : Redactor} {b : Chars} {done : Chars → Prop} {ps : Pieces} {sr : SecretRule}
  {marked : Bool}

theorem substitute_eq (w : Rewriter) (marked : Bool) (sr : SecretRule) (b : Chars) :
    (w.substitute marked sr b).1 = substFrom id sr.secret (choice (fun f => marked && keeps b sr.secret f)
        sr.secret (encodeStringBody (w.placeholder sr.ruleID))) 0 0 b ∧
      ((w.substitute marked sr b).2.1 ≠ 0 →
        ∃ f ∈ startsFrom sr.secret 0 0 b, (marked && keeps b sr.secret f) = false) := by
  cases marked with
  | false =>
    refine ⟨rfl, fun h => ?_⟩
    obtain ⟨f, hf⟩ := exists_mem_of_length_pos (Nat.pos_of_ne_zero h)
    exact ⟨f, hf, rfl⟩
  | true =>
    refine ⟨rfl, fun h => ?_⟩
    obtain ⟨f, hf⟩ := exists_mem_of_length_pos (Nat.pos_of_ne_zero h)
    obtain ⟨hf, hkeep⟩ := mem_filter.mp hf
    exact ⟨f, hf, by simpa using hkeep⟩

-- In a calm body the substitution of a secret takes characters of the body only.
theorem Rewriting.sweeps (hrew : Rewriting P b ps) (keep : Nat → Bool) (hcalm : r.Calm P b)
    (hbreaks : ∀ sr, P sr → breaksFirst (r.shown sr) = true) (hP : P sr) (hne : sr.secret ≠ []) :
    ∃ ps', Sweep r.shown sr.secret sr keep 0 ps ps' := by
  have hpieces := hrew.nonempty hbreaks
  refine exists_sweep hne (fun hit => ∀ c ∈ hit, c.2.isSome = true) (fun B hB x hit y heq hhit horig =>
    exists_block (fun t j ht => by simpa [Piece.cells] using (hpieces _ (hB.subset ht)).2) hhit horig x y heq)
    fun x hit y heq hhit _ => ?_
  have hocc : sr.secret <+: (text r.shown ps).drop x.length := by
    rw [text, heq, map_append, map_append, hhit, ← length_map Prod.fst, drop_left]
    exact prefix_append _ _
  have hlen := hocc.length_le
  have hpos := length_pos_iff.mpr hne
  rw [length_drop] at hlen
  have horig := hcalm.apart ps hrew sr hP x.length (by omega) hocc
  rwa [heq, drop_left, ← hhit, length_map, take_left] at horig

-- One secret is substituted.
theorem Redactor.Stage.step (hst : r.Stage P b done ps) (hcalm : r.Calm P b)
    (hbreaks : ∀ sr, P sr → breaksFirst (r.shown sr) = true) (hP : P sr) (hne : sr.secret ≠ [])
    (heven : escaped false sr.secret = false)
    (hmarked : marked = true ↔ r.allowMarkers = true ∧ ∃ span, AllowedLine b span) (secrets : List SecretRule) :
    ∃ ps', r.Stage P b (fun d => done d ∨ d = sr.secret) ps' ∧
      cells r.shown ps' = (r.rewriter secrets).spliceSecret marked (cells r.shown ps) sr ∧
      (((r.rewriter secrets).substitute marked sr (text r.shown ps)).2.1 ≠ 0 → ∃ t, .swap t sr ∈ ps') := by
  obtain ⟨-, hcount⟩ := substitute_eq (r.rewriter secrets) marked sr (text r.shown ps)
  have hrew := hst.rewriting
  have hpieces := hrew.nonempty hbreaks
  obtain ⟨ps', hsweep⟩ := hrew.sweeps (fun f => marked && keeps (text r.shown ps) sr.secret f) hcalm hbreaks hP hne
  have hrew' : Rewriting P b ps' := by
    refine ⟨hsweep.source_eq.trans hrew.whole, fun t sr' ht => ?_⟩
    rcases hsweep.mem ht with ht | ⟨hit, heq, hhit⟩
    · exact hrew.swaps t sr' ht
    · cases heq
      exact ⟨hP, hne, hhit⟩
  have hkeep : ∀ {A hit B}, ps = A ++ (lits hit ++ B) → hit.map Prod.fst = sr.secret →
      ((marked && keeps (text r.shown ps) sr.secret (0 + (text r.shown A).length)) = true ↔
        r.OnLine b (source A).length sr.secret.length) := by
    intro A hit B heq hhit
    rw [Bool.and_eq_true, hmarked, keeps, Nat.zero_add, ← hhit, length_map]
    constructor
    · rintro ⟨⟨hallow, -⟩, hin⟩
      exact (hst.line_iff hbreaks hcalm hallow heq).mp hin
    · intro hon
      obtain ⟨hallow, span, hline, -⟩ := id hon
      exact ⟨⟨hallow, span, hline⟩, (hst.line_iff hbreaks hcalm hallow heq).mpr hon⟩
  have hocc : ∀ {ps X hit Y}, Rewriting P b ps → ps = X ++ (lits hit ++ Y) → hit.map Prod.fst = sr.secret →
      sr.secret <+: b.drop (source X).length := by
    intro ps X hit Y hrew heq hhit
    rw [← hhit]
    exact (heq ▸ hrew).occurs
  refine ⟨ps', ⟨hrew', ?_, fun hallow span hline c hc hlo hhi => ?_, fun X hit Y heq hhit hd => ?_⟩, ?_, ?_⟩
  · exact aligned_of_sweep hsweep heven (fun t sr ht => escaped_of_breaksFirst (hbreaks sr (hrew.swaps t sr ht).1)) hst.aligned
  · rcases hsweep.lit_mem (hst.intact hallow span hline c hc hlo hhi) with hc' | ⟨A, hit, B, heq, hhit, hmem, hno⟩
    · exact hc'
    · have hpos := (heq ▸ hrew).pos hmem
      have hlen : hit.length = sr.secret.length := by rw [← hhit, length_map]
      have hon := hcalm.lines hallow sr hP _ (hocc hrew heq hhit) span hline (by omega) (by omega)
      rw [(hkeep heq hhit).mpr ⟨hallow, span, hline, hon⟩] at hno
      cases hno
  · rcases hd with hd | hd
    · have hmem : ∀ c ∈ hit, .lit c ∈ ps := by
        intro c hc
        rcases hsweep.mem (p := .lit c) (heq ▸ by simp [mem_lits, hc]) with h | ⟨_, h, -⟩
        · exact h
        · cases h
      obtain ⟨A, B, rfl, hA, -⟩ := exists_block_of_mem hrew.nodup (fun t j ht => (hpieces _ ht).1) hhit hmem
        (source X) (source Y) (by rw [← hsweep.source_eq, heq]; simp)
      rw [← hA]
      exact hst.left A hit B rfl hhit hd
    · obtain ⟨A, hit', B, heq', hhit', hk, hle, hlt⟩ := hsweep.left hne hd X Y heq
      obtain ⟨hallow, span, hline, hlo, hhi⟩ := (hkeep heq' hhit').mp hk
      have hon := hcalm.lines hallow sr hP _ (hocc hrew' heq hd) span hline (by omega) (by omega)
      rw [← hd, length_map] at hon
      exact ⟨hallow, span, hline, hon⟩
  · exact (hsweep.splice_eq hne).symm
  · intro h
    obtain ⟨f, hf, hno⟩ := hcount h
    obtain ⟨_, hit, _, -, -, -, hswap⟩ := hsweep.found hne hf
    exact ⟨hit, hswap hno⟩

end Step

end Chainloop.Redaction
