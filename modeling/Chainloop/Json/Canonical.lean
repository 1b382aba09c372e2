import Chainloop.Json.Escape

-- Which string bodies are encodings. A body that was cut and pasted together is
-- read by a machine that knows the escapes the encoder writes. An escape that was
-- cut off is passed over when the next character cannot continue it, because the
-- decoder refuses such a body.
namespace Chainloop.Json

open List

def bare (c : Char) : Bool := escapeChar c == [c]

-- A character that continues no escape.
def breaksEscape (c : Char) : Bool :=
  bare c && (hexValue c).isNone && (unescapeChar c).isNone && c != 'u'

-- The codes after `\u` that the encoder writes.
def longCodes : List Chars :=
  (((List.range 0x20 ++ [0x2028, 0x2029]).map Char.ofNat).filter
    fun c => (shortEscapes.lookup c).isNone).map hexCode

inductive LexState where
  | plain
  | esc
  | hex (read : Chars)
deriving DecidableEq

def lexStep : LexState → Char → Option LexState
  | .plain, c => if c = '\\' then some .esc else if bare c then some .plain else none
  | .esc, c =>
    if c = 'u' then some (.hex [])
    else if c ∈ shortEscapes.map Prod.snd then some .plain
    else if breaksEscape c then some .plain else none
  | .hex read, c =>
    if read ++ [c] ∈ longCodes then some .plain
    else if longCodes.any (read ++ [c]).isPrefixOf then some (.hex (read ++ [c]))
    else if breaksEscape c then some .plain else none

def lex : LexState → Chars → Option LexState
  | st, [] => some st
  | st, c :: cs => (lexStep st c).bind fun st' => lex st' cs

theorem lex_append (st : LexState) (x y : Chars) :
    lex st (x ++ y) = (lex st x).bind fun st' => lex st' y := by
  induction x generalizing st with
  | nil => rfl
  | cons c x ih =>
    rw [cons_append, lex, lex]
    cases lexStep st c with
    | none => rfl
    | some st' => exact ih st'

theorem lex_append_some (y : Chars) (h : lex st x = some st') : lex st (x ++ y) = lex st' y := by
  rw [lex_append, h, Option.bind_some]

theorem lookup_short_none (h : bare c = true) : shortEscapes.lookup c = none := by
  cases hl : shortEscapes.lookup c with
  | none => rfl
  | some letter => simp [bare, escapeChar, hl] at h

theorem bare_ne_backslash (h : bare c = true) : c ≠ '\\' := by
  rintro rfl
  exact absurd h (by decide)

theorem lexStep_bare (h : bare c = true) : lexStep .plain c = some .plain := by
  rw [lexStep, if_neg (bare_ne_backslash h), if_pos h]

theorem length_of_mem_longCodes {h : Chars} : h ∈ longCodes → h.length = 4 := by
  have hall : ∀ h ∈ longCodes, h.length = 4 := by decide
  exact hall h

theorem longCodes_spec (h : [a, b, c, d] ∈ longCodes) :
    ∃ n, hexValues a b c d = some n ∧ isHighSurrogate n = false ∧ isLowSurrogate n = false ∧
      escapeChar (Char.ofNat n) = ['\\', 'u', a, b, c, d] := by
  have hall : ∀ h ∈ longCodes, (hexValues (h.getD 0 'u') (h.getD 1 'u') (h.getD 2 'u')
      (h.getD 3 'u')).any (fun n => !isHighSurrogate n && !isLowSurrogate n &&
        escapeChar (Char.ofNat n) == '\\' :: 'u' :: h) = true := by decide
  have hone : (hexValues a b c d).any (fun n => !isHighSurrogate n && !isLowSurrogate n &&
      escapeChar (Char.ofNat n) == ['\\', 'u', a, b, c, d]) = true := hall _ h
  simp only [Option.any_eq_true, Bool.and_eq_true, Bool.not_eq_true', beq_iff_eq] at hone
  obtain ⟨n, hn, ⟨hhi, hlo⟩, hesc⟩ := hone
  exact ⟨n, hn, hhi, hlo, hesc⟩

theorem short_letter_spec (h : letter ∈ shortEscapes.map Prod.snd) :
    ∃ c, unescapeChar letter = some c ∧ escapeChar c = ['\\', letter] := by
  have hall : ((shortEscapes.map Prod.snd).all fun letter =>
      (unescapeChar letter).any fun c => escapeChar c == ['\\', letter]) = true := by decide
  have hone := all_eq_true.mp hall letter h
  simp only [Option.any_eq_true, beq_iff_eq] at hone
  exact hone

theorem escapeChar_cases (c : Char) : (bare c = true ∧ escapeChar c = [c]) ∨
    (∃ letter, (c, letter) ∈ shortEscapes ∧ escapeChar c = ['\\', letter]) ∨
    (∃ n ∈ range 0x20 ++ [0x2028, 0x2029], (shortEscapes.lookup (Char.ofNat n)).isNone ∧
      c = Char.ofNat n ∧ escapeChar c = '\\' :: 'u' :: hexCode (Char.ofNat n)) := by
  cases hl : shortEscapes.lookup c with
  | some letter =>
    have hmem : (c, letter) ∈ shortEscapes := by
      obtain ⟨before, after, he, _⟩ := lookup_eq_some_iff.mp hl
      simp [he]
    exact .inr (.inl ⟨letter, hmem, by rw [escapeChar, hl]⟩)
  | none =>
    by_cases hlong : longEscaped c = true
    · have hcode : c.toNat ∈ range 0x20 ++ [0x2028, 0x2029] := by
        simp only [longEscaped, Bool.or_eq_true, decide_eq_true_eq, beq_iff_eq] at hlong
        simp only [mem_append, mem_range, mem_cons, not_mem_nil, or_false]
        rcases hlong with (hlt | rfl) | rfl
        · exact .inl hlt
        · exact .inr (.inl rfl)
        · exact .inr (.inr rfl)
      refine .inr (.inr ⟨c.toNat, hcode, ?_, (Char.ofNat_toNat c).symm, ?_⟩)
      · rw [Char.ofNat_toNat, hl]
        rfl
      · rw [escapeChar, hl, Char.ofNat_toNat]
        simp [hlong]
    · have hesc : escapeChar c = [c] := by simp [escapeChar, hl, hlong]
      exact .inl ⟨by simp [bare, hesc], hesc⟩

theorem lex_escapeChar (c : Char) : lex .plain (escapeChar c) = some .plain := by
  obtain ⟨hbare, hesc⟩ | ⟨letter, hmem, hesc⟩ | ⟨n, hn, hnone, rfl, hesc⟩ := escapeChar_cases c
  · rw [hesc, lex, lexStep_bare hbare]
    rfl
  · have hall : ∀ e ∈ shortEscapes, lex .plain ['\\', e.2] = some .plain := by decide
    rw [hesc]
    exact hall _ hmem
  · have hall : ∀ n ∈ range 0x20 ++ [0x2028, 0x2029], (shortEscapes.lookup (Char.ofNat n)).isNone →
        lex .plain ('\\' :: 'u' :: hexCode (Char.ofNat n)) = some .plain := by decide
    rw [hesc]
    exact hall n hn hnone

theorem lex_encode (s : Chars) : lex .plain (encodeStringBody s) = some .plain := by
  induction s with
  | nil => rfl
  | cons c s ih =>
    rw [encodeStringBody, flatMap_cons, lex_append_some _ (lex_escapeChar c)]
    exact ih

theorem lexStep_ne_esc (hc : c ≠ '\\') (h : lexStep st c = some st') : st' ≠ .esc := by
  cases st with
  | plain =>
    rw [lexStep, if_neg hc] at h
    split_ifs at h
    cases h
    simp
  | esc =>
    rw [lexStep] at h
    split_ifs at h <;> cases h <;> simp
  | hex read =>
    rw [lexStep] at h
    split_ifs at h <;> cases h <;> simp

theorem breaksEscape_spec (h : breaksEscape c = true) :
    bare c = true ∧ hexValue c = none ∧ unescapeChar c = none ∧ c ≠ 'u' := by
  simp only [breaksEscape, Bool.and_eq_true, Option.isNone_iff_eq_none, bne_iff_ne] at h
  exact ⟨h.1.1.1, h.1.1.2, h.1.2, h.2⟩

theorem hexValue_of_mem_longCodes (hmem : h ∈ longCodes) (hc : c ∈ h) :
    (hexValue c).isSome ∧ bare c = true := by
  have hall : (longCodes.all fun h => h.all fun c => (hexValue c).isSome && bare c) = true := by decide
  have hone := all_eq_true.mp (all_eq_true.mp hall h hmem) c hc
  exact Bool.and_eq_true_iff.mp hone

theorem lexStep_hex_cases {read : Chars} (h : lexStep (.hex read) c = some st) :
    bare c = true ∧ (read ++ [c] ∈ longCodes ∧ st = .plain ∨
      read ++ [c] ∉ longCodes ∧ (∃ code ∈ longCodes, read ++ [c] <+: code) ∧ st = .hex (read ++ [c]) ∨
      breaksEscape c = true ∧ st = .plain) := by
  rw [lexStep] at h
  split_ifs at h with hdone hmore hbreak
  · cases h
    exact ⟨(hexValue_of_mem_longCodes hdone (by simp)).2, .inl ⟨hdone, rfl⟩⟩
  · cases h
    simp only [any_eq_true, isPrefixOf_iff_prefix] at hmore
    obtain ⟨code, hcode, hpre⟩ := hmore
    have hc : c ∈ code := hpre.subset (by simp)
    exact ⟨(hexValue_of_mem_longCodes hcode hc).2, .inr (.inl ⟨hdone, ⟨code, hcode, hpre⟩, rfl⟩)⟩
  · cases h
    exact ⟨(breaksEscape_spec hbreak).1, .inr (.inr ⟨hbreak, rfl⟩)⟩

theorem lex_of_breaksEscape (hc : breaksEscape c = true) (st : LexState) :
    lex st (c :: q) = lex .plain (c :: q) := by
  obtain ⟨hbare, hhex, hun, hu⟩ := breaksEscape_spec hc
  have hstep : ∀ st, lexStep st c = some .plain := by
    intro st
    cases st with
    | plain => exact lexStep_bare hbare
    | esc =>
      have hshort : c ∉ shortEscapes.map Prod.snd := by
        intro hmem
        obtain ⟨d, hd, _⟩ := short_letter_spec hmem
        rw [hun] at hd
        cases hd
      rw [lexStep, if_neg hu, if_neg hshort, if_pos hc]
    | hex read =>
      have hdigit : ∀ code ∈ longCodes, c ∉ code := by
        intro code hcode hmem
        have := (hexValue_of_mem_longCodes hcode hmem).1
        rw [hhex] at this
        cases this
      have hdone : read ++ [c] ∉ longCodes := fun hmem => hdigit _ hmem (by simp)
      have hmore : longCodes.any (read ++ [c]).isPrefixOf = false := by
        rw [Bool.eq_false_iff]
        intro hany
        simp only [any_eq_true, isPrefixOf_iff_prefix] at hany
        obtain ⟨code, hcode, hpre⟩ := hany
        exact hdigit code hcode (hpre.subset (by simp))
      rw [lexStep, if_neg hdone, hmore, if_neg (by simp), if_pos hc]
  rw [lex, lex, hstep st, hstep .plain]

theorem lex_plain_of_lex {st : LexState} (hst : st ≠ .esc) (h : (lex st w).isSome) :
    (lex .plain w).isSome := by
  induction w generalizing st with
  | nil => rfl
  | cons c w ih =>
    cases st with
    | plain => exact h
    | esc => exact absurd rfl hst
    | hex read =>
      rw [lex] at h ⊢
      cases hs : lexStep (.hex read) c with
      | none => rw [hs] at h; cases h
      | some st' =>
        rw [hs] at h
        obtain ⟨hbare, hcases⟩ := lexStep_hex_cases hs
        rw [lexStep_bare hbare]
        refine ih (lexStep_ne_esc (bare_ne_backslash hbare) hs) h

theorem runes_unit (hhi : isHighSurrogate n = false) (hlo : isLowSurrogate n = false)
    (rest : List Token) : runes (.unit n :: rest) = Char.ofNat n :: runes rest := by
  cases rest with
  | nil => simp [runes, hhi, hlo]
  | cons t rest => cases t <;> simp [runes, hhi, hlo]

theorem lex_hex_digits {a b c : Char} (hval : hexValues a b c d = some n)
    (h : lex (.hex []) (a :: b :: c :: d :: rest) = some st) :
    [a, b, c, d] ∈ longCodes ∧ lex .plain rest = some st := by
  simp only [hexValues, Option.bind_eq_bind, Option.bind_eq_some_iff] at hval
  obtain ⟨w, hw, x, hx, y, hy, z, hz, -⟩ := hval
  have hdigit {ch : Char} {v : Nat} : hexValue ch = some v → breaksEscape ch = false := by
    intro hv
    simp [breaksEscape, hv]
  -- a digit neither breaks the escape nor ends it before the fourth one
  have hstep {read : Chars} {ch : Char} {v : Nat} {tail : Chars} : hexValue ch = some v →
      lex (.hex read) (ch :: tail) = some st → (read ++ [ch]).length ≠ 4 →
      lex (.hex (read ++ [ch])) tail = some st := by
    intro hv hl hlen
    rw [lex, Option.bind_eq_some_iff] at hl
    obtain ⟨st', hs, hl⟩ := hl
    obtain ⟨-, ⟨hdone, -⟩ | ⟨-, -, rfl⟩ | ⟨hbreak, -⟩⟩ := lexStep_hex_cases hs
    · exact absurd (length_of_mem_longCodes hdone) hlen
    · exact hl
    · rw [hdigit hv] at hbreak
      cases hbreak
  have h1 := hstep hw h (by simp)
  have h2 := hstep hx h1 (by simp)
  have h3 := hstep hy h2 (by simp)
  rw [lex, Option.bind_eq_some_iff] at h3
  obtain ⟨st', hs, hl⟩ := h3
  obtain ⟨-, ⟨hdone, rfl⟩ | ⟨hnot, ⟨code, hcode, hpre⟩, -⟩ | ⟨hbreak, -⟩⟩ := lexStep_hex_cases hs
  · exact ⟨by simpa using hdone, hl⟩
  · have heq := hpre.eq_of_length (by rw [length_of_mem_longCodes hcode]; rfl)
    exact absurd (heq ▸ hcode) hnot
  · rw [hdigit hz] at hbreak
    cases hbreak

theorem tokens_unit (h : tokens ('\\' :: 'u' :: rest) = some ts) :
    ∃ a b c d rest' code ts', rest = a :: b :: c :: d :: rest' ∧ hexValues a b c d = some code ∧
      tokens rest' = some ts' ∧ ts = .unit code :: ts' := by
  have hu : unescapeChar 'u' = none := by decide
  match rest, h with
  | a :: b :: c :: d :: rest', h =>
    simp only [tokens, Option.bind_eq_bind, Option.bind_eq_some_iff] at h
    obtain ⟨code, hcode, ts', hts', heq⟩ := h
    cases heq
    exact ⟨a, b, c, d, rest', code, ts', rfl, hcode, hts', rfl⟩
  | [], h => simp [tokens, hu] at h
  | [_], h => simp [tokens, hu] at h
  | [_, _], h => simp [tokens, hu] at h
  | [_, _, _], h => simp [tokens, hu] at h

theorem tokens_escape (hu : letter ≠ 'u') (h : tokens ('\\' :: letter :: rest) = some ts) :
    ∃ c ts', unescapeChar letter = some c ∧ tokens rest = some ts' ∧ ts = .char c :: ts' := by
  rw [tokens] at h
  · simp only [Option.bind_eq_bind, Option.bind_eq_some_iff] at h
    obtain ⟨c, hc, ts', hts', heq⟩ := h
    cases heq
    exact ⟨c, ts', hc, hts', rfl⟩
  · intro a b c d rest' hl _
    exact hu hl

theorem tokens_char (hc : c ≠ '\\') (h : tokens (c :: rest) = some ts) :
    ∃ ts', tokens rest = some ts' ∧ ts = .char c :: ts' := by
  rw [tokens] at h
  · split_ifs at h with hbad
    simp only [Option.bind_eq_bind, Option.bind_eq_some_iff] at h
    obtain ⟨ts', hts', heq⟩ := h
    cases heq
    exact ⟨ts', hts', rfl⟩
  · intro a b c' d rest' hc' _
    exact hc hc'
  · intro letter rest' hc' _
    exact hc hc'

theorem encode_runes (hlex : lex .plain body = some st) (hts : tokens body = some ts) :
    encodeStringBody (runes ts) = body := by
  induction hn : body.length using Nat.strong_induction_on generalizing body ts with
  | _ n ih =>
    subst hn
    cases body with
    | nil =>
      cases hts
      rfl
    | cons c rest =>
      rw [lex, Option.bind_eq_some_iff] at hlex
      obtain ⟨st', hs, hl⟩ := hlex
      by_cases hc : c = '\\'
      · subst hc
        cases hs
        cases rest with
        | nil => simp [tokens] at hts
        | cons letter rest =>
          rw [lex, Option.bind_eq_some_iff] at hl
          obtain ⟨st', hs, hl⟩ := hl
          by_cases hu : letter = 'u'
          · subst hu
            cases hs
            obtain ⟨a, b, c, d, rest', code, ts', rfl, hcode, hts', rfl⟩ := tokens_unit hts
            obtain ⟨hmem, hrest⟩ := lex_hex_digits hcode hl
            obtain ⟨m, hm, hhi, hlo, hesc⟩ := longCodes_spec hmem
            obtain rfl : m = code := Option.some.inj (hm.symm.trans hcode)
            have hbody := ih rest'.length (by simp only [length_cons]; omega) hrest hts' rfl
            rw [runes_unit hhi hlo, encodeStringBody, flatMap_cons, hesc]
            simpa [encodeStringBody] using hbody
          · obtain ⟨ch, ts', hch, hts', rfl⟩ := tokens_escape hu hts
            rw [lexStep] at hs
            split_ifs at hs with hshort hbreak
            · cases hs
              obtain ⟨ch', hch', hesc⟩ := short_letter_spec hshort
              obtain rfl : ch' = ch := Option.some.inj (hch'.symm.trans hch)
              have hbody := ih rest.length (by simp only [length_cons]; omega) hl hts' rfl
              rw [runes, encodeStringBody, flatMap_cons, hesc]
              simpa [encodeStringBody] using hbody
            · rw [(breaksEscape_spec hbreak).2.2.1] at hch
              cases hch
      · rw [lexStep, if_neg hc] at hs
        split_ifs at hs with hbare
        cases hs
        obtain ⟨ts', hts', rfl⟩ := tokens_char hc hts
        have hesc : escapeChar c = [c] := by simpa [bare] using hbare
        have hbody := ih rest.length (by simp) hl hts' rfl
        rw [runes, encodeStringBody, flatMap_cons, hesc]
        simpa [encodeStringBody] using hbody

theorem encode_of_decode (hlex : (lex .plain body).isSome) (hdec : decodeStringBody body = some s) :
    encodeStringBody s = body := by
  simp only [decodeStringBody, Option.map_eq_some_iff] at hdec
  obtain ⟨ts, hts, rfl⟩ := hdec
  obtain ⟨st, hst⟩ := Option.isSome_iff_exists.mp hlex
  exact encode_runes hst hts

theorem decode_escapeChar (c : Char) (h : decodeStringBody rest = some s) :
    decodeStringBody (escapeChar c ++ rest) = some (c :: s) := by
  simp only [decodeStringBody, Option.map_eq_some_iff] at h ⊢
  obtain ⟨ts, hts, rfl⟩ := h
  obtain ⟨hbare, hesc⟩ | ⟨letter, hmem, hesc⟩ | ⟨n, hn, -, rfl, hesc⟩ := escapeChar_cases c
  · refine ⟨.char c :: ts, ?_, rfl⟩
    have hbad : ¬ (c = '"' ∨ c = '\\' ∨ c.toNat < 0x20) := by
      rintro (rfl | rfl | hlt)
      · exact absurd hbare (by decide)
      · exact absurd hbare (by decide)
      · have hlong : longEscaped c = true := by simp [longEscaped, hlt]
        simp [escapeChar, lookup_short_none hbare, hlong] at hesc
    rw [hesc, singleton_append, tokens, if_neg hbad, hts]
    · rfl
    · intro a b c' d rest' hc' _
      exact bare_ne_backslash hbare hc'
    · intro letter rest' hc' _
      exact bare_ne_backslash hbare hc'
  · have hall : ∀ e ∈ shortEscapes, e.2 ≠ 'u' ∧ unescapeChar e.2 = some e.1 := by decide
    obtain ⟨hu, hun⟩ := hall _ hmem
    refine ⟨.char c :: ts, ?_, rfl⟩
    rw [hesc, cons_append, singleton_append, tokens, hun, hts]
    · rfl
    · intro a b c' d rest' hl _
      exact hu hl
  · have hall : ∀ n ∈ range 0x20 ++ [0x2028, 0x2029],
        isHighSurrogate n = false ∧ isLowSurrogate n = false ∧
        hexValues (hexDigit ((Char.ofNat n).toNat / 0x1000 % 16))
          (hexDigit ((Char.ofNat n).toNat / 0x100 % 16)) (hexDigit ((Char.ofNat n).toNat / 0x10 % 16))
          (hexDigit ((Char.ofNat n).toNat % 16)) = some n := by decide
    obtain ⟨hhi, hlo, hval⟩ := hall n hn
    refine ⟨.unit n :: ts, ?_, runes_unit hhi hlo ts⟩
    rw [hesc, hexCode]
    simp only [cons_append, nil_append, tokens]
    rw [hval, hts]
    rfl

theorem decode_encode (s : Chars) : decodeStringBody (encodeStringBody s) = some s := by
  induction s with
  | nil => rfl
  | cons c s ih => exact decode_escapeChar c ih

-- Whether the text ends inside an escape, right after its backslash.
def escaped : Bool → Chars → Bool
  | st, [] => st
  | st, c :: cs => escaped (!st && c == '\\') cs

theorem escaped_append (st : Bool) (x y : Chars) :
    escaped st (x ++ y) = escaped (escaped st x) y := by
  induction x generalizing st with
  | nil => rfl
  | cons c x ih => exact ih _

def backslashes (s : Chars) : Nat := (s.reverse.takeWhile (· == '\\')).length

theorem escaped_false_iff (w : Chars) : escaped false w = true ↔ backslashes w % 2 = 1 := by
  induction w using reverseRecOn with
  | nil => simp [escaped, backslashes]
  | append_singleton w c ih =>
    have hrun : backslashes (w ++ [c]) = if c = '\\' then backslashes w + 1 else 0 := by
      by_cases hc : c = '\\' <;> simp [backslashes, hc]
    rw [escaped_append, hrun]
    by_cases hc : c = '\\'
    · subst hc
      cases he : escaped false w with
      | false =>
        have : ¬ backslashes w % 2 = 1 := fun h => by simp [ih.mpr h] at he
        simp only [escaped]
        simp
        omega
      | true =>
        have := ih.mp he
        simp only [escaped]
        simp
        omega
    · simp [escaped, hc]

theorem escaped_of_mem (hmem : c ∈ w) (hc : c ≠ '\\') (st st' : Bool) :
    escaped st w = escaped st' w := by
  obtain ⟨x, y, rfl⟩ := append_of_mem hmem
  have hbeq : (c == '\\') = false := by simpa using hc
  simp only [escaped_append, escaped, hbeq, Bool.and_false]

theorem lexStep_esc_iff {st : LexState} (h : lexStep st c = some st') :
    st' = .esc ↔ st ≠ .esc ∧ c = '\\' := by
  by_cases hc : c = '\\'
  · subst hc
    cases st with
    | plain =>
      cases h
      simp
    | esc =>
      have hstep : lexStep .esc '\\' = some .plain := by decide
      cases h
      simp
    | hex read => exact absurd (lexStep_hex_cases h).1 (by decide)
  · simp [hc, lexStep_ne_esc hc h]

theorem lex_esc_iff (h : lex st w = some st') : st' = .esc ↔ escaped (st == .esc) w = true := by
  induction w generalizing st with
  | nil =>
    cases h
    simp [escaped]
  | cons c w ih =>
    rw [lex, Option.bind_eq_some_iff] at h
    obtain ⟨st1, hs, hl⟩ := h
    have hst : (st1 == .esc) = (!(st == .esc) && c == '\\') := by
      rw [Bool.eq_iff_iff]
      simpa using lexStep_esc_iff hs
    rw [ih hl, escaped, hst]

end Chainloop.Json
