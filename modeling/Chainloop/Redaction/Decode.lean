import Chainloop.Go.Errors
import Chainloop.Json.Canonical
import Chainloop.Redaction.DuplicateKeys

-- How a document is read into a tree. The decoder's limit on the depth of nesting
-- and the texts of its errors are left out.
namespace Chainloop.Redaction

open Go Json List

def isSpace (c : Char) : Bool := c == ' ' || c == '\t' || c == '\n' || c == '\r'

def skipSpace (text : Chars) : Chars := text.dropWhile isSpace

def isNumberChar (c : Char) : Bool := c.isDigit || ['-', '+', '.', 'e', 'E'].contains c

def validExponent : Chars → Bool
  | [] => true
  | e :: rest =>
    let digits := match rest with
      | '+' :: digits | '-' :: digits => digits
      | digits => digits
    (e == 'e' || e == 'E') && !digits.isEmpty && digits.all Char.isDigit

def validFraction : Chars → Bool
  | '.' :: c :: rest => c.isDigit && validExponent (rest.dropWhile Char.isDigit)
  | rest => validExponent rest

def validNumber (text : Chars) : Bool :=
  match (match text with
    | '-' :: rest => rest
    | _ => text) with
  | [] => false
  | c :: rest => c.isDigit && validFraction (if c = '0' then rest else rest.dropWhile Char.isDigit)

-- The body of a string up to its closing quote, and what follows that.
def scanString : Chars → Option (Chars × Chars)
  | [] => none
  | '"' :: rest => some ([], rest)
  | '\\' :: c :: rest => (scanString rest).map fun (body, rest) => ('\\' :: c :: body, rest)
  | c :: rest => (scanString rest).map fun (body, rest) => (c :: body, rest)

def readString (text : Chars) : Option (Chars × Chars) := do
  let (body, rest) ← scanString text
  return (← decodeStringBody body, rest)

-- A text can end where the decoder looks for the next token.
inductive Fault where
  | ended
  | malformed
deriving DecidableEq

-- The tokens that were read, also before a fault, and what they stand for with the
-- text after them.
structure Reading (α : Type) where
  tokens : List Token
  value : Except Fault (α × Chars)

namespace Reading

variable {α β : Type}

def fault (rest : Chars) : Reading α := ⟨[], .error (if rest.isEmpty then .ended else .malformed)⟩

def andThen (x : Reading α) (f : α → Chars → Reading β) : Reading β :=
  match x.value with
  | .error e => ⟨x.tokens, .error e⟩
  | .ok (a, rest) => ⟨x.tokens ++ (f a rest).tokens, (f a rest).value⟩

def emit (token : Token) (a : α) (rest : Chars) : Reading α := ⟨[token], .ok (a, rest)⟩

end Reading

open Reading

def readScalar : Chars → Reading Value
  | '"' :: rest =>
    match readString rest with
    | none => ⟨[], .error .malformed⟩
    | some (s, rest) => emit (.string s) (.str s) rest
  | 't' :: 'r' :: 'u' :: 'e' :: rest => emit .scalar (.bool true) rest
  | 'f' :: 'a' :: 'l' :: 's' :: 'e' :: rest => emit .scalar (.bool false) rest
  | 'n' :: 'u' :: 'l' :: 'l' :: rest => emit .scalar .null rest
  | text =>
    if validNumber (text.takeWhile isNumberChar) then
      emit .scalar (.num (text.takeWhile isNumberChar)) (text.dropWhile isNumberChar)
    else fault text

def readMember (value : Chars → Reading Value) (text : Chars) : Reading (Chars × Value) :=
  match skipSpace text with
  | '"' :: rest =>
    match readString rest with
    | none => ⟨[], .error .malformed⟩
    | some (k, rest) =>
      (emit (.string k) k rest).andThen fun k rest =>
        match skipSpace rest with
        | ':' :: rest => (value rest).andThen fun v rest => ⟨[], .ok ((k, v), rest)⟩
        | rest => fault rest
  | rest => fault rest

-- The elements up to the closing bracket.
def readList {α : Type} (item : Chars → Reading α) (close : Char) (object : Bool) : Nat → Chars → Reading (List α)
  | 0, _ => ⟨[], .error .ended⟩
  | fuel + 1, text => (item text).andThen fun a rest =>
    match skipSpace rest with
    | ',' :: rest => (readList item close object fuel rest).andThen fun as rest => ⟨[], .ok (a :: as, rest)⟩
    | rest =>
      if rest.head? = some close then emit (.closed object) [a] rest.tail else fault rest

def readElements {α : Type} (item : Chars → Reading α) (close : Char) (object : Bool) (text : Chars) :
    Reading (List α) :=
  if (skipSpace text).head? = some close then emit (.closed object) [] (skipSpace text).tail
  else readList item close object text.length text

-- A Go map keeps the last value of a repeated key and is written in the order of its keys.
def setMember (m : Chars × Value) : List (Chars × Value) → List (Chars × Value)
  | [] => [m]
  | n :: ns => if m.1 < n.1 then m :: n :: ns else if n.1 < m.1 then n :: setMember m ns else n :: ns

def readValue : Nat → Chars → Reading Value
  | 0, _ => ⟨[], .error .ended⟩
  | fuel + 1, text =>
    match skipSpace text with
    | '\x7b' :: rest =>
      (emit (.opened true) () rest).andThen fun _ rest =>
        (readElements (readMember (readValue fuel)) '\x7d' true rest).andThen fun ms rest =>
          ⟨[], .ok (.obj (ms.foldr setMember []), rest)⟩
    | '[' :: rest =>
      (emit (.opened false) () rest).andThen fun _ rest =>
        (readElements (readValue fuel) ']' false rest).andThen fun vs rest => ⟨[], .ok (.arr vs, rest)⟩
    | rest => readScalar rest

-- The tokens of all the values in a text, up to its end or a fault.
def readTokens : Nat → Chars → List Token × Fault
  | 0, _ => ([], .ended)
  | fuel + 1, text =>
    let first := readValue text.length text
    match first.value with
    | .error e => (first.tokens, e)
    | .ok (_, rest) =>
      let (tokens, e) := readTokens fuel rest
      (first.tokens ++ tokens, e)

def errInvalidJSON (detail : String) : GoError := .new ("document is not a JSON object" ++ detail)

def errDuplicateKey (key : Chars) : GoError :=
  .new ("document contains a duplicate object key: \"" ++ String.ofList key ++ "\"")

def decodeObject (doc : Chars) : Except GoError Value :=
  let (tokens, stopped) := readTokens (doc.length + 1) doc
  match rejectDuplicateKeys [] tokens with
  | some (.duplicate key) => .error (errDuplicateKey key)
  | some (.unbalanced _) => .error (errInvalidJSON "")
  | none =>
    if stopped = .malformed then .error (errInvalidJSON "")
    else
      match (readValue doc.length doc).value with
      | .error _ => .error (errInvalidJSON "")
      | .ok (root, rest) =>
        if !(skipSpace rest).isEmpty then .error (errInvalidJSON ": unexpected trailing content")
        else
          match root with
          | .obj ms => .ok (.obj ms)
          | _ => .error (errInvalidJSON ": expected an object at the document root")

-- A tree as a decoder gives it: no object repeats a key, and no leaf is detached.
inductive WellFormed : Value → Prop where
  | obj {ms : List (Chars × Value)} (sorted : ms.Pairwise fun m n => m.1 < n.1)
      (each : ∀ m ∈ ms, WellFormed m.2) : WellFormed (.obj ms)
  | arr {vs : List Value} (each : ∀ v ∈ vs, WellFormed v) : WellFormed (.arr vs)
  | str (s : Chars) : WellFormed (.str s)
  | num {digits : Chars} (valid : validNumber digits = true) (all : ∀ c ∈ digits, isNumberChar c = true) :
      WellFormed (.num digits)
  | bool (b : Bool) : WellFormed (.bool b)
  | null : WellFormed .null

theorem WellFormed.restore_eq (h : WellFormed v) : restore v = v := by
  induction h with
  | @obj ms _ _ ih =>
    rw [restore, restoreMembers_eq_map, map_congr_left fun m hm => congrArg (m.1, ·) (ih m hm)]
    simp
  | arr _ ih => rw [restore, restoreItems_eq_map, map_congr_left ih, map_id']
  | str | num | bool | null => rfl

section Read

variable {α β : Type} {ms ns : List (Chars × Value)} {m n : Chars × Value}

theorem andThen_eq_ok {x : Reading α} {f : α → Chars → Reading β} {b : β} {rest : Chars} :
    (x.andThen f).value = .ok (b, rest) → ∃ a mid, x.value = .ok (a, mid) ∧ (f a mid).value = .ok (b, rest) := by
  intro h
  rw [andThen] at h
  cases hx : x.value with
  | error e => simp [hx] at h
  | ok read =>
    rw [hx] at h
    exact ⟨read.1, read.2, rfl, h⟩

theorem readElements_forall {P : α → Prop} {item : Chars → Reading α}
    (hitem : ∀ text a rest, (item text).value = .ok (a, rest) → P a) {l : List α} {rest : Chars}
    (h : (readElements item close object text).value = .ok (l, rest)) : ∀ a ∈ l, P a := by
  have hlist : ∀ fuel text l rest, (readList item close object fuel text).value = .ok (l, rest) →
      ∀ a ∈ l, P a := by
    intro fuel
    induction fuel with
    | zero => exact fun text l rest h => nomatch h
    | succ fuel ih =>
      intro text l rest h
      obtain ⟨a, mid, ha, h⟩ := andThen_eq_ok h
      split at h
      · obtain ⟨as, end', has, h⟩ := andThen_eq_ok h
        cases h
        exact forall_mem_cons.mpr ⟨hitem _ _ _ ha, ih _ _ _ has⟩
      · split_ifs at h
        · cases h
          simpa using hitem _ _ _ ha
        · cases h
  unfold readElements at h
  split_ifs at h
  · cases h
    simp
  · exact hlist _ _ _ _ h

theorem mem_setMember (h : n ∈ setMember m ns) : n = m ∨ n ∈ ns := by
  induction ns with
  | nil => exact .inl (by simpa [setMember] using h)
  | cons n' ns ih =>
    rw [setMember] at h
    split_ifs at h
    · simpa using h
    · rcases mem_cons.mp h with rfl | h
      · simp
      · exact (ih h).imp id (mem_cons_of_mem _)
    · exact .inr h

theorem setMember_sorted (m : Chars × Value) (h : ns.Pairwise fun m n => m.1 < n.1) :
    (setMember m ns).Pairwise fun m n => m.1 < n.1 := by
  induction ns with
  | nil => simp [setMember]
  | cons n ns ih =>
    obtain ⟨hn, hns⟩ := pairwise_cons.mp h
    rw [setMember]
    split_ifs with hlt hgt
    · refine pairwise_cons.mpr ⟨?_, h⟩
      exact forall_mem_cons.mpr ⟨hlt, fun n' hn' => List.lt_trans hlt (hn n' hn')⟩
    · refine pairwise_cons.mpr ⟨fun n' hn' => ?_, ih hns⟩
      rcases mem_setMember hn' with rfl | hn'
      · exact hgt
      · exact hn n' hn'
    · exact h

theorem foldr_setMember_eq (h : ms.Pairwise fun m n => m.1 < n.1) : ms.foldr setMember [] = ms := by
  induction ms with
  | nil => rfl
  | cons m ms ih =>
    obtain ⟨hm, hms⟩ := pairwise_cons.mp h
    rw [foldr_cons, ih hms]
    cases ms with
    | nil => rfl
    | cons n ms => rw [setMember, if_pos (hm n mem_cons_self)]

theorem foldr_setMember_sorted (ms : List (Chars × Value)) :
    (ms.foldr setMember []).Pairwise fun m n => m.1 < n.1 := by
  induction ms with
  | nil => exact .nil
  | cons m ms ih => exact setMember_sorted m ih

theorem mem_foldr_setMember (h : m ∈ ms.foldr setMember []) : m ∈ ms := by
  induction ms with
  | nil => exact h
  | cons n ms ih => exact (mem_setMember h).elim (by simp +contextual) fun h => mem_cons_of_mem _ (ih h)

theorem wellFormed_readScalar (h : (readScalar text).value = .ok (v, rest)) : WellFormed v := by
  unfold readScalar at h
  split at h
  · split at h
    · cases h
    · cases h
      exact .str _
  · cases h
    exact .bool _
  · cases h
    exact .bool _
  · cases h
    exact .null
  · split_ifs at h with hvalid
    · cases h
      exact .num hvalid fun c hc => (all_eq_true.mp all_takeWhile) c hc
    · cases h

theorem wellFormed_readValue (h : (readValue fuel text).value = .ok (v, rest)) : WellFormed v := by
  induction fuel generalizing text v rest with
  | zero => cases h
  | succ fuel ih =>
    unfold readValue at h
    split at h
    · obtain ⟨-, mid, -, h⟩ := andThen_eq_ok h
      obtain ⟨ms, end', hms, h⟩ := andThen_eq_ok h
      cases h
      have hall : ∀ m ∈ ms, WellFormed m.2 := by
        refine readElements_forall (fun text m rest hm => ?_) hms
        unfold readMember at hm
        split at hm
        · split at hm
          · cases hm
          · obtain ⟨k, mid, -, hm⟩ := andThen_eq_ok hm
            split at hm
            · obtain ⟨v, end', hv, hm⟩ := andThen_eq_ok hm
              cases hm
              exact ih hv
            · cases hm
        · cases hm
      exact .obj (foldr_setMember_sorted ms) fun m hm => hall m (mem_foldr_setMember hm)
    · obtain ⟨-, mid, -, h⟩ := andThen_eq_ok h
      obtain ⟨vs, end', hvs, h⟩ := andThen_eq_ok h
      cases h
      exact .arr (readElements_forall (fun _ _ _ hv => ih hv) hvs)
    · exact wellFormed_readScalar h

theorem wellFormed_decodeObject (h : decodeObject doc = .ok root) : WellFormed root ∧ ∃ ms, root = .obj ms := by
  unfold decodeObject at h
  dsimp only at h
  split at h
  · cases h
  · cases h
  · split_ifs at h
    split at h
    · cases h
    · rename_i hread
      split_ifs at h
      split at h
      · cases h
        exact ⟨wellFormed_readValue hread, _, rfl⟩
      · cases h

end Read

section Encode

theorem scanString_cons (hquote : c ≠ '"') (hslash : c ≠ '\\') (text : Chars) :
    scanString (c :: text) = (scanString text).map fun (body, rest) => (c :: body, rest) := by
  rw [scanString]
  · exact hquote
  · exact fun _ _ h => absurd h hslash

theorem scanString_escapeChar (c : Char) (text : Chars) :
    scanString (escapeChar c ++ text) = (scanString text).map fun (body, rest) => (escapeChar c ++ body, rest) := by
  obtain ⟨hbare, hesc⟩ | ⟨letter, -, hesc⟩ | ⟨n, hn, -, rfl, hesc⟩ := escapeChar_cases c
  · have hquote : c ≠ '"' := by
      rintro rfl
      exact absurd hbare (by decide)
    rw [hesc]
    exact scanString_cons hquote (bare_ne_backslash hbare) text
  · rw [hesc]
    rfl
  · have hplain : ∀ n ∈ range 0x20 ++ [0x2028, 0x2029], '"' ∉ hexCode (Char.ofNat n) ∧ '\\' ∉ hexCode (Char.ofNat n) := by
      decide
    have hcode : ∀ code : Chars, '"' ∉ code → '\\' ∉ code →
        scanString (code ++ text) = (scanString text).map fun (body, rest) => (code ++ body, rest) := by
      intro code hquote hslash
      induction code with
      | nil => simp
      | cons c code ih =>
        rw [mem_cons, not_or] at hquote hslash
        rw [cons_append, scanString_cons (Ne.symm hquote.1) (Ne.symm hslash.1), ih hquote.2 hslash.2, Option.map_map]
        rfl
    obtain ⟨hquote, hslash⟩ := hplain n hn
    rw [hesc, cons_append, cons_append, scanString, hcode _ hquote hslash, Option.map_map]
    rfl

theorem readString_encode (s rest : Chars) : readString (encodeStringBody s ++ '"' :: rest) = some (s, rest) := by
  have hscan : scanString (encodeStringBody s ++ '"' :: rest) = some (encodeStringBody s, rest) := by
    induction s with
    | nil => rfl
    | cons c s ih =>
      rw [encodeStringBody, flatMap_cons, append_assoc, scanString_escapeChar, ← encodeStringBody, ih]
      rfl
  rw [readString, hscan]
  simp [decode_encode]

-- What the parts of a list read as, with commas between them.
theorem readList_intercalate {α : Type} {item : Chars → Reading α} {text : α → Chars} {toks : α → List Token}
    (hclose : isSpace close = false) (hcomma : close ≠ ',') (rest : Chars) {l : List α} (hne : l ≠ [])
    (hfuel : l.length ≤ fuel)
    (hitem : ∀ a ∈ l, ∀ c rest, c = ',' ∨ c = close → item (text a ++ c :: rest) = ⟨toks a, .ok (a, c :: rest)⟩) :
    readList item close object fuel ([','].intercalate (l.map text) ++ close :: rest)
      = ⟨l.flatMap toks ++ [.closed object], .ok (l, rest)⟩ := by
  induction l generalizing fuel with
  | nil => exact absurd rfl hne
  | cons a l ih =>
    obtain ⟨ha, hl⟩ := forall_mem_cons.mp hitem
    obtain _ | fuel := fuel
    · simp at hfuel
    rw [readList]
    cases l with
    | nil =>
      rw [map_cons, map_nil, intercalate_singleton, ha close rest (.inr rfl)]
      simp [andThen, skipSpace, hclose, hcomma, emit]
    | cons b l =>
      have htail := ih (by simp) (Nat.le_of_succ_le_succ hfuel) hl
      rw [map_cons] at htail
      rw [map_cons, map_cons, intercalate_cons_cons, append_assoc, append_assoc, singleton_append,
        ha ',' _ (.inl rfl)]
      simp [andThen, skipSpace, isSpace, htail]

theorem intercalate_cons (t : Chars) (texts : List Chars) : [','].intercalate (t :: texts)
    = t ++ (if texts.isEmpty then [] else [',']) ++ [','].intercalate texts := by
  cases texts with
  | nil => simp [intercalate]
  | cons u texts => rw [intercalate_cons_cons]; rfl

theorem length_le_intercalate (texts : List Chars) :
    texts.length ≤ ([','].intercalate texts).length + 1 ∧
      ∀ t ∈ texts, t.length ≤ ([','].intercalate texts).length := by
  induction texts with
  | nil => simp
  | cons t texts ih =>
    obtain ⟨hcount, hall⟩ := ih
    rw [intercalate_cons, length_append, length_append]
    refine ⟨?_, forall_mem_cons.mpr ⟨by omega, fun t' ht' => ?_⟩⟩
    · cases texts with
      | nil => simp
      | cons u texts =>
        simp only [length_cons, isEmpty_cons, if_neg Bool.false_ne_true, length_nil] at hcount ⊢
        omega
    · exact (hall t' ht').trans (Nat.le_add_left _ _)

def memberText (m : Chars × Value) : Chars := quoted m.1 ++ ':' :: encode m.2 false

mutual

theorem render_depth : ∀ (v : Value) (depth : Nat), render false v depth = encode v false
  | .obj [], _ | .arr [], _ | .str _, _ | .detached _, _ | .num _, _ | .bool true, _ | .bool false, _ | .null, _ => rfl
  | .obj (m :: ms), depth => by
    rw [encode, render, render, renderMembers_eq (m :: ms), renderMembers_eq (m :: ms)]
    rfl
  | .arr (v :: vs), depth => by
    rw [encode, render, render, renderItems_eq (v :: vs), renderItems_eq (v :: vs)]
    rfl

theorem renderMembers_eq : ∀ (ms : List (Chars × Value)) (depth : Nat),
    renderMembers false ms depth = [','].intercalate (ms.map memberText)
  | [], _ => rfl
  | (k, v) :: ms, depth => by
    rw [renderMembers, render_depth v, renderMembers_eq ms, map_cons, intercalate_cons]
    simp [newline, memberText]

theorem renderItems_eq : ∀ (vs : List Value) (depth : Nat),
    renderItems false vs depth = [','].intercalate (vs.map fun v => encode v false)
  | [], _ => rfl
  | v :: vs, depth => by
    rw [renderItems, render_depth v, renderItems_eq vs, map_cons, intercalate_cons]
    simp [newline]

end

theorem memberTokens_eq (ms : List (Chars × Value)) :
    memberTokens ms = ms.flatMap fun m => .string m.1 :: tokens m.2 := by
  induction ms with
  | nil => rfl
  | cons m ms ih => rw [memberTokens, ih, flatMap_cons, cons_append]

theorem itemTokens_eq (vs : List Value) : itemTokens vs = vs.flatMap tokens := by
  induction vs with
  | nil => rfl
  | cons v vs ih => rw [itemTokens, ih, flatMap_cons]

-- A number ends before a character that cannot be in one.
def EndsNumber (rest : Chars) : Prop := ∀ c ∈ rest.head?, isNumberChar c = false

theorem skipSpace_cons (h : isSpace c = false) (text : Chars) : skipSpace (c :: text) = c :: text := by
  simp [skipSpace, h]

theorem readScalar_num (hvalid : validNumber digits = true) (hall : ∀ c ∈ digits, isNumberChar c = true)
    (hrest : EndsNumber rest) :
    readScalar (digits ++ rest) = emit .scalar (.num digits) rest := by
  have htake : (digits ++ rest).takeWhile isNumberChar = digits := by
    rw [takeWhile_append_of_pos hall]
    cases rest with
    | nil => simp
    | cons c rest => simp [hrest c rfl]
  have hdrop : (digits ++ rest).dropWhile isNumberChar = rest := by
    rw [dropWhile_append_of_pos hall]
    cases rest with
    | nil => simp
    | cons c rest => simp [hrest c rfl]
  obtain ⟨c, digits', rfl⟩ : ∃ c digits', digits = c :: digits' := by
    cases digits with
    | nil => cases hvalid
    | cons c digits' => exact ⟨c, digits', rfl⟩
  have hc := hall c mem_cons_self
  rw [cons_append] at htake hdrop ⊢
  rw [readScalar.eq_5, htake, hdrop, if_pos hvalid]
  all_goals
    intro _ h
    obtain ⟨rfl, -⟩ := cons.inj h
    exact absurd hc (by decide)

theorem readMember_text {value : Chars → Reading Value} {m : Chars × Value}
    (hvalue : value (encode m.2 false ++ rest) = ⟨tokens m.2, .ok (m.2, rest)⟩) :
    readMember value (memberText m ++ rest) = ⟨.string m.1 :: tokens m.2, .ok (m, rest)⟩ := by
  have htext : memberText m ++ rest
      = '"' :: (encodeStringBody m.1 ++ '"' :: ':' :: (encode m.2 false ++ rest)) := by
    simp [memberText, quoted]
  rw [htext, readMember, skipSpace_cons (by decide)]
  simp [readString_encode, andThen, emit, skipSpace_cons (c := ':') (by decide), hvalue]

theorem encode_obj (ms : List (Chars × Value)) :
    encode (.obj ms) false = '\x7b' :: ([','].intercalate (ms.map memberText) ++ ['\x7d']) := by
  cases ms with
  | nil => rfl
  | cons m ms => rw [encode, render, renderMembers_eq]; simp [newline]

theorem encode_arr (vs : List Value) :
    encode (.arr vs) false = '[' :: ([','].intercalate (vs.map fun v => encode v false) ++ [']']) := by
  cases vs with
  | nil => rfl
  | cons v vs => rw [encode, render, renderItems_eq]; simp [newline]

theorem encode_starts (h : WellFormed v) :
    ∃ c text, encode v false = c :: text ∧ isSpace c = false ∧ c ≠ ']' := by
  cases h with
  | @obj ms => exact ⟨_, _, encode_obj ms, by decide, by decide⟩
  | @arr vs => exact ⟨_, _, encode_arr vs, by decide, by decide⟩
  | str s => exact ⟨_, _, rfl, by decide, by decide⟩
  | @num digits hvalid hall =>
    cases digits with
    | nil => cases hvalid
    | cons c digits =>
      have hc := hall c mem_cons_self
      refine ⟨c, digits, rfl, ?_, ?_⟩
      · by_contra hspace
        simp only [isSpace, Bool.not_eq_false, Bool.or_eq_true, beq_iff_eq] at hspace
        rcases hspace with ((rfl | rfl) | rfl) | rfl <;> exact absurd hc (by decide)
      · rintro rfl
        exact absurd hc (by decide)
  | bool b => cases b <;> exact ⟨_, _, rfl, by decide, by decide⟩
  | null => exact ⟨_, _, rfl, by decide, by decide⟩

theorem readElements_intercalate {α : Type} (item : Chars → Reading α) (text : α → Chars) (toks : α → List Token)
    (close : Char) (object : Bool) (hclose : isSpace close = false) (hcomma : close ≠ ',') (rest : Chars) (l : List α)
    (hstart : ∀ a ∈ l, ∃ c t, text a = c :: t ∧ isSpace c = false ∧ c ≠ close)
    (hitem : ∀ a ∈ l, ∀ c rest, c = ',' ∨ c = close → item (text a ++ c :: rest) = ⟨toks a, .ok (a, c :: rest)⟩) :
    readElements item close object ([','].intercalate (l.map text) ++ close :: rest)
      = ⟨l.flatMap toks ++ [.closed object], .ok (l, rest)⟩ := by
  rw [readElements]
  cases l with
  | nil => simp [intercalate, skipSpace, hclose, emit]
  | cons a l =>
    obtain ⟨c, t, htext, hspace, hne⟩ := hstart a mem_cons_self
    have hlen := (length_le_intercalate ((a :: l).map text)).1
    rw [if_neg, readList_intercalate hclose hcomma rest (by simp) ?_ hitem]
    · rw [length_map] at hlen
      simp only [length_append, length_cons] at hlen ⊢
      omega
    · rw [map_cons, intercalate_cons, htext]
      simp [skipSpace, hspace, hne]

theorem readValue_encode (h : WellFormed v) (hfuel : (encode v false).length ≤ fuel) (rest : Chars)
    (hrest : EndsNumber rest) :
    readValue fuel (encode v false ++ rest) = ⟨tokens v, .ok (v, rest)⟩ := by
  induction h generalizing fuel rest with
  | @obj ms sorted each ih =>
    have hms := (length_le_intercalate (ms.map memberText)).2
    rw [encode_obj] at hfuel ⊢
    obtain _ | fuel := fuel
    · simp at hfuel
    have hread := readElements_intercalate (readMember (readValue fuel)) memberText
      (fun m => .string m.1 :: tokens m.2) '\x7d' true (by decide) (by decide) rest ms
      (fun m hm => ⟨_, _, rfl, by decide, by decide⟩) fun m hm c rest hc => by
        refine readMember_text (ih m hm ?_ _ ?_)
        · have hm := hms _ (mem_map_of_mem hm)
          simp only [memberText, length_append, length_cons] at hm hfuel
          omega
        · rintro _ ⟨⟩
          rcases hc with rfl | rfl <;> decide
    rw [readValue, cons_append, skipSpace_cons (by decide)]
    simp [emit, andThen, hread, foldr_setMember_eq sorted, tokens, memberTokens_eq]
  | @arr vs each ih =>
    have hvs := (length_le_intercalate (vs.map fun v => encode v false)).2
    rw [encode_arr] at hfuel ⊢
    obtain _ | fuel := fuel
    · simp at hfuel
    have hread := readElements_intercalate (readValue fuel) (fun v => encode v false) tokens ']' false
      (by decide) (by decide) rest vs
      (fun v hv => encode_starts (each v hv)) fun v hv c rest hc => by
        refine ih v hv ?_ _ ?_
        · have hv := hvs _ (mem_map_of_mem hv)
          simp only [length_append, length_cons] at hv hfuel
          omega
        · rintro _ ⟨⟩
          rcases hc with rfl | rfl <;> decide
    rw [readValue, cons_append, skipSpace_cons (by decide)]
    simp [emit, andThen, hread, tokens, itemTokens_eq]
  | str s =>
    obtain _ | fuel := fuel
    · simp [encode, render, quoted] at hfuel
    have htext : encode (.str s) false ++ rest = '"' :: (encodeStringBody s ++ '"' :: rest) := by
      simp [encode, render, quoted]
    rw [htext, readValue, skipSpace_cons (by decide)]
    simp [readScalar, readString_encode, emit, tokens]
  | @num digits hvalid hall =>
    obtain ⟨c, text, htext, hspace, -⟩ := encode_starts (.num hvalid hall)
    obtain _ | fuel := fuel
    · simp [htext] at hfuel
    have hscalar := readScalar_num hvalid hall hrest
    replace htext : digits = c :: text := htext
    have hc := hall c (by simp [htext])
    rw [encode, render, readValue]
    rw [htext, cons_append] at hscalar ⊢
    rw [skipSpace_cons hspace]
    split
    · rename_i h
      obtain ⟨rfl, -⟩ := cons.inj h
      exact absurd hc (by decide)
    · rename_i h
      obtain ⟨rfl, -⟩ := cons.inj h
      exact absurd hc (by decide)
    · rw [hscalar]
      rfl
  | bool b =>
    obtain _ | fuel := fuel
    · cases b <;> simp [encode, render] at hfuel
    cases b <;> rfl
  | null =>
    obtain _ | fuel := fuel
    · simp [encode, render] at hfuel
    rfl

theorem unrepeated_of_wellFormed (h : WellFormed v) : Unrepeated v := by
  induction h with
  | obj sorted _ ih =>
    refine unrepeated_obj.mpr ⟨pairwise_map.mpr (sorted.imp fun hlt heq => ?_), ih⟩
    exact List.lt_irrefl _ (heq ▸ hlt)
  | arr _ ih => exact unrepeated_arr.mpr ih
  | str | num | bool | null => exact unrepeated_leaf (by simp) (by simp)

-- What is encoded is read back.
theorem decodeObject_encode (h : WellFormed (.obj ms)) : decodeObject (encode (.obj ms) false) = .ok (.obj ms) := by
  have hread := readValue_encode h le_rfl [] (by simp [EndsNumber])
  have hclean : rejectDuplicateKeys [] (tokens (.obj ms)) = none := by
    have hwalk := (follows_tokens (.obj ms) [] [] trivial).1 (unrepeated_of_wellFormed h)
    rwa [append_nil] at hwalk
  have hend : ∀ fuel, readTokens fuel [] = ([], .ended) := by rintro (_ | _) <;> rfl
  rw [append_nil] at hread
  have htokens : readTokens ((encode (.obj ms) false).length + 1) (encode (.obj ms) false)
      = (tokens (.obj ms), .ended) := by
    rw [readTokens, hread]
    simp [hend]
  simp only [decodeObject, htokens, hclean, hread]
  rfl

end Encode

end Chainloop.Redaction
