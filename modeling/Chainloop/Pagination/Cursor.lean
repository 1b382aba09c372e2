import Chainloop.Go.Time
import Chainloop.Go.Uuid
import Chainloop.Go.Strings
import Chainloop.Text.Base64

namespace Chainloop.Pagination

open Go Text List

structure Cursor where
  timestamp : Int
  id : UUID
deriving DecidableEq

structure CursorOptions where
  cursor : Option Cursor
  limit : Int
deriving DecidableEq

def defaultCursorLimit : Int := 10

inductive CursorError where
  | base64
  | invalid
  | timestamp
  | id
deriving DecidableEq

-- The location of the server, with its offset from UTC at each instant, and what time.Parse
-- makes of a text that is not quite RFC 3339.
structure Locale where
  offset : Nat → Int
  parseOther : List Char → Option Int

-- time.Parse(time.RFC3339Nano, s)
def Locale.parse (l : Locale) (s : List Char) : Option Int :=
  match Time.parseRFC3339 s with
  | some t => some t
  | none => l.parseOther s

def Locale.format (l : Locale) (t : Nat) : List Char := Time.formatRFC3339Nano t (l.offset t)

def Locale.Writable (l : Locale) (t : Nat) : Prop := Time.Writable t (l.offset t)

def cursorKey (l : Locale) (t : Nat) (id : UUID) : List Char := l.format t ++ ',' :: id.chars

def encodeCursor (l : Locale) (t : Nat) (id : UUID) : String :=
  String.ofList (Base64.encode (bytes (String.ofList (cursorKey l t id))))

-- base64.StdEncoding.DecodeString leaves out the ends of lines.
def decodeString (s : String) : Option (List UInt8) :=
  Base64.decode (s.toList.filter fun c => c != '\r' && c != '\n')

def asText (byt : List UInt8) : List Char := byt.map fun b => Char.ofNat b.toNat

def decodeCursor (l : Locale) (encodedCursor : String) : Except CursorError Cursor :=
  match decodeString encodedCursor with
  | none => .error .base64
  | some byt =>
    match split [','] (asText byt) with
    | [time, rawID] =>
      match l.parse time with
      | none => .error .timestamp
      | some timestamp =>
        match UUID.read rawID with
        | none => .error .id
        | some id => .ok ⟨timestamp, id⟩
    | _ => .error .invalid

def newCursor (l : Locale) (c : String) (limit : Int) : Except CursorError CursorOptions := do
  let cursor ← if c = "" then pure none else some <$> decodeCursor l c
  return ⟨cursor, if 0 < limit then limit else defaultCursorLimit⟩

-- A client that follows the cursors, with the number of the request that is made next.
-- Without fuel it has not come to an end.
def follow {ε α : Type} (request : Nat → String → Except ε (List α × String)) :
    Nat → Nat → String → Option (Except ε (List α))
  | 0, _, _ => none
  | fuel + 1, n, cursor =>
    match request n cursor with
    | .error e => some (.error e)
    | .ok (items, next) =>
      if next = "" then some (.ok items)
      else (follow request fuel (n + 1) next).map (Except.map (items ++ ·))

theorem encode_chars (byt : List UInt8) : ∀ c ∈ Base64.encode byt, c = '=' ∨ c ∈ Base64.alphabet := by
  have hsextet (n) : Base64.sextetChar n = '=' ∨ Base64.sextetChar n ∈ Base64.alphabet := by
    rw [Base64.sextetChar, getD_eq_getElem?_getD]
    cases h : Base64.alphabet[n]? with
    | none => exact .inl rfl
    | some c => exact .inr (mem_of_getElem? h)
  induction byt using Base64.encode.induct with
  | case1 => simp [Base64.encode]
  | case2 a => simp [Base64.encode, hsextet]
  | case3 a b => simp [Base64.encode, hsextet]
  | case4 a b c rest ih => simpa [Base64.encode, hsextet] using ih

theorem decodeString_encode (byt : List UInt8) :
    decodeString (String.ofList (Base64.encode byt)) = some byt := by
  have hplain : (('=' :: Base64.alphabet).all fun c => c != '\r' && c != '\n') = true := by decide
  have hkept : ∀ c ∈ Base64.encode byt, (c != '\r' && c != '\n') = true :=
    fun c hc => all_eq_true.mp hplain c (mem_cons.mpr (encode_chars byt c hc))
  rw [decodeString, String.toList_ofList, filter_eq_self.mpr hkept, Base64.decode_encode]

theorem asText_bytes (h : ∀ c ∈ s, c.toNat < 128) : asText (bytes (String.ofList s)) = s := by
  rw [bytes, String.toList_ofList, asText]
  induction s with
  | nil => rfl
  | cons c rest ih =>
    have hc : c.toNat < 128 := h c mem_cons_self
    have hbyte : String.utf8EncodeChar c = [UInt8.ofNat c.toNat] := if_pos (Nat.le_of_lt_succ hc)
    have hsmall : (UInt8.ofNat c.toNat).toNat = c.toNat := by
      exact Nat.mod_eq_of_lt (by omega)
    rw [flatMap_cons, map_append, ih fun d hd => h d (mem_cons_of_mem _ hd), hbyte,
      map_singleton, hsmall, Char.ofNat_toNat, singleton_append]

theorem plain_uuid (id : UUID) : Time.Plain id.chars := by
  have hdigits : (UUID.hexDigits.all fun c => decide (c ≠ ',' ∧ c.toNat < 128)) = true := by decide
  have hhex : ∀ bytes, Time.Plain (UUID.encodeHex bytes) :=
    fun bytes c hc => of_decide_eq_true
      (all_eq_true.mp hdigits c (UUID.mem_hexDigits_of_mem_encodeHex hc))
  exact .append (.append (.append (.append (hhex _) (.cons (by decide) (hhex _)))
    (.cons (by decide) (hhex _))) (.cons (by decide) (hhex _))) (.cons (by decide) (hhex _))

theorem read_chars (id : UUID) : UUID.read id.chars = some id := by
  have h := UUID.parse_toString id
  rwa [UUID.parse, UUID.toString, String.toList_ofList] at h

theorem decodeCursor_encodeCursor {l : Locale} (h : l.Writable t) (id : UUID) :
    decodeCursor l (encodeCursor l t id) = .ok ⟨t, id⟩ := by
  have htime : Time.Plain (l.format t) := Time.plain_format h
  have hascii : ∀ c ∈ cursorKey l t id, c.toNat < 128 := by
    intro c hc
    rcases mem_append.mp hc with hc | hc
    · exact (htime c hc).2
    · rcases mem_cons.mp hc with rfl | hc
      · decide
      · exact (plain_uuid id c hc).2
  have hparse : l.parse (l.format t) = some (t : Int) := by
    rw [Locale.parse, Locale.format, Time.parseRFC3339_format h]
  have hsplit : split [','] (cursorKey l t id) = [l.format t, id.chars] := by
    rw [cursorKey, split_of_cut fun hc => (htime _ hc).1 rfl,
      split_of_not_mem fun hc => (plain_uuid id _ hc).1 rfl]
  rw [decodeCursor, encodeCursor, decodeString_encode]
  simp only [asText_bytes hascii, hsplit, hparse, read_chars]

theorem encodeCursor_ne_empty (l : Locale) (t : Nat) (id : UUID) : encodeCursor l t id ≠ "" := by
  intro h
  have hempty := decodeString_encode (bytes (String.ofList (cursorKey l t id)))
  rw [show String.ofList _ = "" from h] at hempty
  have hnil : bytes (String.ofList (cursorKey l t id)) = [] := (Option.some.inj hempty).symm
  have hcomma : (44 : UInt8) ∈ bytes (String.ofList (cursorKey l t id)) := by
    rw [bytes, String.toList_ofList]
    refine mem_flatMap.mpr ⟨',', ?_, by decide⟩
    exact mem_append_right _ mem_cons_self
  rw [hnil] at hcomma
  cases hcomma

theorem newCursor_empty (l : Locale) (h : 0 < limit) :
    newCursor l "" limit = .ok ⟨none, limit⟩ := by
  rw [newCursor, if_pos h]
  rfl

theorem newCursor_encodeCursor {l : Locale} (ht : l.Writable t) (id : UUID) (h : 0 < limit) :
    newCursor l (encodeCursor l t id) limit = .ok ⟨some ⟨t, id⟩, limit⟩ := by
  rw [newCursor, if_neg (encodeCursor_ne_empty l t id), if_pos h, decodeCursor_encodeCursor ht]
  rfl

def Locale.utc : Locale := ⟨fun _ => 0, fun _ => none⟩

theorem Locale.utc_zero : Locale.utc.Writable 0 := ⟨⟨0, rfl, by decide⟩, by decide +kernel⟩

theorem Locale.utc_one : Locale.utc.Writable 1 := ⟨⟨0, rfl, by decide⟩, by decide +kernel⟩

end Chainloop.Pagination
