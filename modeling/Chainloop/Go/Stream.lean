import Chainloop.Go.Errors
import Chainloop.Text.Search

namespace Chainloop.Go

-- How a reader ends: at the end of its data, or with an error.
inductive Ending where
  | eof
  | failed (err : GoError)
deriving DecidableEq

-- A reader as the bytes that it gives and how it ends. The ending shows only to a caller
-- that asks for more than the bytes.
structure Stream where
  bytes : List UInt8
  ending : Ending
deriving DecidableEq

namespace Stream

def ofBytes (data : List UInt8) : Stream := ⟨data, .eof⟩

def readAll (s : Stream) : Except GoError (List UInt8) :=
  match s.ending with
  | .eof => .ok s.bytes
  | .failed err => .error err

-- io.LimitReader: behind its bound it gives no byte and no error.
def limit (n : Nat) (s : Stream) : Stream :=
  if n ≤ s.bytes.length then ⟨s.bytes.take n, .eof⟩ else s

theorem readAll_eq_ok_iff {s : Stream} : s.readAll = .ok data ↔ s = ofBytes data := by
  obtain ⟨bytes, ending⟩ := s
  cases ending with
  | eof => simp [readAll, ofBytes]
  | failed err => simp [readAll, ofBytes]

theorem readAll_limit {s : Stream} {max : Nat} {data : List UInt8} (h : data.length ≤ max) :
    (s.limit (max + 1)).readAll = .ok data ↔ s = ofBytes data := by
  unfold limit
  split_ifs with hlong
  · have htake : (s.bytes.take (max + 1)).length = max + 1 := List.length_take_of_le hlong
    constructor
    · intro hread
      have hbytes : s.bytes.take (max + 1) = data := Except.ok.inj hread
      rw [hbytes] at htake
      omega
    · rintro rfl
      have hlong : max + 1 ≤ data.length := hlong
      omega
  · exact readAll_eq_ok_iff

-- The lines of bufio.ScanLines. What follows the last line end is a line if it is not empty.
def lines (data : List UInt8) : List (List UInt8) :=
  let parts := Text.split [10] data
  if parts.getLast? = some [] then parts.dropLast else parts

def dropCR (line : List UInt8) : List UInt8 :=
  if line.getLast? = some 13 then line.dropLast else line

def errTooLong : GoError := .new "bufio.Scanner: token too long"

-- The lines that a bufio.Scanner gives, and the error that it stops with. A line must fit
-- its buffer together with one more byte.
def scanLines (maxTokenSize : Nat) (s : Stream) : List (List UInt8) × Option GoError :=
  let fitting := (lines s.bytes).takeWhile fun line => line.length < maxTokenSize
  let err :=
    if fitting.length < (lines s.bytes).length then some errTooLong
    else match s.ending with
      | .eof => none
      | .failed err => some err
  (fitting.map dropCR, err)

example : lines [97, 10, 13, 10, 98] = [[97], [13], [98]] := by decide

end Stream

-- The first rune of a text and its width. A byte that starts no rune is a replacement
-- character of width one.
def decodeRune (b : UInt8) (rest : List UInt8) : Char × Nat :=
  let cont (c : UInt8) : Bool := 0x80 ≤ c && c ≤ 0xbf
  let low (c : UInt8) : Nat := c.toNat % 64
  if b < 0x80 then (Char.ofNat b.toNat, 1)
  else if 0xc2 ≤ b && b ≤ 0xdf then
    match rest with
    | c :: _ => if cont c then (Char.ofNat (b.toNat % 32 * 64 + low c), 2) else ('�', 1)
    | _ => ('�', 1)
  else if 0xe0 ≤ b && b ≤ 0xef then
    match rest with
    | c :: d :: _ =>
      if cont c && cont d && (b != 0xe0 || 0xa0 ≤ c) && (b != 0xed || c ≤ 0x9f) then
        (Char.ofNat (b.toNat % 16 * 4096 + low c * 64 + low d), 3)
      else ('�', 1)
    | _ => ('�', 1)
  else if 0xf0 ≤ b && b ≤ 0xf4 then
    match rest with
    | c :: d :: e :: _ =>
      if cont c && cont d && cont e && (b != 0xf0 || 0x90 ≤ c) && (b != 0xf4 || c ≤ 0x8f) then
        (Char.ofNat (b.toNat % 8 * 262144 + low c * 4096 + low d * 64 + low e), 4)
      else ('�', 1)
    | _ => ('�', 1)
  else ('�', 1)

-- The runes of a text, of at most as many as it has bytes.
def decodeRunes : Nat → List UInt8 → List Char
  | 0, _ => []
  | _, [] => []
  | fuel + 1, b :: rest =>
    let r := decodeRune b rest
    r.1 :: decodeRunes fuel (rest.drop (r.2 - 1))

def textOf (data : List UInt8) : String := String.ofList (decodeRunes data.length data)

example : textOf [0x67, 0xc3, 0xbc, 0xff] = "gü�" := by decide

end Chainloop.Go
