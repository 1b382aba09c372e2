import Chainloop.Go.Errors
import Mathlib.Algebra.GroupWithZero.Nat
import Mathlib.Algebra.Ring.Int.Defs
import Mathlib.Data.List.Induction

-- The identifiers of github.com/google/uuid and their text.
namespace Chainloop.Go

open List Nat

structure UUID where
  bytes : List UInt8
  length_eq : bytes.length = 16
deriving DecidableEq

namespace UUID

def nil : UUID := ⟨List.replicate 16 0, rfl⟩

def ofByte (b : UInt8) : UUID := ⟨b :: List.replicate 15 0, rfl⟩

def hexDigits : List Char :=
  ['0', '1', '2', '3', '4', '5', '6', '7', '8', '9', 'a', 'b', 'c', 'd', 'e', 'f']

def hexDigit (n : Nat) : Char := hexDigits.getD n '0'

def encodeByte (b : UInt8) : List Char := [hexDigit (b.toNat / 16), hexDigit (b.toNat % 16)]

def encodeHex (bytes : List UInt8) : List Char := bytes.flatMap encodeByte

theorem hexDigit_mem (n : Nat) : hexDigit n ∈ hexDigits := by
  rw [hexDigit, getD_eq_getElem?_getD]
  cases h : hexDigits[n]? with
  | none => exact mem_cons_self
  | some c => exact mem_of_getElem? h

theorem mem_hexDigits_of_mem_encodeHex {bytes : List UInt8} (h : c ∈ encodeHex bytes) :
    c ∈ hexDigits := by
  obtain ⟨b, _, hc⟩ := mem_flatMap.mp h
  rcases mem_cons.mp hc with rfl | hc
  · exact hexDigit_mem _
  · rw [mem_singleton.mp hc]
    exact hexDigit_mem _

def chars (u : UUID) : List Char :=
  encodeHex (u.bytes.take 4) ++ '-' :: encodeHex ((u.bytes.drop 4).take 2) ++
    '-' :: encodeHex ((u.bytes.drop 6).take 2) ++ '-' :: encodeHex ((u.bytes.drop 8).take 2) ++
    '-' :: encodeHex (u.bytes.drop 10)

def toString (u : UUID) : String := String.ofList u.chars

def xvalue (c : Char) : Option Nat :=
  if '0' ≤ c ∧ c ≤ '9' then some (c.toNat - '0'.toNat)
  else if 'a' ≤ c ∧ c ≤ 'f' then some (c.toNat - 'a'.toNat + 10)
  else if 'A' ≤ c ∧ c ≤ 'F' then some (c.toNat - 'A'.toNat + 10)
  else none

def xtob (c d : Char) : Option UInt8 := do
  let high ← xvalue c
  let low ← xvalue d
  return UInt8.ofNat (high * 16 + low)

def ofBytes (bytes : List UInt8) : Option UUID :=
  if h : bytes.length = 16 then some ⟨bytes, h⟩ else none

def readAt (s : List Char) (positions : List Nat) : Option UUID := do
  let bytes ← positions.mapM fun x => xtob (s.getD x ' ') (s.getD (x + 1) ' ')
  ofBytes bytes

-- xxxxxxxx-xxxx-xxxx-xxxx-xxxxxxxxxxxx
def readDashed (s : List Char) : Option UUID :=
  if s.getD 8 ' ' ≠ '-' ∨ s.getD 13 ' ' ≠ '-' ∨ s.getD 18 ' ' ≠ '-' ∨ s.getD 23 ' ' ≠ '-' then none
  else readAt s [0, 2, 4, 6, 9, 11, 14, 16, 19, 21, 24, 26, 28, 30, 32, 34]

-- The text with no characters outside ASCII is told apart by its length: with or without
-- dashes, after urn:uuid: or in brackets, of which the first and the last character are not
-- looked at. Any other text has a byte that is no digit where one is expected.
def read (s : List Char) : Option UUID :=
  if s.any (fun c => 128 ≤ c.toNat) then none
  else if s.length = 36 then readDashed s
  else if s.length = 45 then
    if (s.take 9).map Char.toLower = "urn:uuid:".toList then readDashed (s.drop 9) else none
  else if s.length = 38 then readDashed (s.drop 1)
  else if s.length = 32 then
    readAt s [0, 2, 4, 6, 8, 10, 12, 14, 16, 18, 20, 22, 24, 26, 28, 30]
  else none

def parse (s : String) : Option UUID := read s.toList

private theorem xtob_hexDigit (b : UInt8) :
    xtob (hexDigit (b.toNat / 16)) (hexDigit (b.toNat % 16)) = some b := by
  have h : ∀ n < 256, xtob (hexDigit (n / 16)) (hexDigit (n % 16)) = some (UInt8.ofNat n) := by
    decide +kernel
  simpa using h b.toNat b.toNat_lt

private theorem hexDigit_ascii (n : Nat) : (hexDigit n).toNat < 128 := by
  have hall : (hexDigits.all fun c => decide (c.toNat < 128)) = true := by decide
  exact of_decide_eq_true (all_eq_true.mp hall _ (hexDigit_mem n))

@[simp] theorem parse_toString (u : UUID) : parse u.toString = some u := by
  obtain ⟨bytes, h⟩ := u
  match bytes, h with
  | [b0, b1, b2, b3, b4, b5, b6, b7, b8, b9, b10, b11, b12, b13, b14, b15], _ =>
    simp [parse, toString, chars, read, encodeHex, encodeByte, readDashed, readAt, ofBytes,
      xtob_hexDigit, hexDigit_ascii]

@[simp] theorem toString_ne_empty (u : UUID) : u.toString ≠ "" := by
  intro h
  have hread : parse u.toString = parse "" := by rw [h]
  rw [parse_toString] at hread
  cases hread

-- The identifier as a number, the first byte being the most significant. PostgreSQL
-- orders identifiers as these numbers.
def toNat (u : UUID) : Nat := u.bytes.foldl (fun n b => n * 256 + b.toNat) 0

def bigEndian : Nat → Nat → List UInt8
  | 0, _ => []
  | size + 1, n => bigEndian size (n / 256) ++ [UInt8.ofNat n]

theorem bigEndian_length (size n : Nat) : (bigEndian size n).length = size := by
  induction size generalizing n with
  | zero => rfl
  | succ size ih => simp [bigEndian, ih]

def ofNat (n : Nat) : UUID := ⟨bigEndian 16 n, bigEndian_length 16 n⟩

theorem foldl_bigEndian (size n : Nat) :
    (bigEndian size n).foldl (fun n b => n * 256 + b.toNat) 0 = n % 256 ^ size := by
  induction size generalizing n with
  | zero => simp [bigEndian, mod_one]
  | succ size ih =>
    have hpow : 256 ^ (size + 1) = 256 * 256 ^ size := pow_succ'
    rw [bigEndian, foldl_append, ih, foldl_cons, foldl_nil, UInt8.toNat_ofNat',
      hpow, mod_mul, mul_comm, add_comm]

theorem bigEndian_foldl (bytes : List UInt8) :
    bigEndian bytes.length (bytes.foldl (fun n b => n * 256 + b.toNat) 0) = bytes := by
  induction bytes using reverseRecOn with
  | nil => rfl
  | append_singleton bytes b ih =>
    have hb := b.toNat_lt
    have hhigh : ∀ n : Nat, (n * 256 + b.toNat) / 256 = n := by omega
    have hlow : ∀ n : Nat, UInt8.ofNat (n * 256 + b.toNat) = b := by
      intro n
      apply UInt8.toNat_inj.mp
      rw [UInt8.toNat_ofNat']
      omega
    rw [foldl_append, length_append, length_singleton, bigEndian, foldl_cons,
      foldl_nil, hhigh, hlow, ih]

theorem toNat_ofNat (h : n < 2 ^ 128) : (ofNat n).toNat = n := by
  have hmod := foldl_bigEndian 16 n
  rw [mod_eq_of_lt (by simpa using h)] at hmod
  exact hmod

theorem ofNat_toNat (u : UUID) : ofNat u.toNat = u := by
  obtain ⟨bytes, h⟩ := u
  have hbytes := bigEndian_foldl bytes
  rw [h] at hbytes
  simp [ofNat, toNat, hbytes]

theorem toNat_injective : Function.Injective toNat := by
  intro u v h
  rw [← ofNat_toNat u, h, ofNat_toNat]

end UUID

end Chainloop.Go
