import Mathlib.Data.List.Basic

namespace Chainloop.Text.Base64

open Option

def alphabet : List Char :=
  "ABCDEFGHIJKLMNOPQRSTUVWXYZabcdefghijklmnopqrstuvwxyz0123456789+/".toList

def sextetChar (n : Nat) : Char := alphabet.getD n '='

def sextet? (c : Char) : Option Nat := alphabet.idxOf? c

def encode : List UInt8 → List Char
  | [] => []
  | [a] => [sextetChar (a.toNat / 4), sextetChar (a.toNat % 4 * 16), '=', '=']
  | [a, b] =>
    [sextetChar (a.toNat / 4), sextetChar (a.toNat % 4 * 16 + b.toNat / 16),
      sextetChar (b.toNat % 16 * 4), '=']
  | a :: b :: c :: rest =>
    sextetChar (a.toNat / 4) :: sextetChar (a.toNat % 4 * 16 + b.toNat / 16) ::
      sextetChar (b.toNat % 16 * 4 + c.toNat / 64) :: sextetChar (c.toNat % 64) :: encode rest

def first (p q : Nat) : UInt8 := UInt8.ofNat (p * 4 + q / 16)

def second (q r : Nat) : UInt8 := UInt8.ofNat (q % 16 * 16 + r / 4)

def third (r s : Nat) : UInt8 := UInt8.ofNat (r % 4 * 64 + s)

-- Padding is read in the last group only.
def decode : List Char → Option (List UInt8)
  | [] => some []
  | w :: x :: y :: z :: rest => do
    let p ← sextet? w
    let q ← sextet? x
    if z = '=' ∧ rest = [] then
      if y = '=' then return [first p q]
      let r ← sextet? y
      return [first p q, second q r]
    let r ← sextet? y
    let s ← sextet? z
    let more ← decode rest
    return first p q :: second q r :: third r s :: more
  | _ => none

theorem sextet?_sextetChar (h : n < 64) : sextet? (sextetChar n) = some n := by
  have key : (List.range 64).all (fun n => sextet? (sextetChar n) == some n) = true := by
    decide +kernel
  simpa using List.all_eq_true.mp key n (List.mem_range.mpr h)

theorem sextetChar_ne_pad (h : n < 64) : sextetChar n ≠ '=' := by
  intro hpad
  have hnone : sextet? '=' = none := by decide +kernel
  rw [← hpad, sextet?_sextetChar h] at hnone
  cases hnone

theorem first_eq (a : UInt8) (h : q / 16 = a.toNat % 4) : first (a.toNat / 4) q = a := by
  have hsum : a.toNat / 4 * 4 + q / 16 = a.toNat := by omega
  rw [first, hsum, UInt8.ofNat_toNat]

theorem second_eq (b : UInt8) (hq : q % 16 = b.toNat / 16) (hr : r / 4 = b.toNat % 16) :
    second q r = b := by
  have hsum : q % 16 * 16 + r / 4 = b.toNat := by omega
  rw [second, hsum, UInt8.ofNat_toNat]

theorem third_eq (c : UInt8) (hr : r % 4 = c.toNat / 64) : third r (c.toNat % 64) = c := by
  have hsum : r % 4 * 64 + c.toNat % 64 = c.toNat := by omega
  rw [third, hsum, UInt8.ofNat_toNat]

-- Three bytes at a time, as the encoder goes; the last group has one, two or three.
theorem decode_encode (bytes : List UInt8) : decode (encode bytes) = some bytes := by
  induction bytes using encode.induct with
  | case1 => rfl
  | case2 a =>
    have ha := a.toNat_lt
    simp only [encode, decode]
    rw [sextet?_sextetChar (by omega), sextet?_sextetChar (by omega)]
    simp [first_eq a (q := a.toNat % 4 * 16) (by omega)]
  | case3 a b =>
    have ha := a.toNat_lt
    have hb := b.toNat_lt
    simp only [encode, decode]
    rw [sextet?_sextetChar (by omega), sextet?_sextetChar (by omega), sextet?_sextetChar (by omega)]
    have hy : sextetChar (b.toNat % 16 * 4) ≠ '=' := sextetChar_ne_pad (by omega)
    simp only [hy, bind_eq_bind, bind_some]
    rw [first_eq a (by omega), second_eq b (by omega) (by omega)]
    rfl
  | case4 a b c rest ih =>
    have ha := a.toNat_lt
    have hb := b.toNat_lt
    have hc := c.toNat_lt
    simp only [encode, decode]
    rw [sextet?_sextetChar (by omega), sextet?_sextetChar (by omega),
      sextet?_sextetChar (by omega), sextet?_sextetChar (by omega), ih]
    have hz : sextetChar (c.toNat % 64) ≠ '=' := sextetChar_ne_pad (by omega)
    simp only [hz, bind_eq_bind, bind_some]
    rw [first_eq a (by omega), second_eq b (by omega) (by omega), third_eq c (by omega)]
    rfl

end Chainloop.Text.Base64
