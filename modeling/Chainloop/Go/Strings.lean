import Chainloop.Text.Search
import Mathlib.Algebra.GroupWithZero.Nat
import Mathlib.Algebra.Ring.Int.Defs

namespace Chainloop.Go

open Text String

-- strings.SplitN(s, sep, 2)
def splitN2 (sep s : String) : List String :=
  match cut sep.toList s.toList with
  | some (before, after) => [ofList before, ofList after]
  | none => [s]

def splitString (sep s : String) : List String := (split sep.toList s.toList).map ofList

theorem splitString_digest {algorithm hex : String} (halgorithm : ':' ∉ algorithm.toList)
    (hhex : ':' ∉ hex.toList) : splitString ":" (algorithm ++ ":" ++ hex) = [algorithm, hex] := by
  have hlist : (algorithm ++ ":" ++ hex).toList = algorithm.toList ++ ':' :: hex.toList := by simp
  have hcolon : ":".toList = [':'] := rfl
  rw [splitString, hlist, hcolon, split_of_cut halgorithm, split_of_not_mem hhex]
  simp

def bytes (s : String) : List UInt8 := s.toList.flatMap utf8EncodeChar

-- strings.ReplaceAll
def replaceAll (old new s : String) : String := new.intercalate (splitString old s)

theorem replaceAll_of_not_mem {s : String} (new : String) (h : c ∉ s.toList) :
    replaceAll (singleton c) new s = s := by
  have hsep : (singleton c).toList = [c] := by simp
  rw [replaceAll, splitString, hsep, split_of_not_mem h]
  simp

theorem not_mem_replaceAll {new : String} (h : c ∉ new.toList) (s : String) :
    c ∉ (replaceAll (singleton c) new s).toList := by
  have hsep : (singleton c).toList = [c] := by simp
  intro hc
  rw [replaceAll, splitString, hsep, toList_intercalate, List.map_map] at hc
  have hparts (parts : List (List Char)) : (∀ p ∈ parts, c ∉ p) →
      c ∉ new.toList.intercalate parts := by
    intro hparts
    induction parts with
    | nil => simp
    | cons first rest ih =>
      have hfirst := hparts first List.mem_cons_self
      have hrest := ih fun p hp => hparts p (List.mem_cons_of_mem _ hp)
      cases rest with
      | nil => simpa using hfirst
      | cons second more =>
        simp [hfirst, h, hrest]
  refine hparts _ (fun p hp => ?_) hc
  obtain ⟨q, hq, rfl⟩ := List.mem_map.mp hp
  simpa using not_mem_of_mem_split hq

-- strings.HasPrefix
def startsWith (s start : String) : Bool := start.toList.isPrefixOf s.toList

-- strings.TrimPrefix
def trimStart (s start : String) : String :=
  if startsWith s start then ofList (s.toList.drop start.toList.length) else s

def isSpace (c : Char) : Bool :=
  c.val ∈ [0x09, 0x0a, 0x0b, 0x0c, 0x0d, 0x20, 0x85, 0xa0, 0x1680, 0x2028, 0x2029, 0x202f, 0x205f,
    0x3000] || (0x2000 ≤ c.val && c.val ≤ 0x200a)

def trimRight (drop : Char → Bool) (s : String) : String :=
  ofList (s.toList.reverse.dropWhile drop).reverse

def trimSpace (s : String) : String :=
  ofList ((trimRight isSpace s).toList.dropWhile isSpace)

def parseDigits (digits : List Char) : Option Nat :=
  if digits ≠ [] ∧ digits.all Char.isDigit then
    some (digits.foldl (fun n c => 10 * n + (c.toNat - '0'.toNat)) 0)
  else none

def parseInt64 (s : String) : Option Int :=
  let value : Option Int := match s.toList with
    | '-' :: digits => (parseDigits digits).map fun n => -(n : Int)
    | '+' :: digits => (parseDigits digits).map fun n => (n : Int)
    | digits => (parseDigits digits).map fun n => (n : Int)
  value.filter fun n => decide (-2 ^ 63 ≤ n) && decide (n < 2 ^ 63)

end Chainloop.Go
