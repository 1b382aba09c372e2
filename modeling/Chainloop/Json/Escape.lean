import Mathlib.Data.List.Infix

-- The bodies of JSON strings, as Go's encoding/json writes them without HTML
-- escaping and reads them back. Texts are sequences of characters, not of bytes.
namespace Chainloop.Json

abbrev Chars := List Char

def hexDigit (n : Nat) : Char := Nat.digitChar n

def shortEscapes : List (Char × Char) :=
  [('"', '"'), ('\\', '\\'), ('\x08', 'b'), ('\x0c', 'f'), ('\n', 'n'), ('\r', 'r'), ('\t', 't')]

-- The characters written with four hexadecimal digits: the other control
-- characters, and the two line separators that JavaScript does not allow in a string.
def longEscaped (c : Char) : Bool := c.toNat < 0x20 || c == '\u2028' || c == '\u2029'

def hexCode (c : Char) : Chars :=
  [hexDigit (c.toNat / 0x1000 % 16), hexDigit (c.toNat / 0x100 % 16), hexDigit (c.toNat / 0x10 % 16),
    hexDigit (c.toNat % 16)]

def escapeChar (c : Char) : Chars :=
  match shortEscapes.lookup c with
  | some letter => ['\\', letter]
  | none => if longEscaped c then '\\' :: 'u' :: hexCode c else [c]

def encodeStringBody (s : Chars) : Chars := s.flatMap escapeChar

def hexValue (c : Char) : Option Nat :=
  if '0' ≤ c ∧ c ≤ '9' then some (c.toNat - 48)
  else if 'a' ≤ c ∧ c ≤ 'f' then some (c.toNat - 87)
  else if 'A' ≤ c ∧ c ≤ 'F' then some (c.toNat - 55)
  else none

def hexValues (a b c d : Char) : Option Nat := do
  let w ← hexValue a
  let x ← hexValue b
  let y ← hexValue c
  let z ← hexValue d
  return ((w * 16 + x) * 16 + y) * 16 + z

-- A string body is read as characters and as code units that were written with `\u`.
inductive Token where
  | char (c : Char)
  | unit (code : Nat)
deriving DecidableEq

def unescapeChar (letter : Char) : Option Char :=
  if letter = '/' then some '/' else (shortEscapes.map Prod.swap).lookup letter

def tokens : Chars → Option (List Token)
  | [] => some []
  | '\\' :: 'u' :: a :: b :: c :: d :: rest => do
    let code ← hexValues a b c d
    return .unit code :: (← tokens rest)
  | '\\' :: letter :: rest => do
    let c ← unescapeChar letter
    return .char c :: (← tokens rest)
  | c :: rest =>
    if c = '"' ∨ c = '\\' ∨ c.toNat < 0x20 then none
    else do return .char c :: (← tokens rest)

def isHighSurrogate (n : Nat) : Bool := 0xd800 ≤ n && n < 0xdc00
def isLowSurrogate (n : Nat) : Bool := 0xdc00 ≤ n && n < 0xe000

-- A surrogate pair is one character, and any other surrogate is replaced.
def runes : List Token → Chars
  | [] => []
  | .char c :: rest => c :: runes rest
  | .unit hi :: .unit lo :: rest =>
    if isHighSurrogate hi && isLowSurrogate lo then
      Char.ofNat (0x10000 + (hi - 0xd800) * 0x400 + (lo - 0xdc00)) :: runes rest
    else (if isHighSurrogate hi || isLowSurrogate hi then '\ufffd' else Char.ofNat hi)
      :: runes (.unit lo :: rest)
  | .unit code :: rest =>
    (if isHighSurrogate code || isLowSurrogate code then '\ufffd' else Char.ofNat code) :: runes rest

def decodeStringBody (body : Chars) : Option Chars := (tokens body).map runes

example : encodeStringBody "a\"\\\n\x01\u2028é".toList = "a\\\"\\\\\\n\\u0001\\u2028é".toList := by decide
example : decodeStringBody "\\ud83d\\ude00\\/\\ud83d".toList = some "😀/\ufffd".toList := by decide
example : decodeStringBody "a\\[".toList = none := by decide

end Chainloop.Json
