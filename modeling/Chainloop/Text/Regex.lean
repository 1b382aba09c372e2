import Mathlib.Data.List.Basic

namespace Chainloop.Text

-- Regular expressions with captures, as the regexp package has them.
inductive Regex where
  | empty
  | char (accepts : Char → Bool)
  | start
  | stop
  | wordBoundary
  | seq (first second : Regex)
  | alt (first second : Regex)
  | star (greedy : Bool) (body : Regex)
  | group (index : Nat) (body : Regex)

-- A place in a text, with what was captured on the way to it, the latest capture first.
structure Cursor where
  before : List Char
  after : List Char
  captures : List (Nat × List Char)
deriving DecidableEq

def isDigit (c : Char) : Bool := '0' ≤ c && c ≤ '9'

def isHex (c : Char) : Bool := isDigit c || ('a' ≤ c && c ≤ 'f') || ('A' ≤ c && c ≤ 'F')

def isLetter (c : Char) : Bool := ('a' ≤ c && c ≤ 'z') || ('A' ≤ c && c ≤ 'Z')

def isBlank (c : Char) : Bool := c = ' ' || c = '\t' || c = '\n' || c = '\x0c' || c = '\r'

def isWord (c : Char) : Bool := isDigit c || isLetter c || c = '_'

namespace Regex

-- What repeating a step leads to, in the order in which it is tried. A round that does not
-- move is not repeated.
def iterate (step : Cursor → List Cursor) (greedy : Bool) : Nat → Cursor → List Cursor
  | 0, c => [c]
  | fuel + 1, c =>
    let more := ((step c).filter fun d => d.after.length < c.after.length).flatMap
      (iterate step greedy fuel)
    if greedy then more ++ [c] else c :: more

-- The ends of the matches that begin at a place, the preferred one first.
def run : Regex → Cursor → List Cursor
  | empty, c => [c]
  | char accepts, c =>
    match c.after with
    | [] => []
    | x :: rest => if accepts x then [⟨x :: c.before, rest, c.captures⟩] else []
  | start, c => if c.before.isEmpty then [c] else []
  | stop, c => if c.after.isEmpty then [c] else []
  | wordBoundary, c =>
    if (c.before.head?.any isWord) = (c.after.head?.any isWord) then [] else [c]
  | seq first second, c => (first.run c).flatMap second.run
  | alt first second, c => first.run c ++ second.run c
  | star greedy body, c => iterate body.run greedy c.after.length c
  | group index body, c =>
    (body.run c).map fun d =>
      { d with captures := (index, c.after.take (c.after.length - d.after.length)) :: d.captures }

-- The leftmost match: the text before it and its end.
def find (r : Regex) (before : List Char) : List Char → Option (List Char × Cursor)
  | [] => (r.run ⟨before, [], []⟩).head?.map fun c => (before, c)
  | x :: rest =>
    match (r.run ⟨before, x :: rest, []⟩).head? with
    | some c => some (before, c)
    | none => find r (x :: before) rest

def isMatch (r : Regex) (s : String) : Bool := (r.find [] s.toList).isSome

-- FindStringSubmatch: the capture of each index, which is empty for a group that was not matched.
def submatch (r : Regex) (s : String) : Option (Nat → String) :=
  (r.find [] s.toList).map fun m index => String.ofList ((m.2.captures.lookup index).getD [])

-- ReplaceAllString with the empty text, for an expression that does not match the empty text.
def removeFrom (r : Regex) : Nat → List Char → List Char → List Char
  | 0, _, text => text
  | fuel + 1, before, text =>
    match r.find before text with
    | none => text
    | some (left, c) =>
      text.take (left.length - before.length) ++ removeFrom r fuel c.before c.after

def removeAll (r : Regex) (s : String) : String :=
  String.ofList (r.removeFrom s.toList.length [] s.toList)

def one (c : Char) : Regex := char (· = c)

def any : Regex := char (· ≠ '\n')

def digit : Regex := char isDigit

def blank : Regex := char isBlank

def opt (r : Regex) : Regex := alt r empty

def many (r : Regex) : Regex := star true r

def manyLazy (r : Regex) : Regex := star false r

def some1 (r : Regex) : Regex := seq r (many r)

def some1Lazy (r : Regex) : Regex := seq r (manyLazy r)

def concat (rs : List Regex) : Regex := rs.foldr seq empty

def oneOf (rs : List Regex) : Regex :=
  match rs with
  | [] => char fun _ => false
  | r :: rest => rest.foldl alt r

def lit (s : String) : Regex := concat (s.toList.map one)

-- The case folding of (?i). Two letters have a third form outside of ASCII.
def foldsTo (x c : Char) : Bool :=
  c.toLower = x.toLower || (x.toLower = 's' && c = '\u017f') || (x.toLower = 'k' && c = '\u212a')

def litFold (s : String) : Regex := concat (s.toList.map fun x => char (foldsTo x))

end Regex

end Chainloop.Text
