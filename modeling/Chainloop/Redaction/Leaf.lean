import Chainloop.Go.Map
import Chainloop.Json.Canonical
import Chainloop.Text.Replace
import Chainloop.Text.Search
import Mathlib.Algebra.GroupWithZero.Nat
import Mathlib.Algebra.Ring.Int.Defs
import Mathlib.Data.List.Sort

namespace Chainloop.Redaction

open Go Json

def defaultPlaceholder (ruleID : Chars) : Chars :=
  if ruleID.isEmpty then "[CHAINLOOP_TRACE_REDACTED]".toList
  else "[CHAINLOOP_TRACE_REDACTED:".toList ++ ruleID ++ [']']

-- The class [^\]\s] of the pattern.
def isPlaceholderChar (c : Char) : Bool := !([']', '\t', '\n', '\x0c', '\r', ' '].contains c)

def isDefaultPlaceholder (s : Chars) : Bool :=
  let start := "[CHAINLOOP_TRACE_REDACTED".toList
  start.isPrefixOf s &&
    match s.drop start.length with
    | [']'] => true
    | ':' :: rest => rest.getLast? == some ']' && rest.dropLast.all isPlaceholderChar
    | _ => false

structure SecretRule where
  secret : Chars
  ruleID : Chars
deriving DecidableEq

def len (s : Chars) : Nat := (s.map Char.utf8Size).sum

def trimPartialEscape (secret : Chars) : Chars :=
  if backslashes secret % 2 = 1 then secret.dropLast else secret

structure Span where
  start : Nat
  stop : Nat
deriving DecidableEq

def allowSignatures : List Chars := ["betterleaks:allow".toList, "gitleaks:allow".toList]

def hasAllowMarker (s : Chars) : Bool := allowSignatures.any fun sig => Text.contains sig s

-- The text before the first escape of one of the characters. Escapes are read as
-- units from the left.
def cutAtEscape (terminators : Chars) : Chars → Chars
  | [] => []
  | [c] => [c]
  | c :: d :: rest =>
    if c = '\\' then
      if d ∈ terminators then [] else c :: d :: cutAtEscape terminators rest
    else c :: cutAtEscape terminators (d :: rest)

-- The loop over the lines of the rest of a body, which starts at `start`. A turn
-- takes a line and the two characters of its line break.
def allowedLinesFrom : Nat → Nat → Chars → List Span
  | 0, _, _ => []
  | fuel + 1, start, rest =>
    let line := cutAtEscape ['n', 'r'] rest
    let found := if hasAllowMarker line then [⟨start, start + line.length⟩] else []
    if line.length + 2 ≤ rest.length then
      found ++ allowedLinesFrom fuel (start + line.length + 2) (rest.drop (line.length + 2))
    else found

def allowedLines (body : Chars) : List Span := allowedLinesFrom (body.length + 1) 0 body

def within (spans : List Span) (start stop : Nat) : Bool :=
  spans.any fun s => s.start ≤ start && stop ≤ s.stop

def keeps (body secret : Chars) (start : Nat) : Bool :=
  within (allowedLines body) start (start + secret.length)

-- The new body, and how many occurrences were replaced and kept.
def replaceOutsideAllowedLines (body secret placeholder : Chars) : Chars × Nat × Nat :=
  let starts := Text.startsFrom secret 0 0 body
  (Text.substFrom id secret (fun start => if keeps body secret start then secret else placeholder) 0 0
      body,
    (starts.filter fun start => !keeps body secret start).length,
    (starts.filter (keeps body secret)).length)

structure Rewriter where
  pathFilter : Chars → Bool
  placeholder : Chars → Chars
  allowMarkers : Bool
  secrets : List SecretRule

structure Tally where
  byRule : Map Chars Nat
  allowed : Map Chars Nat
  located : List Chars
  kept : List Chars
  protectedIn : List Chars
  count : Nat
deriving DecidableEq

def Tally.empty : Tally := ⟨.empty, .empty, [], [], [], 0⟩

def bump (m : Map Chars Nat) (k : Chars) (n : Nat) : Map Chars Nat := m.set k (m.getD k 0 + n)

structure Progress where
  body : Chars
  n : Nat
  eligible : Bool
  lastRule : Chars
deriving DecidableEq

def Rewriter.substitute (w : Rewriter) (marked : Bool) (sr : SecretRule) (body : Chars) :
    Chars × Nat × Nat :=
  let placeholder := encodeStringBody (w.placeholder sr.ruleID)
  if marked then replaceOutsideAllowedLines body sr.secret placeholder
  else (Text.replaceAll sr.secret placeholder body, Text.count sr.secret body, 0)

def Rewriter.redactSecrets (w : Rewriter) (marked : Bool) (path : Chars) :
    List SecretRule → Progress → Tally → Option Progress × Tally
  | [], p, t => (some p, t)
  | sr :: rest, p, t =>
    if Text.count sr.secret p.body = 0 then w.redactSecrets marked path rest p t
    else if !p.eligible && !w.pathFilter path then
      (none, { t with
        protectedIn := ((sr :: rest).filter fun s => Text.contains s.secret p.body).foldl
          (fun set s => set.insert s.secret) t.protectedIn })
    else
      let (body, replaced, kept) := w.substitute marked sr p.body
      let t := if 0 < kept then
          { t with allowed := bump t.allowed sr.ruleID kept, kept := t.kept.insert sr.secret }
        else t
      if replaced = 0 then w.redactSecrets marked path rest { p with body, eligible := true } t
      else
        w.redactSecrets marked path rest
          { body, n := p.n + replaced, eligible := true, lastRule := sr.ruleID }
          { t with
            byRule := bump t.byRule sr.ruleID replaced, located := t.located.insert sr.secret }

def Rewriter.marked (w : Rewriter) (body : Chars) : Bool := w.allowMarkers && hasAllowMarker body

def Rewriter.redactLeaf (w : Rewriter) (s path : Chars) (t : Tally) : Chars × Tally :=
  let body := encodeStringBody s
  match w.redactSecrets (w.marked body) path w.secrets ⟨body, 0, false, []⟩ t with
  | (none, t) => (s, t)
  | (some p, t) =>
    if p.n = 0 then (s, t)
    else
      ((decodeStringBody p.body).getD (w.placeholder p.lastRule), { t with count := t.count + p.n })

end Chainloop.Redaction
