import Chainloop.Go.Map
import Chainloop.Go.Stream
import Chainloop.Go.Strings
import Chainloop.Text.Regex

namespace Chainloop.Archives.Dranzer

open Go Text

-- What the parser takes from the Go runtime: unicode.ToLower, and the capacity that append
-- gives to a full slice of findings.
structure Runtime where
  lower : Char → Char
  grow : Nat → Nat
  grows : ∀ capacity, capacity < grow capacity

section Regexes

open Regex

def hexNumber : Regex := concat [lit "0x", some1 (char isHex)]

def bracedId : Regex := concat [one '{', some1 (char (· ≠ '}')), one '}']

def objectRe : Regex :=
  concat [start, lit "Testing COM Object - ",
    group 1 (alt bracedId (some1 (char fun c => isHex c || c = '-'))), many blank,
    group 2 (many any), stop]

def failureHeaderRe : Regex := concat [start, group 1 bracedId, one '-', group 2 (many any), stop]

def errorRe : Regex :=
  concat [start, lit "ERROR - ", group 1 (manyLazy any), many blank, one '(', group 2 hexNumber,
    one ')', many blank, stop]

def methodRe : Regex :=
  concat [start, lit "Invok", alt (lit "ing") (lit "ed"), one ' ',
    oneOf [lit "Method", lit "Property Get", lit "Property Put Reference", lit "Property Put"],
    some1 blank, one '-', some1 blank, group 1 (some1 any), stop]

def avRe : Regex :=
  concat [start, group 1 (some1Lazy any), lit " at ", group 2 hexNumber, lit " :Bad ",
    group 3 (alt (lit "read") (lit "write")), lit " on ", group 4 hexNumber, stop]

def win32Re : Regex :=
  concat [start, group 1 (some1Lazy any), lit " (code ", group 2 (some1 (char isHex)), lit ") at ",
    group 3 hexNumber, stop]

def metadataRe : Regex :=
  concat [start, group 1 (concat [char isLetter, some1Lazy (char fun c => isLetter c || c = ' ' || c = '.')]),
    many blank, one ':', many blank, group 2 (many any), stop]

def counterRe : Regex :=
  concat [start, lit "Number of ", group 1 (some1Lazy any), blank, some1 blank, group 2 (some1 digit),
    stop]

def versionRe : Regex :=
  concat [litFold "Test Engine Version:", many blank, one '$', litFold "Rev:", many blank,
    group 1 (some1 digit)]

end Regexes

structure Tool where
  name : String
  version : String
deriving DecidableEq

structure Finding where
  source : String := ""
  clsid : String := ""
  className : String := ""
  method : String := ""
  errorCode : String := ""
  errorMessage : String := ""
  address : String := ""
  accessType : String := ""
deriving DecidableEq

structure Object where
  source : String := ""
  clsid : String
  description : String
  metadata : Map String String

structure Summary where
  objectCount : Int := 0
  killBit : Int := 0
  passed : Int := 0
  failed : Int := 0
  hung : Int := 0
  counters : Map String Int := .empty

structure Report where
  source : String := ""
  tool : Tool
  objects : List Object
  findings : List Finding
  summary : Summary
  raw : String

def toolName : String := "dranzer"

def toInt (n : Int) : Int := n.bmod (2 ^ 64)

def atoi (s : String) : Int :=
  (s.toList.foldl (fun n c => n.bind fun n =>
    if isDigit c then some (toInt (n * 10 + (c.toNat - '0'.toNat : Nat))) else none) (some 0)).getD 0

def fields (s : String) : List String :=
  ((s.toList.splitBy fun a b => isSpace a = isSpace b).filter fun part =>
    !(part.head?.any isSpace)).map String.ofList

def normalizeKey (lower : Char → Char) (s : String) : String :=
  let lowered := String.ofList ((trimSpace s).toList.map lower)
  "_".intercalate (fields (replaceAll "." "" lowered))

def equalFold (s t : String) : Bool :=
  s.toList.length = t.toList.length && (s.toList.zip t.toList).all fun p => Regex.foldsTo p.2 p.1

def isSeparatorLine (trimmed : String) : Bool :=
  let stripped := ((trimmed.toList.dropWhile fun c => c = '*' || c = ' ').reverse.dropWhile
    fun c => c = '*' || c = ' ').reverse
  stripped.isEmpty || equalFold (String.ofList stripped) "Access Violation"

def Summary.setWellKnown (s : Summary) (key : String) (value : Int) : Summary :=
  if key = "com_objects" then { s with objectCount := value }
  else if key = "com_objects_with_kill_bit" then { s with killBit := value }
  else if key = "com_objects_passed_test" then { s with passed := value }
  else if key = "com_objects_failed_test" then { s with failed := value }
  else if key = "com_objects_hung_during_test" then { s with hung := value }
  else s

def Summary.applyCounter (lower : Char → Char) (s : Summary) (label : String) (value : Int) :
    Summary :=
  let key := normalizeKey lower label
  { s with counters := s.counters.set key value }.setWellKnown key value

-- strings.ToValidUTF8 with no replacement. A byte that belongs to no rune is left out.
def validRunes : Nat → List UInt8 → List Char
  | 0, _ => []
  | _, [] => []
  | fuel + 1, b :: rest =>
    let r := decodeRune b rest
    let others := validRunes fuel (rest.drop (r.2 - 1))
    if r = ('�', 1) then others else r.1 :: others

inductive Line where
  | skipped
  | counter (label : String) (value : Int)
  | object (clsid description : String)
  | method (signature : String)
  | violation (message address access : String)
  | exception (message code address : String)
  | failure (clsid className : String)
  | error (message code : String)
  | banner
  | other (text : String)
deriving DecidableEq

-- The first expression that matches a line decides what it is.
def classify (line : String) : Line :=
  let trimmed := trimSpace line
  if trimmed = "" || isSeparatorLine trimmed then .skipped
  else if let some m := counterRe.submatch trimmed then .counter (m 1) (atoi (m 2))
  else if let some m := objectRe.submatch trimmed then .object (m 1) (trimSpace (m 2))
  else if let some m := methodRe.submatch trimmed then .method (trimSpace (m 1))
  else if let some m := avRe.submatch trimmed then .violation (trimSpace (m 1)) (m 2) (m 3)
  else if let some m := win32Re.submatch trimmed then
    .exception (trimSpace (m 1)) ("0x" ++ m 2) (m 3)
  else if let some m := failureHeaderRe.submatch trimmed then .failure (m 1) (trimSpace (m 2))
  else if let some m := errorRe.submatch trimmed then .error (m 1) (m 2)
  else if startsWith trimmed "Test Engine Version" then .banner
  else .other trimmed

-- The pointer to a finding whose error is still to come. Once append has moved the findings
-- it points to the slice that is no longer used.
structure Pending where
  place : Nat
  live : Bool
deriving DecidableEq

structure ParseState where
  report : Report
  capacity : Nat
  current : Option Nat
  pending : Option Pending
  lastMethod : String

variable (rt : Runtime)

-- append(report.Findings, f)
def ParseState.addFinding (s : ParseState) (f : Finding) : ParseState :=
  let moved := s.report.findings.length = s.capacity
  { s with
    report := { s.report with findings := s.report.findings ++ [f] }
    capacity := if moved then rt.grow s.capacity else s.capacity
    pending := if moved then s.pending.map ({ · with live := false }) else s.pending }

def ParseState.object? (s : ParseState) : Option Object := s.current.bind (s.report.objects[·]?)

def inlineFinding (current : Option Object) (f : Finding) : Finding :=
  match current with
  | some o => { f with clsid := o.clsid, className := o.description }
  | none => f

-- The error completes a header that waits for it, or belongs to the current object.
def ParseState.addError (s : ParseState) (message code : String) : ParseState :=
  match s.pending with
  | some p =>
    let findings := if p.live then
        s.report.findings.modify p.place ({ · with errorMessage := message, errorCode := code })
      else s.report.findings
    { s with report := { s.report with findings := findings }, pending := none }
  | none => s.addFinding rt (inlineFinding s.object? { errorMessage := message, errorCode := code })

def ParseState.addMetadata (s : ParseState) (text : String) : ParseState :=
  match s.current, metadataRe.submatch text with
  | some place, some m =>
    let set (o : Object) : Object :=
      { o with metadata := o.metadata.set (normalizeKey rt.lower (m 1)) (trimSpace (m 2)) }
    { s with report := { s.report with objects := s.report.objects.modify place set } }
  | _, _ => s

def ParseState.step (s : ParseState) : Line → ParseState
  | .skipped => s
  | .counter label value =>
    { s with report := { s.report with summary := s.report.summary.applyCounter rt.lower label value } }
  | .object clsid description =>
    { s with
      report := { s.report with objects := s.report.objects ++ [⟨"", clsid, description, .empty⟩] }
      current := some s.report.objects.length
      pending := none
      lastMethod := "" }
  | .method signature => { s with lastMethod := signature }
  | .violation message address access =>
    s.addFinding rt (inlineFinding s.object?
      { method := s.lastMethod, errorMessage := message, address := address, accessType := access })
  | .exception message code address =>
    s.addFinding rt (inlineFinding s.object?
      { method := s.lastMethod, errorMessage := message, errorCode := code, address := address })
  | .failure clsid className =>
    { s.addFinding rt { clsid := clsid, className := className } with
      pending := some ⟨s.report.findings.length, true⟩ }
  | .error message code => s.addError rt message code
  | .banner => { s with current := none }
  | .other text => s.addMetadata rt text

def parseStart (raw : String) : ParseState :=
  { report :=
      { tool := ⟨toolName, ((versionRe.submatch raw).map (· 1)).getD ""⟩
        objects := []
        findings := []
        summary := {}
        raw := raw }
    capacity := 0
    current := none
    pending := none
    lastMethod := "" }

def parse (data : List UInt8) : Report :=
  let raw := String.ofList (validRunes data.length data)
  let lines := splitString "\n" (replaceAll "\r\n" "\n" raw)
  (lines.foldl (fun s line => s.step rt (classify line)) (parseStart raw)).report

def Report.looksLikeDranzer (r : Report) : Bool :=
  r.tool.version ≠ "" || !r.objects.isEmpty || !r.findings.isEmpty || r.summary.counters.size ≠ 0

end Chainloop.Archives.Dranzer
