import Chainloop.Go.Map
import Chainloop.Lists.FoldByKey
import Mathlib.Data.List.Sort
import Mathlib.Data.String.Basic

namespace Chainloop.BuildLogs

open Go Chainloop.Lists

inductive Severity where
  | error
  | warning
deriving DecidableEq

inductive Format where
  | msbuildBinlog
  | msbuildText
  | vcbuildHTML
deriving DecidableEq

inductive Result where
  | unstated
  | succeeded
  | failed
deriving DecidableEq

structure Tool where
  name : String
  version : String
deriving DecidableEq

-- The parsers leave the occurrences 0 and the logs empty. fold counts them, at most one for each
-- line or record of the logs, so that an int holds the number.
structure Diagnostic where
  severity : Severity
  code : String
  message : String
  file : String
  line : Int
  column : Int
  project : String
  occurrences : Int
  logs : List Nat
deriving DecidableEq

structure Summary where
  warnings : Nat
  errors : Nat
  byCode : Map String Nat

structure Counts where
  warnings : Int
  errors : Int
deriving DecidableEq

structure Log where
  source : String
  solution : String
  format : Format
  tool : Tool
  result : Result
  summary : Summary
  parsed : Counts
  reported : Option Counts

structure Report where
  tool : Tool
  logs : List Log
  skipped : List String
  summary : Summary
  diagnostics : List Diagnostic

structure ParsedLog where
  source : String
  solution : String
  result : Result
  format : Format
  tool : Tool
  diagnostics : List Diagnostic
  reported : Option Counts
deriving DecidableEq

structure DiagnosticKey where
  severity : Severity
  code : String
  message : String
  file : String
  project : String
  line : Int
  column : Int
deriving DecidableEq

def compact : List Nat → List Nat
  | [] => []
  | [i] => [i]
  | i :: j :: rest => if i = j then compact (j :: rest) else i :: compact (j :: rest)

def mergeIndexes (a b : List Nat) : List Nat := compact ((a ++ b).insertionSort (· ≤ ·))

def Severity.text : Severity → String
  | .error => "error"
  | .warning => "warning"

-- The order of a report. Entries with different keys never compare equal.
def Diagnostic.before (a b : Diagnostic) : Bool :=
  if a.code ≠ b.code then a.code < b.code
  else if a.file ≠ b.file then a.file < b.file
  else if a.line ≠ b.line then a.line < b.line
  else if a.column ≠ b.column then a.column < b.column
  else if a.project ≠ b.project then a.project < b.project
  else if a.severity ≠ b.severity then a.severity.text < b.severity.text
  else a.message < b.message

def sortDiagnostics (diagnostics : List Diagnostic) : List Diagnostic :=
  diagnostics.insertionSort fun a b => ¬ b.before a

def isError (d : Diagnostic) : Bool := d.severity = .error

def occurrencesOf (d : Diagnostic) : Int := max d.occurrences 1

def occurrences (diagnostics : List Diagnostic) : Counts :=
  diagnostics.foldl (fun c d =>
    if isError d then { c with errors := c.errors + occurrencesOf d }
    else { c with warnings := c.warnings + occurrencesOf d }) ⟨0, 0⟩

def summarize (diagnostics : List Diagnostic) : Summary :=
  diagnostics.foldl (fun s d =>
    let s := if isError d then { s with errors := s.errors + 1 } else { s with warnings := s.warnings + 1 }
    if d.code = "" then s
    else { s with byCode := s.byCode.set d.code (s.byCode.getD d.code 0 + 1) }) ⟨0, 0, .empty⟩

section Fold

variable (lower : String → String)

def keyOf (d : Diagnostic) : DiagnosticKey :=
  ⟨d.severity, d.code, d.message, lower d.file, lower d.project, d.line, d.column⟩

def mergeRepeat (e d : Diagnostic) : Diagnostic :=
  { e with
    occurrences := e.occurrences + occurrencesOf d
    logs := mergeIndexes e.logs d.logs }

def firstSeen (d : Diagnostic) : Diagnostic := { d with occurrences := occurrencesOf d }

def fold (diagnostics : List Diagnostic) : List Diagnostic :=
  sortDiagnostics (foldByKey (keyOf lower) mergeRepeat firstSeen diagnostics)

def foldLog (place : Nat) (l : ParsedLog) : List Diagnostic :=
  (fold lower l.diagnostics).map ({ · with logs := [place] })

def logOf (l : ParsedLog) : Log where
  source := l.source
  solution := l.solution
  format := l.format
  tool := l.tool
  result := l.result
  summary := summarize (fold lower l.diagnostics)
  parsed := occurrences l.diagnostics
  reported := l.reported

def newReport (logs : List ParsedLog) : Report :=
  let all := logs.mapIdx fun place l => foldLog lower place l
  let diagnostics := fold lower all.flatten
  { tool := logs.foldl (fun tool l => if tool.name = "" then l.tool else tool) ⟨"", ""⟩
    logs := logs.map (logOf lower)
    skipped := []
    summary := summarize diagnostics
    diagnostics := diagnostics }

end Fold

end Chainloop.BuildLogs
