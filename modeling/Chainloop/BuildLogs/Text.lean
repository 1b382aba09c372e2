import Chainloop.BuildLogs.Report
import Chainloop.Go.Stream
import Chainloop.Go.Strings
import Chainloop.Text.Regex

namespace Chainloop.BuildLogs

open Go Text

section Regexes

open Regex

-- The canonical format: origin(location) : [subcategory] category code : text [project]
def diagnosticRe : Regex :=
  concat [start, many blank,
    opt (concat [some1 digit, opt (concat [one ':', some1 digit]), one '>']),
    group 1 (manyLazy any),
    opt (concat [one '(', group 2 (some1 digit),
      opt (concat [group 3 (char fun c => c = ',' || c = '-'), group 4 (some1 digit)]),
      many (concat [char fun c => c = ',' || c = '-', some1 digit]), one ')']),
    many blank, one ':', many blank,
    opt (concat [manyLazy (char (· ≠ ':')), blank]),
    group 5 (oneOf [lit "fatal error", lit "error", lit "warning"]),
    opt (concat [some1 blank, group 6 (concat [some1 (char isLetter), some1 digit])]),
    many blank, one ':', many blank,
    group 7 (manyLazy any),
    opt (concat [some1 blank, one '[',
      group 8 (concat [char fun c => c ≠ ']' && c ≠ '-', many (char (· ≠ ']'))]), one ']']),
    many blank, stop]

def msbuildBannerRe : Regex :=
  concat [start, oneOf [concat [lit "MSBuild ", litFold "version"],
     concat [lit "Microsoft (R) Build Engine ", litFold "version"],
     concat [many any, lit "MSBuild 版本"]],
    one ' ', group 1 (concat [digit, many (char fun c => !isBlank c)])]

def msbuildStartRe : Regex :=
  alt (concat [start, oneOf [concat [lit "Build started", wordBoundary], lit "生成启动时间为",
       lit "已經開始建置於",
       lit "빌드 시작:",
       concat [lit "Der Buildvorgang wurde am ", many any, lit " gestartet."],
       lit "La génération a démarré",
       lit "Сборка начата"]])
    (concat [lit "にビルドを開始しました。", many blank, stop])

def msbuildSucceededRe : Regex :=
  concat [start, oneOf [lit "Build succeeded.", lit "已成功生成。", lit "生成成功。", lit "建置成功。",
     lit "ビルドに成功しました。",
     lit "빌드했습니다.",
     lit "Der Buildvorgang wurde erfolgreich ausgeführt.",
     lit "Build erfolgreich.",
     lit "La génération a réussi.",
     lit "Сборка успешно завершена."], many blank, stop]

def msbuildFailedRe : Regex :=
  concat [start, oneOf [lit "Build FAILED.", lit "生成失败。", lit "建置失敗。", lit "ビルドに失敗しました。",
     lit "빌드하지 못했습니다.",
     lit "Fehler beim Buildvorgang.",
     lit "ÉCHEC de la build.",
     lit "Ошибка сборки."], many blank, stop]

def quoted : Regex := some1 (char (· ≠ '"'))

def msbuildProjectRe : Regex :=
  oneOf [concat [wordBoundary, lit "Project \"", group 1 quoted, lit "\" on node ", some1 digit],
     concat [lit "项目“", group 2 (some1 (char (· ≠ '”'))), lit "”在节点 ", some1 digit, lit " 上"],
     concat [lit "節點 ", some1 digit, lit " ", manyLazy any, lit "上的專案 \"", group 3 quoted, lit "\""],
     concat [lit "ノード ", some1 digit, lit " 上のプロジェクト \"", group 4 quoted, lit "\""],
     concat [some1 digit, lit " 노드의 \"", group 5 quoted, lit "\" 프로젝트"],
     concat [lit "Projekt \"", group 6 quoted, lit "\" auf Knoten"],
     concat [lit "Projet \"", group 7 quoted, lit "\" sur le nœud"],
     concat [lit "Проект \"", group 8 quoted, lit "\" в узле"]]

def msbuildWarningsRe : Regex :=
  concat [start, many blank, oneOf [concat [group 1 (some1 digit), one ' ', oneOf [lit "Warning(s)",
        lit "个警告",
        lit "個警告",
        lit "個の警告",
        lit "Warnung(en)",
        lit "Avertissement(s)"]],
     concat [lit "경고 ", group 2 (some1 digit), lit "개"],
     concat [lit "Предупреждений: ", group 3 (some1 digit)]], many blank, stop]

def msbuildErrorsRe : Regex :=
  concat [start, many blank, oneOf [concat [group 1 (some1 digit), one ' ', oneOf [lit "Error(s)",
        lit "个错误",
        lit "個錯誤",
        lit "エラー",
        lit "Fehler",
        lit "Erreur(s)"]],
     concat [lit "오류 ", group 2 (some1 digit), lit "개"],
     concat [lit "Ошибок: ", group 3 (some1 digit)]], many blank, stop]

def digits (n : Nat) : Regex := concat (List.replicate n digit)

def ciPrefixRe : Regex :=
  concat [start, alt
    (concat [digits 4, one '-', digits 2, one '-', digits 2, one 'T', digits 2, one ':', digits 2,
      one ':', digits 2, opt (concat [one '.', some1 digit]), lit "Z "])
    (concat [one '[', digits 2, one ':', digits 2, one ':', digits 2, lit "] "])]

end Regexes

-- strconv.Atoi of digits, or of no text. A number that does not fit is the largest one.
def atoi (s : String) : Int := (((parseDigits s.toList).getD 0).min (2 ^ 63 - 1) : Nat)

def addInt (a b : Int) : Int := (a + b).bmod (2 ^ 64)

def parseDiagnosticLine (line : String) : Option Diagnostic :=
  (diagnosticRe.submatch line).map fun m =>
    { severity := if m 5 = "warning" then .warning else .error
      code := m 6
      message := m 7
      file := trimSpace (m 1)
      line := atoi (m 2)
      column := if m 3 = "," then atoi (m 4) else 0
      project := m 8
      occurrences := 0
      logs := [] }

structure Run where
  version : String := ""
  solution : String := ""
  result : Result := .unstated
  inline : List Diagnostic := []
  summary : List Diagnostic := []
  opened : Bool := false
  inSummary : Bool := false
  reported : Option Counts := none

def toolMSBuild : String := "msbuild"

namespace Run

-- A result line alone does not show a build.
def build (r : Run) : Bool :=
  r.opened || r.reported.isSome || decide (0 < r.inline.length + r.summary.length)

def count (r : Run) : Counts := r.reported.getD ⟨0, 0⟩

-- The diagnostics logged while building, or those of the summary if there are no others.
def log (r : Run) : ParsedLog where
  source := ""
  solution := r.solution
  result := r.result
  format := .msbuildText
  tool := ⟨toolMSBuild, r.version⟩
  diagnostics := if r.inline.length = 0 then r.summary else r.inline
  reported := r.reported

def add (r : Run) (d : Diagnostic) : Run :=
  if r.inSummary then { r with summary := r.summary ++ [d] } else { r with inline := r.inline ++ [d] }

end Run

def firstMatch (m : Nat → String) (groups : Nat) : String :=
  (((List.range groups).map fun i => m (i + 1)).find? (· ≠ "")).getD ""

structure Scan where
  logs : List ParsedLog
  cur : Run

-- The lines that say where a run begins and how it ended.
inductive LineKind where
  | banner (version : String)
  | started
  | finished (result : Result)
  | other
deriving DecidableEq

def lineKind (line : String) : LineKind :=
  if let some m := msbuildBannerRe.submatch line then .banner (m 1)
  else if msbuildStartRe.isMatch line then .started
  else if msbuildSucceededRe.isMatch line then .finished .succeeded
  else if msbuildFailedRe.isMatch line then .finished .failed
  else .other

def Scan.next (s : Scan) : Scan :=
  ⟨if s.cur.build then s.logs ++ [s.cur.log] else s.logs, {}⟩

-- The first project of a run is the one that it was started for.
def Run.noteProject (r : Run) (line : String) : Run :=
  if r.solution = "" then
    { r with solution := ((msbuildProjectRe.submatch line).map (firstMatch · 8)).getD "" }
  else r

def Run.noteDiagnostic (r : Run) (line : String) : Run :=
  match parseDiagnosticLine line with
  | some d => r.add d
  | none => r

-- Another line, and whether it closes the run: the error count ends a summary.
def Run.other (r : Run) (line : String) : Run × Bool :=
  let r := r.noteProject line
  if r.inSummary then
    if let some m := msbuildWarningsRe.submatch line then
      ({ r with reported := some { r.count with
          warnings := addInt r.count.warnings (atoi (firstMatch m 3)) } }, false)
    else if let some m := msbuildErrorsRe.submatch line then
      ({ r with reported := some { r.count with
          errors := addInt r.count.errors (atoi (firstMatch m 3)) } }, true)
    else (r.noteDiagnostic line, false)
  else (r.noteDiagnostic line, false)

def Scan.other (s : Scan) (line : String) : Scan :=
  let after : Scan := { s with cur := (s.cur.other line).1 }
  if (s.cur.other line).2 then after.next else after

def ciLine (text : String) : String := ciPrefixRe.removeAll (trimRight (· = '\r') text)

def Scan.line (s : Scan) (line : String) : Scan :=
  match lineKind line with
  | .banner version => { s.next with cur := { version := version, opened := true } }
  | .started =>
    -- MSBuild reports some errors before it starts building.
    let s := if s.cur.inSummary || s.cur.result ≠ .unstated then s.next else s
    { s with cur := { s.cur with opened := true } }
  | .finished result => { s with cur := { s.cur with inSummary := true, result := result } }
  | .other => s.other line

def scanMSBuild (lines : List String) : List ParsedLog :=
  ((lines.map ciLine).foldl Scan.line ⟨[], {}⟩).next.logs

end Chainloop.BuildLogs
