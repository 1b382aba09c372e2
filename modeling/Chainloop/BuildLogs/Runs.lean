import Chainloop.BuildLogs.Text

namespace Chainloop.BuildLogs

open Go Text List

def isResult (line : String) : Bool :=
  match lineKind line with
  | .finished _ => true
  | _ => false

def isCount (line : String) : Bool :=
  (msbuildWarningsRe.submatch line).isSome || (msbuildErrorsRe.submatch line).isSome

-- A banner begins a run, and so does a start line behind a result line.
def beginsRun (finished : Bool) (line : String) : Bool :=
  match lineKind line with
  | .banner _ => true
  | .started => finished
  | _ => false

-- The error count behind a result line closes a run.
def closesRun (finished : Bool) (line : String) : Bool :=
  finished && lineKind line = .other && (msbuildWarningsRe.submatch line).isNone &&
    (msbuildErrorsRe.submatch line).isSome

def splitRuns (finished : Bool) (run : List String) : List String → List (List String)
  | [] => [run]
  | line :: rest =>
    if beginsRun finished line then run :: splitRuns false [line] rest
    else if closesRun finished line then (run ++ [line]) :: splitRuns false [] rest
    else splitRuns (finished || isResult line) (run ++ [line]) rest

def runsOf (lines : List String) : List (List String) := splitRuns false [] (lines.map ciLine)

def Run.take (r : Run) (line : String) : Run :=
  match lineKind line with
  | .banner version => { r with version := version, opened := true }
  | .started => { r with opened := true }
  | .finished result => { r with inSummary := true, result := result }
  | .other => (r.other line).1

def runOf (run : List String) : Run := run.foldl Run.take {}

def runLog (run : List String) : Option ParsedLog :=
  if (runOf run).build then some (runOf run).log else none

-- The result and the flag of the summary are set together.
def Run.Flagged (r : Run) : Prop := r.inSummary = true ↔ r.result ≠ .unstated

def otherDiagnostic (line : String) : Option Diagnostic :=
  if lineKind line = .other then parseDiagnosticLine line else none

theorem noteProject_eq (r : Run) (line : String) :
    ∃ solution, r.noteProject line = { r with solution := solution } := by
  unfold Run.noteProject
  split_ifs
  · exact ⟨_, rfl⟩
  · exact ⟨r.solution, rfl⟩

theorem other_closes (r : Run) (line : String) :
    (r.other line).2 = (r.inSummary && (msbuildWarningsRe.submatch line).isNone &&
      (msbuildErrorsRe.submatch line).isSome) := by
  obtain ⟨solution, hproject⟩ := noteProject_eq r line
  rw [Run.other, hproject]
  cases r.inSummary with
  | false => rfl
  | true =>
    cases msbuildWarningsRe.submatch line with
    | some m => rfl
    | none => cases msbuildErrorsRe.submatch line <;> rfl

theorem scan_line_eq {r : Run} (hr : r.Flagged) (line : String) : Scan.line ⟨logs, r⟩ line =
      if beginsRun r.inSummary line then ⟨(Scan.mk logs r).next.logs, Run.take {} line⟩
      else if closesRun r.inSummary line then (Scan.mk logs (r.take line)).next
      else ⟨logs, r.take line⟩ := by
  unfold Scan.line beginsRun closesRun Run.take
  cases hkind : lineKind line with
  | banner version => rfl
  | started =>
    cases hfinished : r.inSummary with
    | true => simp [Scan.next]
    | false =>
      have hresult : r.result = .unstated := by
        by_contra hne
        simpa [hfinished] using hr.mpr hne
      simp [hresult, hfinished]
  | finished result => simp
  | other =>
    unfold Scan.other
    rw [other_closes]
    simp

theorem isResult_iff : isResult line = true ↔ ∃ result, lineKind line = .finished result := by
  unfold isResult
  cases lineKind line <;> simp

theorem result_of_finished (h : lineKind line = .finished result) : result ≠ .unstated := by
  rintro rfl
  unfold lineKind at h
  split at h
  · cases h
  · split_ifs at h <;> cases h

-- What one line does to the run, its counts and names aside.
structure Run.Takes (r : Run) (line : String) (after : Run) : Prop where
  inSummary : after.inSummary = (r.inSummary || isResult line)
  flagged : r.Flagged → after.Flagged
  inline : after.inline = r.inline ++ if r.inSummary then [] else (otherDiagnostic line).toList
  summary : after.summary = r.summary ++
    if r.inSummary && !isCount line then (otherDiagnostic line).toList else []

theorem Run.takes_other (r : Run) (hkind : lineKind line = .other) :
    r.Takes line (r.other line).1 := by
  obtain ⟨solution, hproject⟩ := noteProject_eq r line
  have hother : otherDiagnostic line = parseDiagnosticLine line := if_pos hkind
  rw [Run.other, hproject, Run.noteDiagnostic]
  cases hin : r.inSummary with
  | false =>
    cases hparse : parseDiagnosticLine line <;> constructor <;>
      simp_all [Run.add, isResult, Run.Flagged]
  | true =>
    cases hwarnings : msbuildWarningsRe.submatch line with
    | some m => constructor <;> simp_all [isCount, isResult, Run.Flagged]
    | none =>
      cases herrors : msbuildErrorsRe.submatch line with
      | some m => constructor <;> simp_all [isCount, isResult, Run.Flagged]
      | none =>
        cases hparse : parseDiagnosticLine line <;> constructor <;>
          simp_all [Run.add, isCount, isResult, Run.Flagged]

theorem Run.takes (r : Run) (line : String) : r.Takes line (r.take line) := by
  unfold Run.take
  cases hkind : lineKind line with
  | banner version => constructor <;> simp [isResult, otherDiagnostic, hkind, Run.Flagged]
  | started => constructor <;> simp [isResult, otherDiagnostic, hkind, Run.Flagged]
  | finished result =>
    constructor <;>
      simp [isResult, otherDiagnostic, hkind, Run.Flagged, result_of_finished hkind]
  | other => exact r.takes_other hkind

theorem runOf_append (run : List String) (line : String) :
    runOf (run ++ [line]) = (runOf run).take line := by
  simp [runOf]

theorem flagged_runOf (run : List String) : (runOf run).Flagged := by
  suffices h : ∀ r : Run, r.Flagged → (run.foldl Run.take r).Flagged from
    h {} (by simp [Run.Flagged])
  induction run with
  | nil => exact fun r hr => hr
  | cons line rest ih => exact fun r hr => ih _ ((r.takes line).flagged hr)

theorem next_logs (logs : List ParsedLog) (run : List String) :
    (Scan.mk logs (runOf run)).next = ⟨logs ++ (runLog run).toList, {}⟩ := by
  unfold Scan.next runLog
  split_ifs <;> simp

theorem not_result_of_beginsRun (h : beginsRun finished line = true) : isResult line = false := by
  unfold beginsRun at h
  unfold isResult
  cases hkind : lineKind line with
  | finished result => simp [hkind] at h
  | _ => rfl

-- The scanner's state in front of `rest` is the run collected so far.
theorem scan_splitRuns (rest run : List String) (logs : List ParsedLog) :
    (rest.foldl Scan.line ⟨logs, runOf run⟩).next.logs =
      logs ++ (splitRuns (runOf run).inSummary run rest).filterMap runLog := by
  induction rest generalizing logs run with
  | nil =>
    rw [foldl_nil, next_logs, splitRuns]
    cases hlog : runLog run <;> simp [hlog]
  | cons line rest ih =>
    rw [foldl_cons, scan_line_eq (flagged_runOf run), splitRuns]
    by_cases hbegins : beginsRun (runOf run).inSummary line = true
    · have hfirst : (runOf [line]).inSummary = false := by
        simpa [runOf, (Run.takes {} line).inSummary] using not_result_of_beginsRun hbegins
      have hrest := ih [line] (logs ++ (runLog run).toList)
      rw [hfirst] at hrest
      rw [if_pos hbegins, if_pos hbegins, next_logs]
      refine hrest.trans ?_
      cases hlog : runLog run <;> simp [hlog]
    · rw [if_neg hbegins, if_neg hbegins, ← runOf_append]
      by_cases hcloses : closesRun (runOf run).inSummary line = true
      · have hrest := ih [] (logs ++ (runLog (run ++ [line])).toList)
        rw [if_pos hcloses, if_pos hcloses, next_logs]
        refine hrest.trans ?_
        cases hlog : runLog (run ++ [line]) <;> simp [hlog, runOf]
      · rw [if_neg hcloses, if_neg hcloses, ih, runOf_append, (Run.takes _ line).inSummary]

theorem scanMSBuild_eq (lines : List String) :
    scanMSBuild lines = (runsOf lines).filterMap runLog :=
  scan_splitRuns (lines.map ciLine) [] []

theorem flatten_splitRuns (finished : Bool) (run rest : List String) :
    (splitRuns finished run rest).flatten = run ++ rest := by
  induction rest generalizing finished run with
  | nil => simp [splitRuns]
  | cons line rest ih =>
    rw [splitRuns]
    split_ifs <;> simp [ih]

theorem flatten_runsOf (lines : List String) : (runsOf lines).flatten = lines.map ciLine :=
  flatten_splitRuns false [] (lines.map ciLine)

def logged (run : List String) : List Diagnostic :=
  (run.takeWhile (!isResult ·)).filterMap otherDiagnostic

def summarized (run : List String) : List Diagnostic :=
  (run.dropWhile (!isResult ·)).filterMap fun line =>
    if isCount line then none else otherDiagnostic line

theorem otherDiagnostic_of_isResult (h : isResult line = true) : otherDiagnostic line = none := by
  obtain ⟨result, hkind⟩ := isResult_iff.mp h
  simp [otherDiagnostic, hkind]

section
variable (run : List String)

theorem inline_foldl (r : Run) : (run.foldl Run.take r).inline =
    r.inline ++ if r.inSummary then [] else logged run := by
  induction run generalizing r with
  | nil => simp [logged]
  | cons line rest ih =>
    rw [foldl_cons, ih, (r.takes line).inline, (r.takes line).inSummary]
    cases hin : r.inSummary with
    | true => simp
    | false =>
      cases hresult : isResult line with
      | true => simp [logged, hresult, otherDiagnostic_of_isResult hresult]
      | false => cases hline : otherDiagnostic line <;> simp [logged, hresult, hline]

-- Behind the result line every other diagnostic is one of the summary.
theorem summary_foldl_finished {r : Run} (hr : r.inSummary = true) :
    (run.foldl Run.take r).summary = r.summary ++ run.filterMap fun line =>
      if isCount line then none else otherDiagnostic line := by
  induction run generalizing r with
  | nil => simp
  | cons line rest ih =>
    rw [foldl_cons, ih (by simp [(r.takes line).inSummary, hr]), (r.takes line).summary, hr]
    cases hcount : isCount line with
    | true => simp [hcount]
    | false => cases hline : otherDiagnostic line <;> simp [hcount, hline]

theorem summary_foldl {r : Run} (hr : r.inSummary = false) :
    (run.foldl Run.take r).summary = r.summary ++ summarized run := by
  induction run generalizing r with
  | nil => simp [summarized]
  | cons line rest ih =>
    have hsame : (r.take line).summary = r.summary := by simp [(r.takes line).summary, hr]
    cases hresult : isResult line with
    | true =>
      rw [foldl_cons, summary_foldl_finished rest (by simp [(r.takes line).inSummary, hresult]), hsame]
      simp [summarized, hresult, otherDiagnostic_of_isResult hresult]
    | false =>
      rw [foldl_cons, ih (by simp [(r.takes line).inSummary, hr, hresult]), hsame]
      simp [summarized, hresult]

theorem inline_runOf : (runOf run).inline = logged run :=
  inline_foldl run {}

theorem summary_runOf : (runOf run).summary = summarized run :=
  summary_foldl run rfl

end

theorem mem_runLog : (∃ log, runLog run = some log ∧ d ∈ log.diagnostics) ↔
      d ∈ logged run ∨ (logged run = [] ∧ d ∈ summarized run) := by
  have hkept : (runOf run).log.diagnostics =
      if logged run = [] then summarized run else logged run := by
    simp [Run.log, inline_runOf, summary_runOf]
  have hbuild : d ∈ (runOf run).log.diagnostics → (runOf run).build = true := by
    rw [hkept]
    intro hd
    unfold Run.build
    rw [inline_runOf, summary_runOf]
    split_ifs at hd with hnone <;> simp [length_pos_of_mem hd]
  have hmem : d ∈ (runOf run).log.diagnostics ↔
      d ∈ logged run ∨ (logged run = [] ∧ d ∈ summarized run) := by
    rw [hkept]
    by_cases hnone : logged run = [] <;> simp [hnone]
  rw [← hmem]
  unfold runLog
  constructor
  · rintro ⟨log, hlog, hd⟩
    split_ifs at hlog
    cases hlog
    exact hd
  · intro hd
    exact ⟨_, if_pos (hbuild hd), hd⟩

theorem parsed_of_otherDiagnostic (h : otherDiagnostic line = some d) :
    parseDiagnosticLine line = some d := by
  unfold otherDiagnostic at h
  split_ifs at h
  exact h

theorem parsed_of_mem_logged (h : d ∈ logged run) :
    ∃ line ∈ run, parseDiagnosticLine line = some d := by
  obtain ⟨line, hline, hd⟩ := mem_filterMap.mp h
  exact ⟨line, (takeWhile_subset _ hline), parsed_of_otherDiagnostic hd⟩

theorem parsed_of_mem_summarized (h : d ∈ summarized run) :
    ∃ line ∈ run, parseDiagnosticLine line = some d := by
  obtain ⟨line, hline, hd⟩ := mem_filterMap.mp h
  split_ifs at hd
  exact ⟨line, (dropWhile_suffix _).subset hline, parsed_of_otherDiagnostic hd⟩

structure KeepsDiagnostics (lines : List String) : Prop where
  same : ∀ d, (∃ log ∈ scanMSBuild lines, d ∈ log.diagnostics) ↔
    ∃ line ∈ lines, parseDiagnosticLine (ciLine line) = some d
  perRun : ∀ run ∈ runsOf lines, ∀ line ∈ run, ∀ d, parseDiagnosticLine line = some d →
    ∃ log, runLog run = some log ∧ d ∈ log.diagnostics

-- Every diagnostic of the run was logged while building, or none was and the summary has it.
def SummaryRepeats (run : List String) : Prop :=
  ∀ line ∈ run, ∀ d, parseDiagnosticLine line = some d →
    d ∈ logged run ∨ (logged run = [] ∧ d ∈ summarized run)

theorem same_of_summaryRepeats (h : ∀ run ∈ runsOf lines, SummaryRepeats run) (d : Diagnostic) :
    (∃ log ∈ scanMSBuild lines, d ∈ log.diagnostics) ↔
      ∃ line ∈ lines, parseDiagnosticLine (ciLine line) = some d := by
  have hlines (line) : (∃ run ∈ runsOf lines, line ∈ run) ↔ ∃ l ∈ lines, ciLine l = line := by
    rw [← mem_flatten, flatten_runsOf, mem_map]
  rw [scanMSBuild_eq]
  constructor
  · rintro ⟨log, hlog, hd⟩
    obtain ⟨run, hrun, hlog⟩ := mem_filterMap.mp hlog
    have hline : ∃ line ∈ run, parseDiagnosticLine line = some d := by
      obtain hd | ⟨-, hd⟩ := mem_runLog.mp ⟨log, hlog, hd⟩
      · exact parsed_of_mem_logged hd
      · exact parsed_of_mem_summarized hd
    obtain ⟨line, hmem, hparse⟩ := hline
    obtain ⟨l, hl, rfl⟩ := (hlines line).mp ⟨run, hrun, hmem⟩
    exact ⟨l, hl, hparse⟩
  · rintro ⟨line, hline, hparse⟩
    obtain ⟨run, hrun, hmem⟩ := (hlines (ciLine line)).mpr ⟨line, hline, rfl⟩
    obtain ⟨log, hlog, hd⟩ := mem_runLog.mpr (h run hrun _ hmem d hparse)
    exact ⟨log, mem_filterMap.mpr ⟨run, hrun, hlog⟩, hd⟩

theorem keepsDiagnostics_iff (lines : List String) :
    scanMSBuild lines = (runsOf lines).filterMap runLog ∧
      (KeepsDiagnostics lines ↔ ∀ run ∈ runsOf lines, SummaryRepeats run) := by
  refine ⟨scanMSBuild_eq lines, ?_, ?_⟩
  · intro h run hrun line hline d hparse
    exact mem_runLog.mp (h.perRun run hrun line hline d hparse)
  · intro h
    exact ⟨same_of_summaryRepeats h,
      fun run hrun line hline d hparse => mem_runLog.mpr (h run hrun line hline d hparse)⟩

def resultInTheMiddle : List String :=
  ["a.c(1): warning C4: x", "Build succeeded.", "b.c(2): error C2: y"]

theorem error_after_result_lost :
    (∃ log ∈ scanMSBuild resultInTheMiddle, log.diagnostics.length = 1) ∧
      ¬ KeepsDiagnostics resultInTheMiddle := by
  have hlost : (∃ log ∈ scanMSBuild resultInTheMiddle, log.diagnostics.length = 1) ∧
      (parseDiagnosticLine (ciLine "b.c(2): error C2: y")).any fun d =>
        decide (∀ log ∈ scanMSBuild resultInTheMiddle, d ∉ log.diagnostics) := by
    decide +kernel
  refine ⟨hlost.1, fun h => ?_⟩
  obtain ⟨d, hd, hnot⟩ := Option.any_eq_true _ _ |>.mp hlost.2
  obtain ⟨log, hlog, hmem⟩ := (h.same d).mpr ⟨_, by simp [resultInTheMiddle], hd⟩
  exact of_decide_eq_true hnot log hlog hmem

end Chainloop.BuildLogs
