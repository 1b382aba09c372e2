import Chainloop.Archives.DranzerReport
import Chainloop.Archives.Stored
import Chainloop.Go.Sort
import Mathlib.Data.List.MinMax
import Mathlib.Data.List.DropRight

namespace Chainloop.Archives.Dranzer

open Go List

def errNoReports : GoError := ⟨"no dranzer report found", [.noReports]⟩

def bundleLimits : Limits := ⟨256, 16 * 2 ^ 20⟩

structure Entry where
  source : String
  tool : Tool
  summary : Summary

structure Bundle where
  report : Report
  reports : List Entry

structure Inspection where
  reports : Nat
  version : String
deriving DecidableEq

variable (rt : Runtime) (std : Std)

def parseReportEntry (r : Stream) : Except GoError (Option Report) := do
  let content ← wrapErr "reading entry" r.readAll
  let report := parse rt content
  return if report.looksLikeDranzer then some report else none

abbrev Inspecting := Inspection × String

-- The version of the least name so far, where no name yet is the empty text.
def noteVersion (from_ : String × String) (report : String × String) : String × String :=
  if report.2 ≠ "" ∧ (from_.1 = "" ∨ report.1 < from_.1) then report else from_

def inspectEntry : Visit Inspecting := fun s name body => do
  match ← parseReportEntry rt body with
  | none => return (s, body.bytes.length)
  | some report =>
    let noted := noteVersion (s.2, s.1.version) (name, report.tool.version)
    return ((⟨s.1.reports + 1, noted.2⟩, noted.1), body.bytes.length)

def inspect (content : List UInt8) : Except GoError Inspection :=
  let format := detectFile content
  if format = .none then
    if (parse rt content).looksLikeDranzer then .ok ⟨1, (parse rt content).tool.version⟩
    else .error errNoReports
  else do
    let s ← wrapErr "reading dranzer archive"
      (walk bundleLimits (inspectEntry rt) std content format (⟨0, ""⟩, ""))
    if s.1.reports = 0 then .error errNoReports else .ok s.1

def collectEntry : Visit (List Report) := fun reports name body => do
  match ← parseReportEntry rt body with
  | none => return (reports, body.bytes.length)
  | some report => return (reports ++ [{ report with source := name }], body.bytes.length)

def parseArchiveReports (data : List UInt8) (format : Format) : Except GoError (List Report) :=
  wrapErr "reading dranzer archive" (walk bundleLimits (collectEntry rt) std data format [])

def Summary.add (s other : Summary) : Summary :=
  other.counters.entries.foldl (fun s kv =>
    let value := toInt (s.counters.getD kv.1 0 + kv.2)
    { s with counters := s.counters.set kv.1 value }.setWellKnown kv.1 value) s

def rawOf (r : Report) : String :=
  if r.source = "" then r.raw
  else "===== " ++ r.source ++ " =====\n" ++
    (if r.raw.toList.getLast? = some '\n' then String.ofList r.raw.toList.dropLast else r.raw) ++ "\n"

def addReport (b : Bundle) (r : Report) : Bundle :=
  { report :=
      { b.report with
        tool := { b.report.tool with
          version := if b.report.tool.version = "" then r.tool.version else b.report.tool.version }
        objects := b.report.objects ++ r.objects.map ({ · with source := r.source })
        findings := b.report.findings ++ r.findings.map ({ · with source := r.source })
        summary := b.report.summary.add r.summary
        raw := b.report.raw ++ rawOf r }
    reports := b.reports ++ [⟨r.source, r.tool, r.summary⟩] }

def newBundle (reports : List Report) : Bundle :=
  reports.foldl addReport ⟨⟨"", ⟨toolName, ""⟩, [], [], {}, ""⟩, []⟩

def parseBundle (sort : SliceSort) (data : List UInt8) : Except GoError Bundle :=
  let format := detectBytes data
  if format = .none then .ok (newBundle [parse rt data])
  else do
    let reports ← parseArchiveReports rt std data format
    if reports.length = 0 then .error errNoReports
    else .ok (newBundle (sort.byKey Report.source reports))

def declared (reports : List Report) : List (String × String) :=
  (reports.map fun r => (r.source, r.tool.version)).filter fun p => p.2 ≠ ""

def reportOf (e : String × Stream) : Option Report :=
  let report := parse rt e.2.bytes
  if report.looksLikeDranzer then some { report with source := e.1 } else none

def declaredVersions (content : List UInt8) : List (String × String) :=
  (archiveEntries bundleLimits std content (detectBytes content)).filterMap fun e =>
    let version := (parse rt e.2.bytes).tool.version
    if version = "" then none else some (e.1, version)

def behindEmpty (ds : List (String × String)) : List (String × String) :=
  ds.rtakeWhile fun d => d.1 ≠ ""

-- The declarations behind the last one with an empty name, or that one if it is the last.
def contenders (ds : List (String × String)) : List (String × String) :=
  if behindEmpty ds = [] then ds.getLast?.toList else behindEmpty ds

def Settled (ds : List (String × String)) : Prop :=
  ∀ d ∈ ds, (∀ e ∈ ds, ¬ e.1 < d.1) → ∀ c ∈ (contenders ds).argmin Prod.fst, c.2 = d.2

instance (ds : List (String × String)) : Decidable (Settled ds) := by
  unfold Settled
  infer_instance

theorem noteVersion_of_empty (f : String × String) (hd : d.2 ≠ "") (hempty : f.1 = "" ∨ d.1 = "") :
    noteVersion f d = d := by
  refine if_pos ⟨hd, ?_⟩
  by_cases hf : f.1 = ""
  · exact .inl hf
  · rw [hempty.resolve_left hf]
    exact .inr (String.lt_iff_toList_lt.mpr (by cases hchars : f.1.toList with
      | nil => exact absurd (String.toList_eq_nil_iff.mp hchars) hf
      | cons c cs => exact nil_lt_cons c cs))

variable {ds : List (String × String)}

theorem foldl_noteVersion_of_behind_nil (hds : ∀ d ∈ ds, d.2 ≠ "")
    (h : behindEmpty ds = []) : (ds.foldl noteVersion ("", "")).1 = "" := by
  induction ds using reverseRecOn with
  | nil => rfl
  | append_singleton ds d _ =>
    have hempty : d.1 = "" := by
      by_contra hne
      unfold behindEmpty at h
      rw [rtakeWhile_concat_pos _ _ _ (by simpa using hne)] at h
      simp at h
    rw [foldl_append, foldl_cons, foldl_nil]
    rw [noteVersion_of_empty _ (hds d (by simp)) (.inr hempty), hempty]

theorem argmin_contenders (hds : ∀ d ∈ ds, d.2 ≠ "") (hne : ds ≠ []) :
    (contenders ds).argmin Prod.fst = some (ds.foldl noteVersion ("", "")) := by
  induction ds using reverseRecOn with
  | nil => exact absurd rfl hne
  | append_singleton ds d ih =>
    have hd : d.2 ≠ "" := hds d (by simp)
    have hrest : ∀ e ∈ ds, e.2 ≠ "" := fun e he => hds e (by simp [he])
    rw [foldl_append, foldl_cons]
    by_cases hempty : d.1 = ""
    · have hbehind : behindEmpty (ds ++ [d]) = [] :=
        rtakeWhile_concat_neg _ _ _ (by simpa using hempty)
      rw [noteVersion_of_empty _ hd (.inr hempty), contenders, if_pos hbehind]
      simp
    · have hbehind : behindEmpty (ds ++ [d]) = behindEmpty ds ++ [d] :=
        rtakeWhile_concat_pos _ _ _ (by simpa using hempty)
      rw [contenders, hbehind, if_neg (by simp)]
      by_cases hnil : behindEmpty ds = []
      · rw [noteVersion_of_empty _ hd (.inl (foldl_noteVersion_of_behind_nil hrest hnil)), hnil]
        rfl
      · have hds' : ds ≠ [] := by
          rintro rfl
          exact hnil rfl
        have ih := ih hrest hds'
        rw [contenders, if_neg hnil] at ih
        have hnamed : (ds.foldl noteVersion ("", "")).1 ≠ "" := by
          have hpred := mem_rtakeWhile_imp (argmin_mem ih)
          simpa using hpred
        rw [argmin_concat, ih]
        simp only [noteVersion, hd, hnamed, ne_eq, not_false_eq_true, true_and, false_or]
        split_ifs <;> rfl

theorem foldl_addReport (reports : List Report) (b : Bundle) :
    (reports.foldl addReport b).reports.length = b.reports.length + reports.length ∧
      (reports.foldl addReport b).report.tool.version =
        if b.report.tool.version = "" then ((declared reports).head?.map Prod.snd).getD ""
        else b.report.tool.version := by
  induction reports generalizing b with
  | nil => simp [declared]
  | cons r rest ih =>
    obtain ⟨hlength, hversion⟩ := ih (addReport b r)
    rw [foldl_cons]
    constructor
    · rw [hlength]
      simp only [addReport, length_append, length_cons, length_nil]
      omega
    · rw [hversion]
      by_cases hb : b.report.tool.version = ""
      · by_cases hr : r.tool.version = "" <;> simp [addReport, declared, hb, hr]
      · simp [addReport, hb]

theorem newBundle_spec (reports : List Report) :
    (newBundle reports).reports.length = reports.length ∧ (newBundle reports).report.tool.version =
        ((declared reports).head?.map Prod.snd).getD "" := by
  obtain ⟨hlength, hversion⟩ := foldl_addReport reports ⟨⟨"", ⟨toolName, ""⟩, [], [], {}, ""⟩, []⟩
  exact ⟨hlength.trans (Nat.zero_add _), hversion⟩

theorem declared_ne : ∀ d ∈ declared reports, d.2 ≠ "" := by
  intro d hd
  simpa using (mem_filter.mp hd).2

theorem declared_append (reports reports' : List Report) :
    declared (reports ++ reports') = declared reports ++ declared reports' := by
  simp [declared]

def Inspected (s : Inspecting) (reports : List Report) : Prop :=
  s.1.reports = reports.length ∧ (s.2, s.1.version) = (declared reports).foldl noteVersion ("", "")

theorem inspectEntry_related : Visit.Related Inspected (inspectEntry rt) (collectEntry rt) := by
  rintro ⟨⟨count, version⟩, from_⟩ reports name body ⟨hcount, hversion⟩
  refine (Lockstep.refl (parseReportEntry rt body)).bind fun report _ h => ?_
  subst h
  cases report with
  | none => exact .ok ⟨⟨hcount, hversion⟩, rfl⟩
  | some report =>
    refine .ok ⟨⟨?_, ?_⟩, rfl⟩
    · have hcount : count = reports.length := hcount
      simp [hcount]
    · have hversion : (from_, version) = (declared reports).foldl noteVersion ("", "") := hversion
      rw [declared_append, foldl_append, ← hversion]
      by_cases hempty : report.tool.version = ""
      · simp [declared, hempty, noteVersion]
      · simp [declared, hempty]

theorem parseReportEntry_capped {max : Nat} {body : Stream} {report : Option Report}
    (h : parseReportEntry rt (capped max body) = .ok report) :
    report = if (parse rt body.bytes).looksLikeDranzer then some (parse rt body.bytes) else none := by
  obtain ⟨content, hcontent, hreport⟩ := bind_eq_ok.mp h
  rw [wrapErr_eq_ok] at hcontent
  rw [readAll_capped hcontent]
  exact (Except.ok.inj hreport).symm

theorem collectEntry_keeps :
    (collectEntry rt).Keeps fun done reports => reports = done.filterMap (reportOf rt) := by
  rintro done reports name body max r rfl h
  obtain ⟨report, hreport, h⟩ := bind_eq_ok.mp h
  rw [parseReportEntry_capped rt hreport] at h
  cases hlooks : (parse rt body.bytes).looksLikeDranzer with rw [hlooks] at h
  | true =>
    cases h
    simp [reportOf, hlooks]
  | false =>
    cases h
    simp [reportOf, hlooks]

theorem declared_filterMap (entries : List (String × Stream)) :
    declared (entries.filterMap (reportOf rt)) = entries.filterMap fun e =>
      let version := (parse rt e.2.bytes).tool.version
      if version = "" then none else some (e.1, version) := by
  unfold declared
  rw [map_filterMap, filter_filterMap]
  refine filterMap_congr fun e _ => ?_
  by_cases hversion : (parse rt e.2.bytes).tool.version = ""
  · cases hlooks : (parse rt e.2.bytes).looksLikeDranzer <;> simp [reportOf, hlooks, hversion]
  · simp [reportOf, Report.looksLikeDranzer, hversion]

theorem inspect_archive {i : Inspection} (hformat : detectBytes content ≠ .none)
    (h : inspect rt std content = .ok i) :
    ∃ reports, (∀ sort, parseBundle rt std sort content =
        .ok (newBundle (sort.byKey Report.source reports))) ∧
      i.reports = reports.length ∧ declared reports = declaredVersions rt std content ∧
        i.version = ((declared reports).foldl noteVersion ("", "")).2 := by
  unfold inspect at h
  rw [detectFile_eq, if_neg hformat] at h
  obtain ⟨s, hs, h⟩ := bind_eq_ok.mp h
  rw [wrapErr_eq_ok] at hs
  obtain ⟨hsome, h⟩ := guard_eq_ok.mp h
  cases h
  have hwalks := walk_related bundleLimits (inspectEntry_related rt)
    (show Inspected (⟨0, ""⟩, "") [] from ⟨rfl, rfl⟩) std content (detectBytes content)
  obtain ⟨reports, hreports, hcount, hversion⟩ := hwalks.of_eq_ok hs
  refine ⟨reports, fun sort => ?_, hcount, ?_, congrArg Prod.snd hversion⟩
  · unfold parseBundle parseArchiveReports
    rw [if_neg hformat, hreports]
    exact if_neg (hcount ▸ hsome)
  · have hall := walk_keeps (collectEntry_keeps rt) rfl hreports
    rw [hall, declared_filterMap]
    rfl

theorem declared_perm (sort : SliceSort) (reports : List Report) :
    (declared (sort.byKey Report.source reports)).Perm (declared reports) :=
  ((sort.perm Report.source reports).map _).filter _

theorem least_of_sorted {sort : SliceSort}
    (h : (declared (sort.byKey Report.source reports)).head? = some d) :
    d ∈ declared reports ∧ ∀ e ∈ declared reports, ¬ e.1 < d.1 := by
  have hperm := declared_perm sort reports
  have hsorted : (declared (sort.byKey Report.source reports)).Pairwise fun d e => ¬ e.1 < d.1 :=
    ((pairwise_map.mpr (sort.sorted Report.source reports)).filter _)
  obtain ⟨rest, hrest⟩ := head?_eq_some_iff.mp h
  rw [hrest] at hperm hsorted
  refine ⟨hperm.mem_iff.mp mem_cons_self, fun e he => ?_⟩
  rcases mem_cons.mp (hperm.mem_iff.mpr he) with rfl | he
  · exact lt_irrefl e.1
  · exact (pairwise_cons.mp hsorted).1 e he

theorem exists_sort_of_least (h : d ∈ declared reports)
    (hleast : ∀ e ∈ declared reports, ¬ e.1 < d.1) :
    ∃ sort : SliceSort, (declared (sort.byKey Report.source reports)).head? = some d := by
  obtain ⟨hmem, hversion⟩ := mem_filter.mp h
  obtain ⟨r, hr, rfl⟩ := mem_map.mp hmem
  obtain ⟨sort, before, after, hsort, hbefore⟩ := SliceSort.exists_first Report.source hr
  refine ⟨sort, ?_⟩
  -- the reports before it have smaller names, so they declare nothing
  have hnone : declared before = [] := by
    rw [eq_nil_iff_forall_not_mem]
    intro e he
    obtain ⟨b, hb, rfl⟩ := mem_map.mp (mem_filter.mp he).1
    refine hleast (b.source, b.tool.version) ?_ (hbefore b hb)
    have hb : b ∈ sort.byKey Report.source reports := by
      rw [hsort]
      exact mem_append_left _ hb
    have hb : b ∈ reports := (sort.perm _ _).mem_iff.mp hb
    exact mem_filter.mpr ⟨mem_map_of_mem hb, (mem_filter.mp he).2⟩
  have hversion : r.tool.version ≠ "" := by simpa using hversion
  rw [hsort, declared_append, hnone]
  simp [declared, hversion]

theorem first_declared_iff (reports : List Report) :
    (∀ sort : SliceSort, ((declared (sort.byKey Report.source reports)).head?.map Prod.snd).getD "" =
        ((declared reports).foldl noteVersion ("", "")).2) ↔ Settled (declared reports) := by
  by_cases hne : declared reports = []
  · have hsorted : ∀ sort : SliceSort, declared (sort.byKey Report.source reports) = [] :=
      fun sort => perm_nil.mp (hne ▸ declared_perm sort reports)
    simp [hsorted, hne, Settled]
  · unfold Settled
    rw [argmin_contenders declared_ne hne]
    constructor
    · intro h d hd hleast c hc
      cases hc
      obtain ⟨sort, hsort⟩ := exists_sort_of_least hd hleast
      have hfirst := h sort
      rw [hsort] at hfirst
      exact hfirst.symm
    · intro h sort
      cases hhead : (declared (sort.byKey Report.source reports)).head? with
      | none =>
        have hperm := declared_perm sort reports
        rw [head?_eq_none_iff.mp hhead] at hperm
        exact absurd (nil_perm.mp hperm) hne
      | some d =>
        obtain ⟨hd, hleast⟩ := least_of_sorted hhead
        exact (h d hd hleast _ rfl).symm

theorem inspect_single {i : Inspection} (hformat : detectBytes content = .none)
    (h : inspect rt std content = .ok i) (sort : SliceSort) :
    ∃ b, parseBundle rt std sort content = .ok b ∧
      b.reports.length = i.reports ∧ b.report.tool.version = i.version := by
  unfold inspect at h
  rw [detectFile_eq, if_pos hformat] at h
  split_ifs at h
  cases h
  obtain ⟨hlength, hversion⟩ := newBundle_spec [parse rt content]
  refine ⟨newBundle [parse rt content], if_pos hformat, hlength, ?_⟩
  rw [hversion]
  by_cases hempty : (parse rt content).tool.version = "" <;> simp [declared, hempty]

theorem bundle_agrees_iff {content : List UInt8} {i : Inspection}
    (h : inspect rt std content = .ok i) :
    (∀ sort : SliceSort, ∃ b, parseBundle rt std sort content = .ok b ∧
        b.reports.length = i.reports ∧ b.report.tool.version = i.version) ↔
      Settled (declaredVersions rt std content) := by
  by_cases hformat : detectBytes content = .none
  · refine iff_of_true (inspect_single rt std hformat h) ?_
    unfold declaredVersions
    rw [hformat]
    rintro d ⟨⟩
  · obtain ⟨reports, hparse, hcount, hdeclared, hversion⟩ := inspect_archive rt std hformat h
    rw [← hdeclared, ← first_declared_iff]
    refine forall_congr' fun sort => ?_
    obtain ⟨hlength, hfirst⟩ := newBundle_spec (sort.byKey Report.source reports)
    have hlength := hlength.trans (sort.perm Report.source reports).length_eq
    rw [hparse sort, ← hfirst, ← hversion]
    constructor
    · rintro ⟨b, hb, -, hb'⟩
      cases hb
      exact hb'
    · intro hb
      exact ⟨_, rfl, hlength.trans hcount.symm, hb⟩

def Runtime.small : Runtime where
  lower := Char.toLower
  grow capacity := max 1 (2 * capacity)
  grows capacity := by omega

def reportText (revision : String) : List UInt8 := bytes ("Test Engine Version:$Rev:" ++ revision)

def namedReports : List UInt8 :=
  Stored.tarOf [("b", reportText "2"), ("a", reportText "1"), ("c", reportText "3"), ("a", reportText "1")]

theorem named_report_agrees :
    inspect .small Stored.std namedReports = .ok ⟨4, "1"⟩ ∧
      ∀ sort : SliceSort, ∃ b, parseBundle .small Stored.std sort namedReports = .ok b ∧
        b.reports.length = 4 ∧ b.report.tool.version = "1" := by
  have hrun : (inspect .small Stored.std namedReports).toOption = some ⟨4, "1"⟩ ∧
      Settled (declaredVersions .small Stored.std namedReports) := by decide +kernel
  have h := eq_ok_of_toOption hrun.1
  exact ⟨h, (bundle_agrees_iff .small Stored.std h).mpr hrun.2⟩

theorem empty_name_forgotten :
    (inspect .small Stored.std (Stored.tarOf [("", reportText "1"), ("a", reportText "2")])).toOption =
        some ⟨2, "2"⟩ ∧
      (parseBundle .small Stored.std .insertion
        (Stored.tarOf [("", reportText "1"), ("a", reportText "2")])).toOption.map
          (fun b => (b.reports.length, b.report.tool.version)) = some (2, "1") := by
  decide +kernel

end Chainloop.Archives.Dranzer
