import Chainloop.Archives.Stored
import Chainloop.Go.Map
import Chainloop.Go.Sort

namespace Chainloop.Archives.Radamsa

open Go Except

inductive Value where
  | text (s : String)
  | int (n : Int)
deriving DecidableEq

abbrev Record := Map String Value

def errNoRecords : GoError := ⟨"no radamsa -M records found", [.noRecords]⟩

def invalidReport (err : GoError) : GoError :=
  ⟨"invalid radamsa -M report: " ++ err.message, .invalidReport :: err.kinds⟩

-- The parts between the separators ", " that are outside of quotes, of a line whose
-- last part has begun with `part` (in reverse).
def splitParts (inQuote : Bool) (part : List Char) : List Char → List (List Char)
  | [] => [part.reverse]
  | '\\' :: c :: rest => splitParts inQuote (c :: '\\' :: part) rest
  | '"' :: rest => splitParts (!inQuote) ('"' :: part) rest
  | ',' :: ' ' :: rest =>
    if inQuote then splitParts inQuote (' ' :: ',' :: part) rest
    else part.reverse :: splitParts inQuote [] rest
  | c :: rest => splitParts inQuote (c :: part) rest

def splitTopLevel (line : String) : List String :=
  (splitParts false [] line.toList).map String.ofList

section Parse

variable (unquote : String → Option String)

def parseValue (v : String) : Value :=
  let chars := v.toList
  if 2 ≤ chars.length ∧ chars.head? = some '"' ∧ chars.getLast? = some '"' then
    match unquote v with
    | some unq => .text unq
    | none => .text (trimRight (· = '"') (String.ofList (chars.dropWhile (· = '"'))))
  else
    match parseInt64 v with
    | some n => .int n
    | none => .text v

def parsePair (pair : String) : Except GoError (String × Value) :=
  match Text.cut [':', ' '] pair.toList with
  | some (key, rawVal) =>
    .ok (trimSpace (String.ofList key), parseValue unquote (trimSpace (String.ofList rawVal)))
  | none =>
    if pair.toList.getLast? = some ':' then
      .ok (trimSpace (String.ofList pair.toList.dropLast), parseValue unquote "")
    else .error (.new ("invalid radamsa -M pair: \"" ++ pair ++ "\""))

def parseLine (line : String) : Except GoError Record := do
  let pairs ← (((splitTopLevel line).map trimSpace).filter (· ≠ "")).mapM (parsePair unquote)
  let rec_ := Map.ofList pairs
  if rec_.size = 0 then throw (.new ("invalid radamsa -M line: \"" ++ line ++ "\""))
  return rec_

def parse (r : Stream) : Except GoError (List Record) := do
  let scanned := r.scanLines (1024 * 1024)
  let records ← ((scanned.1.map fun line => trimSpace (textOf line)).filter (· ≠ "")).mapM
    (parseLine unquote)
  match scanned.2 with
  | some err => throw err
  | none => if records.isEmpty then throw errNoRecords else return records

def maxReportRecords : Nat := 5000000

def errTooManyRecords : GoError := invalidReport (.new s!"exceeds {maxReportRecords} records")

def reportLimits : Limits := ⟨2000000, 2 ^ 30⟩

def dropRunHeaders (recs : List Record) : List Record :=
  recs.filter fun r => (r.get? "seed").isNone

def parseEntry (r : Stream) : Except GoError (List Record) :=
  match parse unquote r with
  | .error err => if err.is .noRecords then .ok [] else .error (invalidReport err)
  | .ok recs =>
    let kept := dropRunHeaders recs
    if maxReportRecords < kept.length then .error errTooManyRecords else .ok kept

def parseSingle (r : Stream) : Except GoError (List Record) := parseEntry unquote r

variable (std : Std)

-- The first Next of a tar reader gives an entry or the end of the archive.
def isTarStream (r : Stream) : Bool :=
  let listing := std.tar r
  !listing.entries.isEmpty || listing.ending == .eof

def gunzip (data : List UInt8) : Except GoError (List UInt8) := do
  let gz ← (std.gzip data).mapError invalidReport
  let out ← (gz.limit (reportLimits.maxTotalSize + 1)).readAll.mapError invalidReport
  if reportLimits.maxTotalSize < out.length then
    throw (invalidReport (.new s!"gzip content exceeds {reportLimits.maxTotalSize} bytes"))
  return out

abbrev Merged := List (String × List Record) × Nat

def mergeEntry : Visit Merged := fun m name body => do
  let recs ← parseEntry unquote body
  if recs.length = 0 then return (m, body.bytes.length)
  if maxReportRecords < m.2 + recs.length then throw errTooManyRecords
  return ((m.1 ++ [(name, recs)], m.2 + recs.length), body.bytes.length)

def countEntry : Visit Nat := fun total _ body => do
  let recs ← parseEntry unquote body
  if maxReportRecords < total + recs.length then throw errTooManyRecords
  return (total + recs.length, body.bytes.length)

def mergeArchiveBytes (sort : SliceSort) (data : List UInt8) (format : Format) :
    Except GoError (List Record) := do
  let merged ← wrapErr "reading radamsa archive"
    (walk reportLimits (mergeEntry unquote) std data format ([], 0))
  return (sort.byKey Prod.fst merged.1).flatMap Prod.snd

def parseReportBytes (sort : SliceSort) (data : List UInt8) : Except GoError (List Record) :=
  match detectBytes data with
  | .none => parseSingle unquote (.ofBytes data)
  | .zip => mergeArchiveBytes unquote std sort data .zip
  | .tar => mergeArchiveBytes unquote std sort data .tar
  | .tarGz => do
    let raw ← gunzip std data
    if isTarStream std (.ofBytes raw) then mergeArchiveBytes unquote std sort raw .tar
    else parseSingle unquote (.ofBytes raw)

def countSingle (content : List UInt8) : Except GoError Nat :=
  List.length <$> parseEntry unquote (.ofBytes content)

def countGzipSingle (content : List UInt8) : Except GoError Nat := do
  let raw ← gunzip std content
  countSingle unquote raw

def countArchive (content : List UInt8) (format : Format) : Except GoError Nat :=
  wrapErr "reading radamsa archive" (walk reportLimits (countEntry unquote) std content format 0)

def gzipIsTar (content : List UInt8) : Except GoError Bool :=
  isTarStream std <$> (std.gzip content).mapError invalidReport

def inspectReport (content : List UInt8) : Except GoError Nat :=
  match detectFile content with
  | .none => countSingle unquote content
  | .zip => countArchive unquote std content .zip
  | .tar => countArchive unquote std content .tar
  | .tarGz => do
    let isTar ← gzipIsTar std content
    if isTar then countArchive unquote std content .tarGz else countGzipSingle unquote std content

theorem gunzip_eq_ok_iff {raw : List UInt8} : gunzip std data = .ok raw ↔
      std.gzip data = .ok (.ofBytes raw) ∧ raw.length ≤ reportLimits.maxTotalSize := by
  unfold gunzip
  simp only [bind_eq_ok, mapError_eq_ok]
  constructor
  · rintro ⟨gz, hgz, out, hout, h⟩
    split_ifs at h with hlong
    · cases h
    · have heq : out = raw := ok.inj h
      subst heq
      rw [Nat.not_lt] at hlong
      rw [Stream.readAll_limit hlong] at hout
      subst hout
      exact ⟨hgz, hlong⟩
  · rintro ⟨hgz, hlength⟩
    refine ⟨_, hgz, raw, (Stream.readAll_limit hlength).mpr rfl, ?_⟩
    rw [if_neg (Nat.not_lt.mpr hlength)]
    rfl

def Counted (total : Nat) (m : Merged) : Prop :=
  m.2 = total ∧ (m.1.map fun e => e.2.length).sum = total ∧ total ≤ maxReportRecords

theorem countEntry_related : Visit.Related Counted (countEntry unquote) (mergeEntry unquote) := by
  rintro total ⟨entries, total'⟩ name body ⟨htotal, hsum, hmax⟩
  refine (Lockstep.refl (parseEntry unquote body)).bind fun recs recs' h => ?_
  subst h
  subst htotal
  by_cases hempty : recs.length = 0
  · simp only [hempty, Nat.add_zero, if_true, if_neg (Nat.not_lt.mpr hmax)]
    exact .ok ⟨⟨rfl, hsum, hmax⟩, rfl⟩
  · simp only [hempty, if_false]
    refine .ite (fun _ => .error _) fun hfits => .ok ⟨⟨rfl, ?_, Nat.not_lt.mp hfits⟩, rfl⟩
    simpa using hsum

theorem countArchive_eq_ok_iff (sort : SliceSort) (data : List UInt8) (format : Format) (n : Nat) :
    countArchive unquote std data format = .ok n ↔
      ∃ recs, mergeArchiveBytes unquote std sort data format = .ok recs ∧ recs.length = n := by
  have hwalks := walk_related reportLimits (countEntry_related unquote)
    (show Counted 0 ([], 0) from ⟨rfl, rfl, Nat.zero_le _⟩) std data format
  have hlength (m : Merged) : ((sort.byKey Prod.fst m.1).flatMap Prod.snd).length =
      (m.1.map fun e => e.2.length).sum := by
    rw [List.length_flatMap]
    exact ((sort.perm Prod.fst m.1).map _).sum_nat
  unfold countArchive mergeArchiveBytes
  simp only [bind_eq_ok, wrapErr_eq_ok]
  constructor
  · intro h
    obtain ⟨m, hm, -, hsum, -⟩ := hwalks.of_eq_ok h
    exact ⟨_, ⟨m, hm, rfl⟩, (hlength m).trans hsum⟩
  · rintro ⟨recs, ⟨m, hm, h⟩, rfl⟩
    cases h
    obtain ⟨total, htotal, -, hsum, -⟩ := hwalks.of_eq_ok_right hm
    rw [hlength m, hsum]
    exact htotal

def IsLog (e : TarEntry) : Prop := e.qualifies = true → ∃ recs, parseEntry unquote e.body = .ok recs

def recordCount (e : TarEntry) : Nat :=
  if e.qualifies then ((parseEntry unquote e.body).toOption.getD []).length else 0

-- A tar that is a report: it is complete, keeps the limits, and holds logs only.
structure TarReport (listing : TarListing) : Prop where
  complete : listing.ending = .eof
  entries_le : listing.entries.length ≤ reportLimits.maxEntries
  safe : ∀ e ∈ listing.entries, safePath e.name = true
  logs : ∀ e ∈ listing.entries, IsLog unquote e
  records_le : (listing.entries.map (recordCount unquote)).sum ≤ maxReportRecords

theorem countEntry_eq_ok_iff {body : Stream} : countEntry unquote total name body = .ok r ↔
      ∃ recs, parseEntry unquote body = .ok recs ∧ total + recs.length ≤ maxReportRecords ∧
        (total + recs.length, body.bytes.length) = r := by
  unfold countEntry
  rw [bind_eq_ok]
  refine exists_congr fun recs => and_congr_right fun _ => ?_
  rw [← Nat.not_lt]
  split_ifs with hmany
  · exact ⟨fun h => (nomatch h), fun h => absurd hmany h.1⟩
  · exact ⟨fun h => ⟨hmany, ok.inj h⟩, fun h => congrArg ok h.2⟩

theorem visitTar_countEntry_eq_ok_iff (h : total ≤ maxReportRecords) :
    visitTar (countEntry unquote) total e = .ok t ↔
      IsLog unquote e ∧ t = total + recordCount unquote e ∧ t ≤ maxReportRecords := by
  unfold visitTar IsLog recordCount
  cases e.qualifies with
  | false =>
    simp only [Bool.false_eq_true, if_false, ok.injEq, false_implies, true_and]
    constructor
    · rintro rfl
      exact ⟨rfl, h⟩
    · rintro ⟨rfl, -⟩
      rfl
  | true =>
    simp only [↓reduceIte, map_eq_ok, countEntry_eq_ok_iff, true_implies]
    constructor
    · rintro ⟨_, ⟨recs, hrecs, hmax, rfl⟩, rfl⟩
      rw [hrecs]
      exact ⟨⟨recs, rfl⟩, rfl, hmax⟩
    · rintro ⟨⟨recs, hrecs⟩, rfl, hmax⟩
      rw [hrecs] at hmax ⊢
      exact ⟨_, ⟨recs, rfl, hmax, rfl⟩, rfl⟩

theorem foldlM_countEntry_iff {entries : List TarEntry} :
    ∀ {total : Nat}, total ≤ maxReportRecords →
      ((∃ n, entries.foldlM (visitTar (countEntry unquote)) total = .ok n) ↔
        (∀ e ∈ entries, IsLog unquote e) ∧
          total + (entries.map (recordCount unquote)).sum ≤ maxReportRecords) := by
  induction entries with
  | nil =>
    intro total h
    simp [pure, Except.pure, h]
  | cons e rest ih =>
    intro total h
    simp only [List.foldlM_cons, bind_eq_ok, List.forall_mem_cons, List.map_cons, List.sum_cons,
      visitTar_countEntry_eq_ok_iff unquote h]
    constructor
    · rintro ⟨n, t, ⟨hlog, rfl, ht⟩, hrest⟩
      obtain ⟨hlogs, hsum⟩ := (ih ht).mp ⟨n, hrest⟩
      exact ⟨⟨hlog, hlogs⟩, by omega⟩
    · rintro ⟨⟨hlog, hlogs⟩, hsum⟩
      have ht : total + recordCount unquote e ≤ maxReportRecords := by omega
      obtain ⟨n, hrest⟩ := (ih ht).mpr ⟨hlogs, by omega⟩
      exact ⟨n, _, ⟨hlog, rfl, ht⟩, hrest⟩

theorem exists_walkTar_iff (listing : TarListing) :
    (∃ n, walkTarEntries reportLimits (countEntry unquote) listing 0 = .ok n) ↔
      TarReport unquote listing := by
  simp only [walkTarEntries_eq_ok_iff]
  constructor
  · rintro ⟨n, hending, hentries, hsafe, hfold⟩
    obtain ⟨hlogs, hsum⟩ := (foldlM_countEntry_iff unquote (Nat.zero_le _)).mp ⟨n, hfold⟩
    exact ⟨hending, hentries, hsafe, hlogs, by omega⟩
  · rintro ⟨hending, hentries, hsafe, hlogs, hsum⟩
    obtain ⟨n, hfold⟩ := (foldlM_countEntry_iff unquote (Nat.zero_le _)).mpr ⟨hlogs, by omega⟩
    exact ⟨n, hending, hentries, hsafe, hfold⟩

-- The tar at the start of a gzip stream is a report, but what follows makes the stream
-- end with an error or makes it larger than the limit.
def SpoiledBehindTar (content : List UInt8) : Prop :=
  detectBytes content = .tarGz ∧ ∃ gz, std.gzip content = .ok gz ∧
    (gz.ending ≠ .eof ∨ reportLimits.maxTotalSize < gz.bytes.length) ∧ isTarStream std gz = true ∧
        TarReport unquote (std.tar (capped reportLimits.maxTotalSize gz))

end Parse

variable (std : Std) (sort : SliceSort) (unquote : String → Option String) (content : List UInt8)

def Agree : Prop :=
  ∀ n, inspectReport unquote std content = .ok n ↔
    ∃ recs, parseReportBytes unquote std sort content = .ok recs ∧ recs.length = n

variable {std unquote content}

theorem countSingle_eq_ok_iff : countSingle unquote content = .ok n ↔
      ∃ recs, parseSingle unquote (.ofBytes content) = .ok recs ∧ recs.length = n := map_eq_ok

section
variable (hformat : detectBytes content = .tarGz)
include hformat

theorem inspectReport_tarGz (hgzip : std.gzip content = .ok gz) :
    inspectReport unquote std content =
      if isTarStream std gz then countArchive unquote std content .tarGz
      else countGzipSingle unquote std content := by
  unfold inspectReport gzipIsTar
  rw [detectFile_eq, hformat, hgzip]
  rfl

theorem inspectReport_of_gzip_error (hgzip : std.gzip content = .error err) :
    inspectReport unquote std content = .error (invalidReport err) := by
  unfold inspectReport gzipIsTar
  rw [detectFile_eq, hformat, hgzip]
  rfl

theorem parseReportBytes_tarGz :
    parseReportBytes unquote std sort content = gunzip std content >>= fun raw =>
      if isTarStream std (.ofBytes raw) then mergeArchiveBytes unquote std sort raw .tar
      else parseSingle unquote (.ofBytes raw) := by
  unfold parseReportBytes
  rw [hformat]

theorem agree_of_gunzip (hgunzip : gunzip std content = .ok raw) : Agree std sort unquote content := by
  intro n
  have hgzip := ((gunzip_eq_ok_iff std).mp hgunzip).1
  have hcount : countArchive unquote std content .tarGz = countArchive unquote std raw .tar := by
    unfold countArchive walk
    rw [hgzip]
    rfl
  have hsingle : countGzipSingle unquote std content = countSingle unquote raw := by
    unfold countGzipSingle
    rw [hgunzip]
    rfl
  have hparse : parseReportBytes unquote std sort content =
      if isTarStream std (.ofBytes raw) then mergeArchiveBytes unquote std sort raw .tar
      else parseSingle unquote (.ofBytes raw) := by
    rw [parseReportBytes_tarGz sort hformat, hgunzip]
    rfl
  rw [inspectReport_tarGz hformat hgzip, hparse, hcount, hsingle]
  cases isTarStream std (.ofBytes raw) with
  | true => exact countArchive_eq_ok_iff unquote std sort raw .tar n
  | false => exact countSingle_eq_ok_iff

-- Another gzip stream is refused by the projection, and by the inspection too if the tar at
-- its start is no report.
theorem agree_iff_of_not_gunzip (hgzip : std.gzip content = .ok gz) (hgunzip : ∀ raw, gunzip std content ≠ .ok raw) :
    Agree std sort unquote content ↔ ¬ (isTarStream std gz = true ∧
      TarReport unquote (std.tar (capped reportLimits.maxTotalSize gz))) := by
  have hparse (recs) : parseReportBytes unquote std sort content ≠ .ok recs := by
    intro h
    rw [parseReportBytes_tarGz sort hformat] at h
    obtain ⟨raw, hraw, -⟩ := bind_eq_ok.mp h
    exact hgunzip raw hraw
  have hsingle (n) : countGzipSingle unquote std content ≠ .ok n := by
    intro h
    obtain ⟨raw, hraw, -⟩ := bind_eq_ok.mp h
    exact hgunzip raw hraw
  have hcount : countArchive unquote std content .tarGz = wrapErr "reading radamsa archive"
      (walkTarEntries reportLimits (countEntry unquote)
        (std.tar (capped reportLimits.maxTotalSize gz)) 0) := by
    unfold countArchive walk
    rw [hgzip]
    rfl
  rw [← exists_walkTar_iff]
  unfold Agree
  rw [inspectReport_tarGz hformat hgzip, hcount]
  cases isTarStream std gz with
  | true => simp [hparse]
  | false => simp [hparse, hsingle]

end

variable (std unquote content)

theorem inspect_agrees_iff : Agree std sort unquote content ↔ ¬ SpoiledBehindTar unquote std content := by
  cases hformat : detectBytes content with
  | none =>
    refine iff_of_true (fun n => ?_) fun h => by simpa [hformat] using h.1
    unfold inspectReport parseReportBytes
    rw [detectFile_eq, hformat]
    exact countSingle_eq_ok_iff
  | zip =>
    refine iff_of_true (fun n => ?_) fun h => by simpa [hformat] using h.1
    unfold inspectReport parseReportBytes
    rw [detectFile_eq, hformat]
    exact countArchive_eq_ok_iff unquote std sort content .zip n
  | tar =>
    refine iff_of_true (fun n => ?_) fun h => by simpa [hformat] using h.1
    unfold inspectReport parseReportBytes
    rw [detectFile_eq, hformat]
    exact countArchive_eq_ok_iff unquote std sort content .tar n
  | tarGz =>
    unfold SpoiledBehindTar
    cases hgzip : std.gzip content with
    | error err =>
      refine iff_of_true (fun n => ?_) (by simp)
      have hgunzip : ∀ raw, gunzip std content ≠ .ok raw := by
        simp [gunzip_eq_ok_iff, hgzip]
      rw [inspectReport_of_gzip_error hformat hgzip, parseReportBytes_tarGz sort hformat]
      simp [bind_eq_ok, hgunzip]
    | ok gz =>
      by_cases hwhole : gz.ending = .eof ∧ gz.bytes.length ≤ reportLimits.maxTotalSize
      · have hgunzip : gunzip std content = .ok gz.bytes := by
          rw [gunzip_eq_ok_iff, hgzip, Stream.ofBytes, ← hwhole.1]
          exact ⟨rfl, hwhole.2⟩
        refine iff_of_true (agree_of_gunzip sort hformat hgunzip) ?_
        simpa [hformat, hwhole.1] using fun hlong => absurd hlong (Nat.not_lt.mpr hwhole.2)
      · have hgunzip : ∀ raw, gunzip std content ≠ .ok raw := by
          intro raw h
          rw [gunzip_eq_ok_iff, hgzip] at h
          obtain ⟨rfl⟩ := ok.inj h.1
          exact hwhole ⟨rfl, h.2⟩
        rw [agree_iff_of_not_gunzip sort hformat hgzip hgunzip]
        have hspoiled : gz.ending ≠ .eof ∨ reportLimits.maxTotalSize < gz.bytes.length := by
          rw [← Nat.not_le]
          exact not_and_or.mp hwhole
        simp [hformat, hspoiled]

def cutReport : List UInt8 :=
  (Stored.gzipMember (Stored.tarOf [("run.meta", bytes "generator: file, nth: 1\n")])).dropLast

-- The walk of the inspection stops at the end of the tar and never reads the footer.
theorem cut_footer_inspected : inspectReport (fun _ => none) Stored.std cutReport = .ok 1 ∧
      parseReportBytes (fun _ => none) Stored.std .insertion cutReport =
        .error (invalidReport Stored.errUnexpectedEOF) :=
  ⟨eq_ok_of_toOption (by decide +kernel), eq_error_of_errorOf (by decide +kernel)⟩

end Chainloop.Archives.Radamsa
