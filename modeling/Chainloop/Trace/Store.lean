import Chainloop.Go.Uuid
import Chainloop.Trace.Attribution
import Chainloop.Trace.Trailer

namespace Chainloop.Trace

open Go List Map String

section Names

variable (sha256 : String → List UInt8)

-- A rewritten ID gets a digest, so that it never takes the name of another ID.
def sanitizeID (id : String) : String :=
  let base := baseName (replaceAll "/" "_" id)
  let safe := if base = "." ∨ base = ".." then "_" else base
  if safe = id then safe
  else safe ++ "-" ++ ofList (UUID.encodeHex ((sha256 id).take 4))

structure Element (name : String) : Prop where
  ne_empty : name ≠ ""
  no_slash : '/' ∉ name.toList
  not_here : name ≠ "." ∧ name ≠ ".."

variable {sha256}

theorem sanitizeID_of_element (h : Element name) : sanitizeID sha256 name = name := by
  have hslash : "/" = singleton '/' := rfl
  have hbase : baseName (replaceAll "/" "_" name) = name := by
    rw [hslash, replaceAll_of_not_mem "_" h.no_slash, baseName_of_not_mem h.ne_empty h.no_slash]
  simp [sanitizeID, hbase, h.not_here]

theorem element_sanitizeID (id : String) : Element (sanitizeID sha256 id) := by
  have hslash : "/" = singleton '/' := rfl
  have hreplaced : '/' ∉ (replaceAll "/" "_" id).toList := by
    rw [hslash]
    exact not_mem_replaceAll (by decide) id
  have hbase : '/' ∉ (baseName (replaceAll "/" "_" id)).toList := by
    by_cases hempty : replaceAll "/" "_" id = ""
    · rw [hempty]
      decide
    · rwa [baseName_of_not_mem hempty hreplaced]
  have hne : baseName (replaceAll "/" "_" id) ≠ "" := baseName_ne_empty _
  unfold sanitizeID
  generalize baseName (replaceAll "/" "_" id) = base at hbase hne
  dsimp only
  have hsafe : Element (if base = "." ∨ base = ".." then "_" else base) := by
    split_ifs with hdots
    · exact ⟨by decide, by decide, by decide⟩
    · rw [not_or] at hdots
      exact ⟨hne, hbase, hdots⟩
  generalize (if base = "." ∨ base = ".." then "_" else base) = safe at hsafe
  split_ifs with hid
  · exact hsafe
  · -- The dash keeps the rewritten name apart from the two dots.
    have hdash : '-' ∈ (safe ++ "-" ++ ofList (UUID.encodeHex ((sha256 id).take 4))).toList := by
      simp
    have hhex : '/' ∉ UUID.encodeHex ((sha256 id).take 4) := by
      intro hmem
      exact absurd (UUID.mem_hexDigits_of_mem_encodeHex hmem) (by decide)
    refine ⟨?_, ?_, ?_, ?_⟩
    · intro h
      rw [h] at hdash
      simp at hdash
    · simp [hsafe.no_slash, hhex]
    · intro h
      rw [h] at hdash
      simp at hdash
    · intro h
      rw [h] at hdash
      simp at hdash

@[simp] theorem sanitizeID_sanitizeID (id : String) :
    sanitizeID sha256 (sanitizeID sha256 id) = sanitizeID sha256 id :=
  sanitizeID_of_element (element_sanitizeID id)

-- The hooks accept one ID that is no element: the root directory.
theorem element_of_valid {id : String} (h : validSessionID id = true) (hroot : id ≠ "/") :
    Element id := by
  simp only [validSessionID, Bool.and_eq_true, bne_iff_ne, beq_iff_eq] at h
  obtain ⟨⟨⟨hempty, hdot⟩, hdots⟩, hbase⟩ := h
  refine ⟨hempty, ?_, hdot, hdots⟩
  rw [← hbase]
  apply not_mem_baseName
  rwa [hbase]

end Names

def CommitRecord.allSessionIDs (rec : CommitRecord) : List String :=
  (rec.sessionIDs ++ rec.joined.keys).eraseDups

def second : Nat := 1000000000

def staleSessionRetention : Nat := 30 * 24 * 60 * 60 * second

-- A session as its record keeps it, with the second its start text parses to.
structure SessionRecord where
  sessionID : String
  active : Bool
  startedAt : Option Nat
deriving DecidableEq

-- The directories of the trace state by file name. A record that cannot be read is none.
-- Every file has the name that its content gives it.
structure Store (sha256 : String → List UInt8) where
  commits : Map String (Option CommitRecord)
  aiLines : Map String (List LedgerEntry)
  sessions : Map String (Option SessionRecord)
  commits_named : ∀ name rec, commits.get? name = some (some rec) → rec.sha = name
  aiLines_named : ∀ name entries, aiLines.get? name = some entries →
    sanitizeID sha256 (loadAILineAttribution name entries).sessionID = name
  sessions_named : ∀ name rec, sessions.get? name = some (some rec) →
    sanitizeID sha256 rec.sessionID = name

namespace Store

variable {sha256 : String → List UInt8}

def empty : Store sha256 where
  commits := .empty
  aiLines := .empty
  sessions := .empty
  commits_named := by intro name rec h; cases h
  aiLines_named := by intro name entries h; cases h
  sessions_named := by intro name rec h; cases h

def ledger (σ : Store sha256) (name : String) : List LedgerEntry := σ.aiLines.getD name []

def attribution (σ : Store sha256) (sessionID : String) : AILineAttribution :=
  loadAILineAttribution sessionID (σ.ledger (sanitizeID sha256 sessionID))

-- LoadAllAILineAttributions: the name of a file stands for the session.
def attributions (σ : Store sha256) : List AILineAttribution :=
  (σ.aiLines.keys.map σ.attribution).filter fun attr => attr.files.size != 0

theorem sanitizeID_owner (σ : Store sha256) (id : String) :
    sanitizeID sha256 (loadAILineAttribution (sanitizeID sha256 id)
      (σ.ledger (sanitizeID sha256 id))).sessionID = sanitizeID sha256 id := by
  unfold ledger Map.getD
  cases h : σ.aiLines.get? (sanitizeID sha256 id) with
  | none => exact sanitizeID_sanitizeID id
  | some entries => exact σ.aiLines_named _ _ h

-- Appends to the session's file, which the first write creates.
def appendAILineEntries (σ : Store sha256) (sessionID : String) (entries : List LedgerEntry)
    (hentries : ∀ e ∈ entries, e.sessionID = sessionID) : Store sha256 :=
  if entries = [] then σ
  else
    { σ with
      aiLines := σ.aiLines.set (sanitizeID sha256 sessionID)
        (σ.ledger (sanitizeID sha256 sessionID) ++ entries)
      aiLines_named := by
        intro name found h
        rw [get?_set] at h
        split_ifs at h with hname
        · cases h
          subst hname
          refine sessionID_append (P := fun id => sanitizeID sha256 id = _)
            (σ.sanitizeID_owner sessionID) fun e he _ => ?_
          rw [hentries e he]
        · exact σ.aiLines_named name found h }

def saveSessionRecord (σ : Store sha256) (rec : SessionRecord) : Store sha256 :=
  { σ with
    sessions := σ.sessions.set (sanitizeID sha256 rec.sessionID) (some rec)
    sessions_named := by
      intro name found h
      rw [get?_set] at h
      split_ifs at h with hname
      · cases h
        exact hname.symm
      · exact σ.sessions_named name found h }

def saveCommitRecord (σ : Store sha256) (rec : CommitRecord) : Store sha256 :=
  { σ with
    commits := σ.commits.set rec.sha (some rec)
    commits_named := by
      intro name found h
      rw [get?_set] at h
      split_ifs at h with hname
      · cases h
        exact hname.symm
      · exact σ.commits_named name found h }

def saveCommitRecords (σ : Store sha256) (recs : List CommitRecord) : Store sha256 :=
  recs.foldl saveCommitRecord σ

def loadSessionRecord (σ : Store sha256) (sessionID : String) : Option SessionRecord :=
  (σ.sessions.get? (sanitizeID sha256 sessionID)).join

-- By session ID; records that cannot be read are left out.
def loadAllSessionRecords (σ : Store sha256) : Map String SessionRecord :=
  (σ.sessions.entries.filterMap Prod.snd).foldl (fun m rec => m.set rec.sessionID rec) .empty

def loadAllCommitRecords (σ : Store sha256) : List CommitRecord :=
  σ.commits.entries.filterMap Prod.snd

-- Sessions older than the retention whose work is all attested. A start that does not
-- parse is never stale.
def staleSessionIDs (σ : Store sha256) (unattested : List String) (now : Nat) : List String :=
  (σ.loadAllSessionRecords.entries.map Prod.snd).filterMap fun rec =>
    let id := sanitizeID sha256 rec.sessionID
    if unattested.contains id then none
    else match rec.startedAt with
      | none => none
      | some startedAt => if startedAt * second + staleSessionRetention < now then some id else none

def survivors (σ : Store sha256) (liveSHAs : List String) : List CommitRecord :=
  σ.loadAllCommitRecords.filter fun rec => liveSHAs.contains rec.sha

def sessionNames (sha256 : String → List UInt8) (recs : List CommitRecord) : List String :=
  recs.flatMap fun rec => rec.allSessionIDs.map (sanitizeID sha256)

-- The files of a session stay while a surviving commit names the session, unless it is stale.
def keeps (σ : Store sha256) (liveSHAs : List String) (now : Nat) (name : String) : Bool :=
  let kept := σ.survivors liveSHAs
  let unattested := sessionNames sha256 (kept.filter fun rec => !rec.tracked)
  (sessionNames sha256 kept).contains name && !(σ.staleSessionIDs unattested now).contains name

def gcOrphans (σ : Store sha256) (liveSHAs : List String) (now : Nat) : Store sha256 :=
  if liveSHAs = [] then σ
  else
    { commits := σ.commits.filter fun _ rec => rec.any fun rec => liveSHAs.contains rec.sha
      aiLines := σ.aiLines.filter fun name _ => σ.keeps liveSHAs now name
      sessions := σ.sessions.filter fun name _ => σ.keeps liveSHAs now name
      commits_named := fun name rec h => σ.commits_named name rec ((get?_filter _ _ _ _).mp h).1
      aiLines_named := fun name es h => σ.aiLines_named name es ((get?_filter _ _ _ _).mp h).1
      sessions_named := fun name rec h =>
        σ.sessions_named name rec ((get?_filter _ _ _ _).mp h).1 }

variable {σ : Store sha256}

theorem mem_loadAllSessionRecords (h : e ∈ σ.loadAllSessionRecords.entries) :
    σ.sessions.get? (sanitizeID sha256 e.2.sessionID) = some (some e.2) := by
  rcases mem_foldl_set_entries h with ⟨rec, hrec, rfl⟩ | h
  · obtain ⟨⟨name, found⟩, hfound, hread⟩ := mem_filterMap.mp hrec
    subst hread
    have hget := (get?_eq_some_iff _ _ _).mpr hfound
    rw [σ.sessions_named name rec hget]
    exact hget
  · cases h

theorem stale_record (h : name ∈ σ.staleSessionIDs unattested now) :
    ∃ rec startedAt, σ.sessions.get? name = some (some rec) ∧ rec.startedAt = some startedAt ∧
      startedAt * second + staleSessionRetention < now := by
  obtain ⟨rec, hrec, hstale⟩ := mem_filterMap.mp h
  obtain ⟨e, he, rfl⟩ := mem_map.mp hrec
  dsimp only at hstale
  split_ifs at hstale
  cases hstart : e.2.startedAt with
  | none => simp [hstart] at hstale
  | some startedAt =>
    simp only [hstart] at hstale
    split_ifs at hstale with hold
    cases hstale
    exact ⟨e.2, startedAt, mem_loadAllSessionRecords he, hstart, hold⟩

theorem ledger_gcOrphans_of_keeps
    (h : liveSHAs ≠ [] → σ.keeps liveSHAs now name = true) :
    (σ.gcOrphans liveSHAs now).ledger name = σ.ledger name := by
  unfold gcOrphans
  split_ifs with hlive
  · rfl
  · have hget : (σ.aiLines.filter fun name _ => σ.keeps liveSHAs now name).get? name =
        σ.aiLines.get? name := by
      ext entries
      rw [get?_filter]
      exact and_iff_left (h hlive)
    exact congrArg (Option.getD · []) hget

-- The collector keeps the files of a session that a surviving commit names, while its
-- record is within the retention.
theorem keeps_of_named {id : String} {rec : CommitRecord}
    (hrec : σ.commits.get? rec.sha = some (some rec)) (hlive : rec.sha ∈ liveSHAs)
    (hid : id ∈ rec.allSessionIDs)
    (hyoung : ∀ session startedAt, σ.sessions.get? (sanitizeID sha256 id) = some (some session) →
      session.startedAt = some startedAt → now ≤ startedAt * second + staleSessionRetention) :
    σ.keeps liveSHAs now (sanitizeID sha256 id) = true := by
  have hsurvives : rec ∈ σ.survivors liveSHAs := by
    refine mem_filter.mpr ⟨mem_filterMap.mpr ⟨(rec.sha, some rec), ?_, rfl⟩, ?_⟩
    · exact (get?_eq_some_iff _ _ _).mp hrec
    · exact contains_iff_mem.mpr hlive
  have hnamed : sanitizeID sha256 id ∈ sessionNames sha256 (σ.survivors liveSHAs) :=
    mem_flatMap.mpr ⟨rec, hsurvives, mem_map_of_mem hid⟩
  unfold keeps
  rw [Bool.and_eq_true, contains_iff_mem, Bool.not_eq_true', Bool.eq_false_iff, ne_eq,
    contains_iff_mem]
  refine ⟨hnamed, fun hstale => ?_⟩
  obtain ⟨session, startedAt, hsession, hstart, hold⟩ := stale_record hstale
  exact absurd (hyoung session startedAt hsession hstart) (Nat.not_le.mpr hold)

end Store

end Chainloop.Trace
