import Chainloop.Trace.Hooks

namespace Chainloop.Trace

open Go List Option Map Nat

variable {file id : String} {now start : Nat} {c : Commit} {ev : Event} {p : PushRun}

variable {sha256 : String → List UInt8}

def Store.Grows (name : String) (P : LedgerEntry → Prop) (σ σ' : Store sha256) : Prop :=
  ∃ new, σ'.ledger name = σ.ledger name ++ new ∧ ∀ e ∈ new, P e

namespace Store

variable {σ σ' σ'' : Store sha256} {name : String} {P : LedgerEntry → Prop}

theorem Grows.of_eq (h : σ'.aiLines = σ.aiLines) : Grows name P σ σ' :=
  ⟨[], by simp [ledger, h], by simp⟩

theorem Grows.refl : Grows name P σ σ := .of_eq rfl

theorem Grows.trans (h : Grows name P σ σ') (h' : Grows name P σ' σ'') : Grows name P σ σ'' := by
  obtain ⟨new, hnew, hP⟩ := h
  obtain ⟨new', hnew', hP'⟩ := h'
  refine ⟨new ++ new', by rw [hnew', hnew, append_assoc], fun e he => ?_⟩
  exact (mem_append.mp he).elim (hP e) (hP' e)

theorem Grows.foldl {α : Type} {f : Store sha256 → α → Store sha256} {l : List α}
    (h : ∀ σ, ∀ x ∈ l, Grows name P σ (f σ x)) (σ : Store sha256) :
    Grows name P σ (l.foldl f σ) := by
  induction l generalizing σ with
  | nil => exact .refl
  | cons x rest ih =>
    have hfirst := h σ x mem_cons_self
    exact hfirst.trans (ih (fun σ y hy => h σ y (mem_cons_of_mem _ hy)) (f σ x))

theorem Grows.agentHook {hook : Store sha256 → Store sha256}
    (h : validSessionID id = true → Grows name P σ (hook σ)) :
    Grows name P σ (σ.agentHook id hook) := by
  unfold Store.agentHook
  split_ifs with hvalid
  · exact h hvalid
  · exact .refl

theorem grows_append {entries : List LedgerEntry}
    {hentries : ∀ e ∈ entries, e.sessionID = id} (h : sanitizeID sha256 id = name → ∀ e ∈ entries, P e) :
    Grows name P σ (σ.appendAILineEntries id entries hentries) := by
  unfold appendAILineEntries
  split_ifs
  · exact .refl
  · by_cases hname : sanitizeID sha256 id = name
    · refine ⟨entries, ?_, h hname⟩
      rw [← hname]
      simp [ledger, Map.getD]
    · refine ⟨[], ?_, by simp⟩
      have hne : name ≠ sanitizeID sha256 id := fun h => hname h.symm
      simp [ledger, Map.getD, Map.get?_set_ne _ _ hne]

@[simp] theorem sessions_append {entries : List LedgerEntry}
    {hentries : ∀ e ∈ entries, e.sessionID = id} :
    (σ.appendAILineEntries id entries hentries).sessions = σ.sessions := by
  unfold appendAILineEntries
  split_ifs <;> rfl

@[simp] theorem aiLines_saveCommitRecords (recs : List CommitRecord) :
    (σ.saveCommitRecords recs).aiLines = σ.aiLines := by
  induction recs generalizing σ with
  | nil => rfl
  | cons rec rest ih => exact ih

@[simp] theorem sessions_saveCommitRecords (recs : List CommitRecord) :
    (σ.saveCommitRecords recs).sessions = σ.sessions := by
  induction recs generalizing σ with
  | nil => rfl
  | cons rec rest ih => exact ih

@[simp] theorem aiLines_ensureSessionTracked (id : String) (now : Nat) :
    (σ.ensureSessionTracked id now).aiLines = σ.aiLines := by
  unfold ensureSessionTracked
  split_ifs <;> rfl

@[simp] theorem aiLines_setSessionActive (id : String) (active : Bool) :
    (σ.setSessionActive id active).aiLines = σ.aiLines := by
  unfold setSessionActive
  split
  · rfl
  · split_ifs <;> rfl

theorem grows_recordFileEdit {before : List String}
    (h : ∀ e : LedgerEntry, e.sessionID = id → e.file = file → sanitizeID sha256 id = name → P e) :
    Grows name P σ (σ.recordFileEdit id file before edit now) := by
  have hsettle (lines) : Grows name P σ (σ.settleLines id file lines now) := by
    unfold settleLines
    split_ifs
    · exact .refl
    · refine grows_append fun hname e he => ?_
      rw [mem_singleton.mp he]
      exact h _ rfl rfl hname
  unfold recordFileEdit
  split_ifs
  · refine (hsettle _).trans (grows_append fun hname e he => ?_)
    rw [mem_singleton.mp he]
    exact h _ rfl rfl hname
  · exact hsettle _

theorem grows_recordRootChanges {edits : List (String × Edit)}
    (h : ∀ e : LedgerEntry, e.sessionID = id → e.file ∈ edits.map Prod.fst →
      sanitizeID sha256 id = name → P e) :
    Grows name P σ (σ.recordRootChanges id edits now) := by
  refine Grows.foldl (fun next x hx => ?_) σ
  refine grows_append fun hname e he => ?_
  rw [mem_singleton.mp he]
  exact h _ rfl (mem_map_of_mem hx) hname

end Store

theorem Commit.mem_files_of_settled {attr : AILineAttribution}
    {set : LineSet} (h : (c.settled attr).get? file = some set) : file ∈ c.files := by
  have hentry := (get?_eq_some_iff _ _ _).mp h
  rcases mem_foldl_set_entries hentry with ⟨pair, hpair, he⟩ | hentry
  · obtain ⟨path, hpath, rfl⟩ := mem_map.mp hpair
    cases he
    exact (mem_filter.mp hpath).1
  · cases hentry

namespace Store

variable {σ : Store sha256} {name : String} {P : LedgerEntry → Prop}

theorem grows_handlePostCommit
    (h : ∀ e : LedgerEntry, e.sessionID ∈ σ.commitSessions c → e.file ∈ c.files →
      sanitizeID sha256 e.sessionID = name → P e) :
    Grows name P σ (σ.handlePostCommit c) := by
  unfold handlePostCommit
  split_ifs
  · exact .refl
  · dsimp only
    unfold settleCommittedLines
    split_ifs
    · exact .refl
    · refine Grows.foldl (fun next id hid => ?_) _
      unfold markCommitted
      split_ifs
      · exact .refl
      · refine grows_append fun hname e he => ?_
        have hsession := markers_sessionID e he
        obtain ⟨file, _, hfile⟩ := mem_filterMap.mp he
        simp only [Option.bind_eq_bind, Option.bind_eq_some_iff, Option.pure_def,
          Option.some.injEq] at hfile
        obtain ⟨edit, _, set, hset, rfl⟩ := hfile
        refine h _ ?_ (Commit.mem_files_of_settled hset) ?_
        · rw [hsession]
          exact hid
        · rw [hsession]
          exact hname

-- The record of a session, if it has one, starts no earlier than the given second.
def StartsSince (σ : Store sha256) (name : String) (start : Nat) : Prop :=
  ∀ rec startedAt, σ.sessions.get? name = some (some rec) → rec.startedAt = some startedAt →
    start ≤ startedAt

theorem StartsSince.saveSessionRecord {rec : SessionRecord} (h : σ.StartsSince name start)
    (hrec : sanitizeID sha256 rec.sessionID = name → ∀ t, rec.startedAt = some t → start ≤ t) :
    (σ.saveSessionRecord rec).StartsSince name start := by
  intro found t hfound ht
  simp only [Store.saveSessionRecord, get?_set] at hfound
  split_ifs at hfound with hname
  · cases hfound
    exact hrec hname.symm t ht
  · exact h found t hfound ht

section
variable (h : σ.StartsSince name start)
include h

theorem StartsSince.ensureSessionTracked (hnow : start * second ≤ now) (id : String) :
    (σ.ensureSessionTracked id now).StartsSince name start := by
  unfold Store.ensureSessionTracked
  split_ifs
  · exact h
  · refine h.saveSessionRecord fun _ t ht => ?_
    cases ht
    rw [le_div_iff_mul_le (by decide)]
    exact hnow

theorem StartsSince.setSessionActive (id : String)
    (active : Bool) : (σ.setSessionActive id active).StartsSince name start := by
  unfold Store.setSessionActive
  split
  · exact h
  · rename_i rec hload
    split_ifs
    · exact h
    · refine h.saveSessionRecord fun hname t ht => ?_
      have hget : σ.sessions.get? (sanitizeID sha256 id) = some (some rec) := by
        simpa [loadSessionRecord, join_eq_some_iff] using hload
      have hsame : sanitizeID sha256 id = name := by
        rw [← hname]
        exact (σ.sessions_named _ rec hget).symm
      rw [hsame] at hget
      exact h rec t hget ht

theorem StartsSince.gcOrphans : (σ.gcOrphans liveSHAs now).StartsSince name start := by
  unfold Store.gcOrphans
  split_ifs
  · exact h
  · exact fun rec t hget ht => h rec t ((get?_filter _ _ _ _).mp hget).1 ht

end

theorem sessions_recordFileEdit {before : List String} {edit : Edit} :
    (σ.recordFileEdit id file before edit now).sessions = σ.sessions := by
  have hsettle (lines) : (σ.settleLines id file lines now).sessions = σ.sessions := by
    unfold settleLines
    split_ifs
    · rfl
    · exact sessions_append
  unfold recordFileEdit
  split_ifs
  · exact sessions_append.trans (hsettle _)
  · exact hsettle _

theorem sessions_foldl {α : Type} {f : Store sha256 → α → Store sha256}
    (h : ∀ σ x, (f σ x).sessions = σ.sessions) (l : List α) :
    (l.foldl f σ).sessions = σ.sessions := by
  induction l generalizing σ with
  | nil => rfl
  | cons x rest ih => exact ih.trans (h σ x)

theorem sessions_handlePostCommit : (σ.handlePostCommit c).sessions = σ.sessions := by
  unfold handlePostCommit settleCommittedLines
  split_ifs
  · rfl
  · rfl
  · refine (sessions_foldl (fun σ id => ?_) _).trans rfl
    unfold markCommitted
    split_ifs <;> simp

theorem StartsSince.of_eq {σ' : Store sha256} (h : σ.StartsSince name start)
    (heq : σ'.sessions = σ.sessions) : σ'.StartsSince name start := by
  unfold StartsSince
  rw [heq]
  exact h

theorem StartsSince.runTracePush (h : σ.StartsSince name start) (p : PushRun) :
    (σ.runTracePush p).StartsSince name start := by
  have hjoined : (σ.saveJoined p).StartsSince name start := h.of_eq (sessions_saveCommitRecords _)
  have htracked : ∀ recs, ((σ.saveJoined p).markTracked recs).StartsSince name start :=
    fun recs => hjoined.of_eq (sessions_saveCommitRecords _)
  unfold Store.runTracePush
  split_ifs
  · exact htracked _
  · unfold collect
    split
    · exact htracked _
    · exact (htracked _).gcOrphans
  · exact hjoined

theorem StartsSince.step (h : σ.StartsSince name start)
    (hnow : start * second ≤ ev.now) : (σ.step ev).StartsSince name start := by
  have hhook : ∀ (id : String) (hook : Store sha256 → Store sha256),
      (hook σ).StartsSince name start → (σ.agentHook id hook).StartsSince name start := by
    intro id hook hhook
    unfold agentHook
    split_ifs
    · exact hhook
    · exact h
  cases ev with
  | sessionStart id now => exact hhook id _ ((h.ensureSessionTracked hnow id).setSessionActive id true)
  | preToolUse id now => exact hhook id _ (h.ensureSessionTracked hnow id)
  | fileEdit id file before edit now =>
    exact hhook id _ ((h.ensureSessionTracked hnow id).of_eq sessions_recordFileEdit)
  | command id edits now =>
    refine hhook id _ ((h.ensureSessionTracked hnow id).of_eq ?_)
    exact sessions_foldl (fun σ e => sessions_append) edits
  | sessionEnd id now => exact hhook id _ (h.setSessionActive id false)
  | commit c => exact h.of_eq sessions_handlePostCommit
  | rewrite pairs now => exact h.of_eq (sessions_saveCommitRecords _)
  | push p => exact h.runTracePush p

end Store

-- A record that names the session whatever the scan of the push finds.
def CommitRecord.Names (s : String) (rec : CommitRecord) : Prop :=
  s ∈ rec.sessionIDs ∨ (rec.tracked = true ∧ s ∈ rec.joined.keys)

theorem CommitRecord.Names.mem {rec : CommitRecord} (h : rec.Names s) : s ∈ rec.allSessionIDs := by
  rw [allSessionIDs, mem_eraseDups, mem_append]
  exact h.imp_right And.right

theorem PushRun.join_of_names {rec : CommitRecord} (h : rec.Names s) : p.join rec = rec := by
  refine if_pos ?_
  rcases h with h | h
  · exact .inr (ne_nil_of_mem h)
  · exact .inl h.1

@[simp] theorem PushRun.sha_join (p : PushRun) (rec : CommitRecord) : (p.join rec).sha = rec.sha := by
  unfold PushRun.join
  split_ifs
  · rfl
  · cases p.replaced rec.sha <;> rfl

namespace Store

variable {σ : Store sha256}

theorem saveCommitRecords_keeps {Q : CommitRecord → Prop}
    (h : ∃ rec, σ.commits.get? sha = some (some rec) ∧ Q rec)
    (hrecs : ∀ rec ∈ recs, rec.sha = sha → Q rec) :
    ∃ rec, (σ.saveCommitRecords recs).commits.get? sha = some (some rec) ∧ Q rec := by
  induction recs generalizing σ with
  | nil => exact h
  | cons rec rest ih =>
    refine ih ?_ fun r hr => hrecs r (mem_cons_of_mem _ hr)
    by_cases hsha : sha = rec.sha
    · refine ⟨rec, ?_, hrecs rec mem_cons_self hsha.symm⟩
      rw [hsha]
      exact get?_set_self _ _ _
    · obtain ⟨old, hold, hQ⟩ := h
      exact ⟨old, (get?_set_ne _ _ hsha).trans hold, hQ⟩

theorem commits_of_branchCommits {rec : CommitRecord} (h : rec ∈ p.branchCommits σ) :
    σ.commits.get? rec.sha = some (some rec) := by
  have hload : rec ∈ σ.loadAllCommitRecords := by
    unfold PushRun.branchCommits at h
    split at h
    · exact h
    · exact (mem_filter.mp h).1
  obtain ⟨⟨name, found⟩, hfound, hrec⟩ := mem_filterMap.mp hload
  subst hrec
  have hget := (get?_eq_some_iff _ _ _).mpr hfound
  rw [σ.commits_named name rec hget]
  exact hget

theorem names_of_push {rec : CommitRecord}
    (hrec : σ.commits.get? rec.sha = some (some rec)) (hs : rec.Names s) :
    ∃ found, ((σ.saveJoined p).markTracked ((p.scanned σ).filter fun rec => !p.retry rec)).commits.get?
      rec.sha = some (some found) ∧ found.Names s := by
  have hsame : ∀ r ∈ p.branchCommits σ, r.sha = rec.sha → r = rec := by
    intro r hr hsha
    have hget := commits_of_branchCommits hr
    rw [hsha, hrec] at hget
    cases hget
    rfl
  refine saveCommitRecords_keeps (saveCommitRecords_keeps ⟨rec, hrec, hs⟩ ?_) ?_
  · intro r hr hsha
    obtain ⟨old, hold, rfl⟩ := mem_map.mp hr
    rw [PushRun.sha_join] at hsha
    rw [hsame old (mem_filter.mp hold).1 hsha, PushRun.join_of_names hs]
    exact hs
  · intro r hr hsha
    obtain ⟨tracked, htracked, rfl⟩ := mem_map.mp hr
    obtain ⟨old, hold, rfl⟩ := mem_map.mp (mem_filter.mp (mem_filter.mp htracked).1).1
    rw [PushRun.sha_join] at hsha
    rw [hsame old hold hsha, PushRun.join_of_names hs]
    exact hs.imp_right fun h => ⟨rfl, h.2⟩

-- The ledger of a file belongs to the session whose ID has that file name.
theorem sanitizeID_attributions {attr : AILineAttribution} (h : attr ∈ σ.attributions) :
    attr = σ.attribution (sanitizeID sha256 attr.sessionID) := by
  obtain ⟨name, hname, rfl⟩ := mem_map.mp (mem_filter.mp h).1
  rw [Map.mem_keys_iff_isSome] at hname
  obtain ⟨entries, hentries⟩ := isSome_iff_exists.mp hname
  have hnamed := σ.aiLines_named name entries hentries
  have hself : sanitizeID sha256 name = name := by
    rw [← hnamed]
    exact sanitizeID_sanitizeID _
  have hload : σ.attribution name = loadAILineAttribution name entries := by
    simp [attribution, hself, ledger, Map.getD, hentries]
  rw [hload, hnamed, ← hload]

theorem commitSessions_cases (h : id ∈ σ.commitSessions c) :
    validSessionID id = true ∨ (σ.attribution (sanitizeID sha256 id)).sessionID = id := by
  unfold commitSessions postCommitSessions at h
  dsimp only at h
  split_ifs at h
  · obtain ⟨attr, hattr, rfl⟩ := mem_attrs_of_match h
    exact .inr (congrArg AILineAttribution.sessionID (sanitizeID_attributions hattr)).symm
  · rw [parseSessionIDsFromTrailer, mem_sortedUnique] at h
    obtain ⟨line, _, hline⟩ := mem_flatMap.mp h
    unfold trailerLine at hline
    split at hline
    · cases hline
    · exact .inl (mem_filter.mp hline).2

end Store

def Event.Takes (f : String) : Event → Prop
  | .commit c => f ∈ c.files
  | _ => False

def Event.Edits (s f : String) : Event → Prop
  | .fileEdit id file _ _ _ => id = s ∧ file = f
  | .command id edits _ => id = s ∧ f ∈ edits.map Prod.fst
  | _ => False

-- A push that collects finds a record of a reachable commit that names the session.
def Event.Spares (s : String) (σ : Store sha256) : Event → Prop
  | .push p => ∀ liveSHAs, p.reachable = some liveSHAs → liveSHAs ≠ [] →
      ∃ rec, σ.commits.get? rec.sha = some (some rec) ∧ rec.sha ∈ liveSHAs ∧ rec.Names s
  | _ => True

def Spared (s : String) : Store sha256 → List Event → Prop
  | _, [] => True
  | σ, ev :: rest => ev.Spares s σ ∧ Spared s (σ.step ev) rest

-- An entry that the event may write for the session of a file name.
def Event.Writes (σ : Store sha256) (ev : Event) (e : LedgerEntry) : Prop :=
  (validSessionID e.sessionID = true ∨
    (σ.attribution (sanitizeID sha256 e.sessionID)).sessionID = e.sessionID) ∧
  (ev.Edits e.sessionID e.file ∨ ev.Takes e.file)

namespace Store

variable {σ : Store sha256}

theorem ledger_runTracePush (hspared : (Event.push p).Spares s σ)
    (hsince : σ.StartsSince (sanitizeID sha256 s) start)
    (hage : p.now ≤ start * second + staleSessionRetention) :
    (σ.runTracePush p).ledger (sanitizeID sha256 s) = σ.ledger (sanitizeID sha256 s) := by
  have hjoined : (σ.saveJoined p).ledger = σ.ledger := by
    funext name
    simp [ledger, saveJoined]
  have htracked (recs) : ((σ.saveJoined p).markTracked recs).ledger = σ.ledger := by
    funext name
    simp [ledger, saveJoined, markTracked]
  unfold runTracePush
  split_ifs
  · rw [htracked]
  · unfold collect
    split
    · rw [htracked]
    · rename_i liveSHAs hreach
      rw [ledger_gcOrphans_of_keeps, htracked]
      intro hlive
      obtain ⟨rec, hrec, hmem, hnames⟩ := hspared liveSHAs hreach hlive
      obtain ⟨found, hfound, hs⟩ := names_of_push (p := p) hrec hnames
      have hsha := Store.commits_named _ _ _ hfound
      rw [← hsha] at hfound hmem
      refine keeps_of_named hfound hmem hs.mem fun session t hsession ht => ?_
      have hsessions : σ.sessions.get? (sanitizeID sha256 s) = some (some session) := by
        simpa [markTracked, saveJoined] using hsession
      have hstart := hsince session t hsessions ht
      have hmul : start * second ≤ t * second := mul_le_mul_right _ hstart
      omega
  · rw [hjoined]

theorem grows_hook (h : ∀ p, ev ≠ .push p) (name : String) :
    Grows name (fun e => sanitizeID sha256 e.sessionID = name ∧ ev.Writes σ e) σ (σ.step ev) := by
  cases ev with
  | sessionStart id now => exact .agentHook fun _ => .of_eq (by simp)
  | preToolUse id now => exact .agentHook fun _ => .of_eq (by simp)
  | fileEdit id file before edit now =>
    refine .agentHook fun hvalid => ?_
    refine Grows.trans (.of_eq (aiLines_ensureSessionTracked id now)) (grows_recordFileEdit ?_)
    rintro e rfl rfl hname
    exact ⟨hname, .inl hvalid, .inl ⟨rfl, rfl⟩⟩
  | command id edits now =>
    refine .agentHook fun hvalid => ?_
    refine Grows.trans (.of_eq (aiLines_ensureSessionTracked id now)) (grows_recordRootChanges ?_)
    rintro e rfl hfile hname
    exact ⟨hname, .inl hvalid, .inl ⟨rfl, hfile⟩⟩
  | sessionEnd id now => exact .agentHook fun _ => .of_eq (by simp)
  | commit c =>
    refine grows_handlePostCommit fun e hid hfile hname => ?_
    exact ⟨hname, commitSessions_cases hid, .inr hfile⟩
  | rewrite pairs now => exact .of_eq (aiLines_saveCommitRecords _)
  | push p => exact absurd rfl (h p)

theorem grows_step (hspared : ev.Spares s σ) (hsince : σ.StartsSince (sanitizeID sha256 s) start)
    (hage : ev.now ≤ start * second + staleSessionRetention) :
    Grows (sanitizeID sha256 s)
      (fun e => sanitizeID sha256 e.sessionID = sanitizeID sha256 s ∧ ev.Writes σ e) σ (σ.step ev) := by
  cases ev with
  | push p => exact ⟨[], by rw [step, ledger_runTracePush hspared hsince hage, append_nil], by simp⟩
  | _ => exact grows_hook (by simp) _

theorem ledger_runTracePush_cases (p : PushRun) (name : String) :
    (σ.runTracePush p).ledger name = σ.ledger name ∨ (σ.runTracePush p).ledger name = [] := by
  have htracked : ∀ recs, ((σ.saveJoined p).markTracked recs).ledger name = σ.ledger name := by
    simp [ledger, saveJoined, markTracked]
  unfold runTracePush
  dsimp only
  split_ifs
  · exact .inl (htracked _)
  · unfold collect
    split
    · exact .inl (htracked _)
    · rename_i liveSHAs _
      rw [← htracked ((p.scanned σ).filter fun rec => !p.retry rec)]
      generalize (σ.saveJoined p).markTracked _ = σ'
      unfold gcOrphans ledger Map.getD
      split_ifs
      · exact .inl rfl
      · dsimp only
        cases hget : (σ'.aiLines.filter fun name _ => σ'.keeps liveSHAs p.now name).get? name with
        | none => exact .inr rfl
        | some entries =>
          rw [((get?_filter _ _ _ _).mp hget).1]
          exact .inl rfl
  · exact .inl (by simp [ledger, saveJoined])

def owner (σ : Store sha256) (name : String) : String :=
  (loadAILineAttribution name (σ.ledger name)).sessionID

def OwnersValid (σ : Store sha256) : Prop :=
  ∀ name, Element name → validSessionID (σ.owner name) = true

end Store

theorem Element.valid (h : Element name) : validSessionID name = true := by
  simp [validSessionID, h.ne_empty, h.not_here, baseName_of_not_mem h.ne_empty h.no_slash]

namespace Store

variable {σ : Store sha256}

theorem OwnersValid.step (h : σ.OwnersValid) : (σ.step ev).OwnersValid := by
  have hhook : (∀ p, ev ≠ .push p) → (σ.step ev).OwnersValid := by
    intro hev name hname
    obtain ⟨new, hnew, hwrites⟩ := grows_hook (σ := σ) hev name
    unfold owner
    rw [hnew]
    refine sessionID_append (P := fun id => validSessionID id = true) (h name hname) fun e he _ => ?_
    obtain ⟨hid, hvalid | howner, _⟩ := hwrites e he
    · exact hvalid
    · rw [hid, attribution, sanitizeID_of_element hname] at howner
      rw [← howner]
      exact h name hname
  cases ev with
  | push p =>
    intro name hname
    unfold owner
    rcases ledger_runTracePush_cases (σ := σ) p name with hledger | hledger
    · rw [Store.step, hledger]
      exact h name hname
    · rw [Store.step, hledger]
      exact hname.valid
  | _ => exact hhook (by simp)

theorem ownersValid_run (events : List Event) : (empty.run events : Store sha256).OwnersValid := by
  refine foldlRecOn events Store.step (motive := OwnersValid) ?_ fun σ h ev _ => h.step
  exact fun name hname => hname.valid

theorem ledger_run (hspared : Spared s σ events)
    (hsince : σ.StartsSince (sanitizeID sha256 s) start)
    (hage : ∀ ev ∈ events, start * second ≤ ev.now ∧ ev.now ≤ start * second + staleSessionRetention) :
    σ.ledger (sanitizeID sha256 s) <+: (σ.run events).ledger (sanitizeID sha256 s) := by
  induction events generalizing σ with
  | nil => exact prefix_rfl
  | cons ev rest ih =>
    obtain ⟨hev, hrest⟩ := hspared
    have hnow := hage ev mem_cons_self
    obtain ⟨new, hnew, _⟩ := grows_step hev hsince hnow.2
    have hstep : σ.ledger (sanitizeID sha256 s) <+: (σ.step ev).ledger (sanitizeID sha256 s) := by
      rw [hnew]
      exact prefix_append _ _
    exact hstep.trans (ih hrest (hsince.step hnow.1) fun e he => hage e (mem_cons_of_mem _ he))

-- A session whose file name no other session has.
structure OwnName (sha256 : String → List UInt8) (s : String) : Prop where
  element : Element s
  ne_root : s ≠ sanitizeID sha256 "/"

theorem eq_of_sanitizeID (h : OwnName sha256 s) (hid : validSessionID id = true)
    (hname : sanitizeID sha256 id = s) : id = s := by
  by_cases hroot : id = "/"
  · rw [hroot] at hname
    exact absurd hname.symm h.ne_root
  · rw [← hname]
    exact (sanitizeID_of_element (element_of_valid hid hroot)).symm

theorem pending_run (hs : OwnName sha256 s) (hspared : Spared s σ events)
    (hsince : σ.StartsSince s start)
    (hage : ∀ ev ∈ events, start * second ≤ ev.now ∧ ev.now ≤ start * second + staleSessionRetention)
    (htakes : ∀ ev ∈ events, ¬ ev.Takes f) (hedits : ∀ ev ∈ events, ¬ ev.Edits s f)
    (howner : σ.owner s = s) :
    ((σ.run events).attribution s).pending.get? f = (σ.attribution s).pending.get? f ∧
      (σ.run events).owner s = s := by
  have hname : sanitizeID sha256 s = s := sanitizeID_of_element hs.element
  induction events generalizing σ with
  | nil => exact ⟨rfl, howner⟩
  | cons ev rest ih =>
    obtain ⟨hev, hrest⟩ := hspared
    have hnow := hage ev mem_cons_self
    rw [← hname] at hsince
    obtain ⟨new, hnew, hwrites⟩ := grows_step hev hsince hnow.2
    have hsinceStep := hsince.step hnow.1
    rw [hname] at hnew hwrites hsinceStep
    have hid (e) (he : e ∈ new) : e.sessionID = s := by
      obtain ⟨hename, hvalid | hattr, _⟩ := hwrites e he
      · exact eq_of_sanitizeID hs hvalid hename
      · rw [hename, attribution, hname] at hattr
        exact hattr.symm.trans howner
    have hfile : ∀ e ∈ new, f ≠ e.file := by
      rintro e he rfl
      obtain ⟨_, _, hedit | htake⟩ := hwrites e he
      · rw [hid e he] at hedit
        exact hedits ev mem_cons_self hedit
      · exact htakes ev mem_cons_self htake
    have hownerStep : (σ.step ev).owner s = s := by
      unfold owner
      rw [hnew]
      exact sessionID_append (P := fun id => id = s) howner fun e he _ => hid e he
    have hpending : ((σ.step ev).attribution s).pending.get? f =
        (σ.attribution s).pending.get? f := by
      unfold attribution
      rw [hname, hnew]
      exact pending_append hfile s _
    have hlater := ih hrest hsinceStep (fun e he => hage e (mem_cons_of_mem _ he))
      (fun e he => htakes e (mem_cons_of_mem _ he))
      (fun e he => hedits e (mem_cons_of_mem _ he)) hownerStep
    exact ⟨hlater.1.trans hpending, hlater.2⟩

structure Waiting (σ : Store sha256) (s f : String) (start : Nat) (edit : LedgerEntry) : Prop where
  active : ∃ rec, σ.loadSessionRecord s = some rec ∧ rec.active = true ∧ rec.startedAt = some start
  recorded : edit ∈ σ.ledger (sanitizeID sha256 s)
  edits : edit.file = f ∧ edit.consumedBy = "" ∧ edit.settled = none

-- No other session has a pending edit of the file that takes it over.
def LastEditor (σ : Store sha256) (s f : String) (pending : PendingEdit) : Prop :=
  ∀ other ∈ σ.attributions, ∀ e, other.pending.get? f = some e →
    FileOwner.supersededBy ⟨s, pending.editedAt⟩ other.sessionID e.editedAt = false

-- After the events the edit is still in the ledger, and a commit of the file is matched to
-- the session that edited it last.
structure KeepsWork (σ : Store sha256) (events : List Event) (s f : String) (edit : LedgerEntry) :
    Prop where
  recorded : edit ∈ (σ.run events).ledger (sanitizeID sha256 s)
  matched : ∀ pending files, (σ.attribution s).pending.get? f = some pending →
    (∀ ev ∈ events, ¬ ev.Edits s f) → f ∈ files → (σ.run events).LastEditor s f pending →
    s ∈ matchSessionsToFiles (σ.run events).attributions files

theorem mem_attributions (hname : sanitizeID sha256 s = s)
    (h : (σ.attribution s).pending.get? f = some pending) : σ.attribution s ∈ σ.attributions := by
  have hfile := files_of_pending h
  refine mem_filter.mpr ⟨mem_map_of_mem ?_, ?_⟩
  · rw [mem_keys_iff_isSome]
    by_contra hnone
    rw [Bool.not_eq_true, isSome_eq_false_iff, isNone_iff_eq_none] at hnone
    have hledger : σ.ledger s = [] := by simp [ledger, Map.getD, hnone]
    rw [hname, hledger] at hfile
    cases hfile
  · have hfiles : (σ.attribution s).files.entries ≠ [] := by
      intro hempty
      have hkeys : f ∈ (σ.attribution s).files.keys := hfile
      rw [Map.keys, hempty] at hkeys
      cases hkeys
    simpa [Map.size] using hfiles

end Store

theorem spared_session_keeps_work (before after : List Event) (s f : String) (start : Nat)
    (edit : LedgerEntry) (hs : validSessionID s = true)
    (hwaiting : (Store.empty.run before : Store sha256).Waiting s f start edit)
    (hage : ∀ ev ∈ after, start * second ≤ ev.now ∧ ev.now ≤ start * second + staleSessionRetention)
    (htakes : ∀ ev ∈ after, ¬ ev.Takes f)
    (hspared : Spared s (Store.empty.run before : Store sha256) after)
    (hroot : s ≠ "/" ∧ s ≠ sanitizeID sha256 "/") :
    (Store.empty.run before : Store sha256).KeepsWork after s f edit := by
  have howners : (Store.empty.run before : Store sha256).OwnersValid := Store.ownersValid_run before
  generalize (Store.empty.run before : Store sha256) = σ at hwaiting hspared howners
  have helement := element_of_valid hs hroot.1
  have hname : sanitizeID sha256 s = s := sanitizeID_of_element helement
  have hown : Store.OwnName sha256 s := ⟨helement, hroot.2⟩
  have hsince : σ.StartsSince s start := by
    obtain ⟨rec, hload, _, hstart⟩ := hwaiting.active
    rw [Store.loadSessionRecord, hname, join_eq_some_iff] at hload
    intro found t hfound ht
    rw [hload] at hfound
    cases hfound
    rw [hstart] at ht
    cases ht
    exact le_refl _
  have howner : σ.owner s = s := by
    refine Store.eq_of_sanitizeID hown (howners s helement) ?_
    have hnamed := σ.sanitizeID_owner s
    rw [hname] at hnamed
    exact hnamed
  constructor
  · have hsince' := hsince
    rw [← hname] at hsince'
    exact (Store.ledger_run hspared hsince' hage).subset hwaiting.recorded
  · intro pending files hpending hedits hf hlast
    obtain ⟨hkept, hlater⟩ := Store.pending_run hown hspared hsince hage htakes hedits howner
    rw [hpending] at hkept
    have hsession : ((σ.run after).attribution s).sessionID = s := by
      unfold Store.attribution
      rw [hname]
      exact hlater
    have hmatch := mem_matchSessionsToFiles (Store.mem_attributions hname hkept) hf hkept
      (by rw [hsession]; exact hlast)
    rwa [hsession] at hmatch

def oneLine : Edit := ⟨true, [⟨1, 1, none⟩], ⟨["line"], []⟩, 1, 0⟩

def writes (s file : String) (now : Nat) : Event := .fileEdit s file [] oneLine (now * second)

def commits (sha file : String) (now : Nat) : Event :=
  .commit
    { sha, text := "feat: new file\n", mergeInProgress := false, isMerge := false, authorDate := none
      headAuthorTime := none, headMessage := .ok "", stagedFiles := .ok [file], files := [file]
      lines := empty.set file ⟨["line"], []⟩, worktree := empty.set file ["line"]
      clean := fun _ => true, timestamp := "2026-03-28T00:00:00Z", now := now * second }

def pushes (shas : List String) (now : Nat) : Event :=
  .push
    { now := now * second, allowEmpty := false, branchSHAs := some shas
      isMergeCommit := fun _ => some false, replaced := fun _ => some .empty, affected := false
      evidence := fun _ => true, attested := true, reachable := some shas }

def noDigest : String → List UInt8 := fun _ => []

theorem pushed_session_keeps_other_file :
    (Store.empty.run [writes "s1" "b.go" 100] : Store noDigest).KeepsWork
      [writes "s1" "a.go" 101, commits "c1" "a.go" 102, pushes ["c1"] 103] "s1" "b.go"
      (editEntry "s1" "b.go" oneLine (100 * second)) := by
  refine spared_session_keeps_work _ _ "s1" "b.go" 100 _ (by decide) ⟨?_, ?_, ?_⟩ ?_ ?_ ?_ ?_
  · exact ⟨⟨"s1", true, some 100⟩, by decide +kernel, rfl, rfl⟩
  · decide +kernel
  · decide
  · simp only [forall_mem_cons]
    decide
  · simp [writes, commits, pushes, Event.Takes]
  · refine ⟨trivial, trivial, ?_, trivial⟩
    intro liveSHAs hlive _
    cases hlive
    refine ⟨⟨"c1", "feat: new file\n\nChainloop-Trace-Sessions: s1\n", ["s1"], "2026-03-28T00:00:00Z",
      false, .empty⟩, ?_, by decide, .inl (by decide)⟩
    decide +kernel
  · decide +kernel

-- The push of another session's work drops the ledger of a session with only uncommitted edits.
theorem push_drops_uncommitted_work :
    ¬ ∀ (before after : List Event) (s f : String) (start : Nat) (edit : LedgerEntry),
      validSessionID s = true →
      (Store.empty.run before : Store noDigest).Waiting s f start edit →
      (∀ ev ∈ after, start * second ≤ ev.now ∧ ev.now ≤ start * second + staleSessionRetention) →
      (∀ ev ∈ after, ¬ ev.Takes f) → (s ≠ "/" ∧ s ≠ sanitizeID noDigest "/") →
      (Store.empty.run before : Store noDigest).KeepsWork after s f edit := by
  intro h
  have hkept := h [writes "s1" "b.go" 100]
    [writes "s2" "a.go" 101, commits "c1" "a.go" 102, pushes ["c1"] 103] "s1" "b.go" 100
    (editEntry "s1" "b.go" oneLine (100 * second)) (by decide) ⟨?_, ?_, ?_⟩ ?_ ?_ ?_
  · have hdropped : ((Store.empty.run [writes "s1" "b.go" 100] : Store noDigest).run
        [writes "s2" "a.go" 101, commits "c1" "a.go" 102, pushes ["c1"] 103]).ledger
          (sanitizeID noDigest "s1") = [] := by
      decide +kernel
    have hrecorded := hkept.recorded
    rw [hdropped] at hrecorded
    cases hrecorded
  · exact ⟨⟨"s1", true, some 100⟩, by decide +kernel, rfl, rfl⟩
  · decide +kernel
  · decide
  · simp only [forall_mem_cons]
    decide
  · simp [writes, commits, pushes, Event.Takes]
  · decide +kernel

end Chainloop.Trace
