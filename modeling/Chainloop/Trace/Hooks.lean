import Chainloop.Trace.Store

namespace Chainloop.Trace

open Go Option

def LineCounts.missing (c present : LineCounts) : List String :=
  (c.entries.flatMap fun e =>
    List.replicate (e.2 - LineCounts.count present e.1) e.1).insertionSort (· ≤ ·)

-- The lines of a list that the counts hold, those that they do not, and what is left.
def LineCounts.takeLines (c : LineCounts) : List String → List String × List String × LineCounts
  | [] => ([], [], c)
  | fp :: rest =>
    let r := takeLines (LineCounts.take c fp).2 rest
    if (LineCounts.take c fp).1 then (fp :: r.1, r.2) else (r.1, fp :: r.2.1, r.2.2)

structure Edit where
  changed : Bool
  ranges : List LineRange
  lines : LineSet
  addedCount : Nat
  removedCount : Nat
deriving DecidableEq

def replacedLines (o : Option OpenLines) (current : List String) : LineSet :=
  match o with
  | none => ⟨[], []⟩
  | some o => ⟨LineCounts.missing o.added (LineCounts.add .empty current), []⟩

-- The diff of a command holds again the open lines of the session.
def dropOpen (edit : Edit) (o : Option OpenLines) : Edit :=
  match o with
  | none => edit
  | some o =>
    let added := (LineCounts.takeLines o.added edit.lines.added).2.1
    let removed := (LineCounts.takeLines o.removed edit.lines.removed).2.1
    { edit with
      lines := ⟨added, removed⟩
      addedCount := edit.addedCount - (edit.lines.added.length - added.length)
      removedCount := edit.removedCount - (edit.lines.removed.length - removed.length) }

def settleCommit (o : Option OpenLines) (committed : LineSet) (worktree : List String) (clean : Bool) :
    LineSet :=
  match o with
  | none => ⟨[], []⟩
  | some o =>
    let added := LineCounts.takeLines o.added committed.added
    let removed := LineCounts.takeLines o.removed committed.removed
    if clean then
      ⟨added.1 ++ LineCounts.missing added.2.2 .empty, removed.1 ++ LineCounts.missing removed.2.2 .empty⟩
    else ⟨added.1 ++ LineCounts.missing added.2.2 (LineCounts.add .empty worktree), removed.1⟩

-- The entry of an edit, of lines closed by others, and of a commit.
def editEntry (sessionID file : String) (edit : Edit) (now : Nat) : LedgerEntry :=
  ⟨sessionID, file, edit.ranges, some now, "", 0, some edit.lines, edit.addedCount, edit.removedCount,
    none⟩

def settleEntry (sessionID file : String) (lines : LineSet) (now : Nat) : LedgerEntry :=
  ⟨sessionID, file, [], some now, "", 0, none, 0, 0, some lines⟩

def markerEntry (sessionID sha file : String) (edit : PendingEdit) (set : LineSet) : LedgerEntry :=
  ⟨sessionID, file, [], some edit.editedAt, sha, edit.seq, none, 0, 0, some set⟩

-- A commit as the commit-msg and the post-commit hook see it. The lines of its files and of
-- the worktree are fingerprints.
structure Commit where
  sha : String
  text : String
  mergeInProgress : Bool
  isMerge : Bool
  authorDate : Option String
  headAuthorTime : Option Int
  headMessage : Except GoError String
  stagedFiles : Except GoError (List String)
  files : List String
  lines : Map String LineSet
  worktree : Map String (List String)
  clean : String → Bool
  timestamp : String
  now : Nat

-- A push: what git, the scan for replaced lines and the attestation answer.
structure PushRun where
  now : Nat
  allowEmpty : Bool
  branchSHAs : Option (List String)
  isMergeCommit : String → Option Bool
  replaced : String → Option (Map String (Map String (List String)))
  affected : Bool
  evidence : String → Bool
  attested : Bool
  reachable : Option (List String)

namespace Store

variable {sha256 : String → List UInt8}

def recordEdit (σ : Store sha256) (sessionID file : String) (edit : Edit) (now : Nat) :
    Store sha256 :=
  σ.appendAILineEntries sessionID [editEntry sessionID file edit now] (List.forall_mem_singleton.mpr rfl)

def settleLines (σ : Store sha256) (sessionID file : String) (lines : LineSet) (now : Nat) :
    Store sha256 :=
  if lines.added = [] ∧ lines.removed = [] then σ
  else σ.appendAILineEntries sessionID [settleEntry sessionID file lines now]
    (List.forall_mem_singleton.mpr rfl)

-- Lines that others changed since the last edit close before this edit records its own.
def recordFileEdit (σ : Store sha256) (sessionID file : String) (before : List String) (edit : Edit)
    (now : Nat) : Store sha256 :=
  let replaced := replacedLines ((σ.attribution sessionID).opened.get? file) before
  let settled := σ.settleLines sessionID file replaced now
  if edit.changed then settled.recordEdit sessionID file edit now else settled

def recordRootChanges (σ : Store sha256) (sessionID : String) (edits : List (String × Edit))
    (now : Nat) : Store sha256 :=
  edits.foldl (fun next e =>
    next.recordEdit sessionID e.1 (dropOpen e.2 ((σ.attribution sessionID).opened.get? e.1)) now) σ

def ensureSessionTracked (σ : Store sha256) (sessionID : String) (now : Nat) : Store sha256 :=
  if (σ.sessions.get? (sanitizeID sha256 sessionID)).isSome then σ
  else σ.saveSessionRecord ⟨sessionID, true, some (now / second)⟩

def setSessionActive (σ : Store sha256) (sessionID : String) (active : Bool) : Store sha256 :=
  match σ.loadSessionRecord sessionID with
  | none => σ
  | some rec => if rec.active = active then σ else σ.saveSessionRecord { rec with active }

def markers (pending : Map String PendingEdit) (sessionID sha : String)
    (settled : Map String LineSet) : List LedgerEntry :=
  (settled.keys.insertionSort (· ≤ ·)).filterMap fun file => do
    let edit ← pending.get? file
    let set ← settled.get? file
    return markerEntry sessionID sha file edit set

theorem markers_sessionID :
    ∀ e ∈ markers pending sessionID sha settled, e.sessionID = sessionID := by
  intro e he
  obtain ⟨file, _, hfile⟩ := List.mem_filterMap.mp he
  simp only [bind_eq_bind, bind_eq_some_iff, pure_def, some.injEq] at hfile
  obtain ⟨edit, _, set, _, rfl⟩ := hfile
  rfl

def markCommitted (σ : Store sha256) (sessionID sha : String) (settled : Map String LineSet) :
    Store sha256 :=
  if sha = "" then σ
  else σ.appendAILineEntries sessionID
    (markers (σ.attribution sessionID).pending sessionID sha settled) markers_sessionID

end Store

def Commit.settled (c : Commit) (attr : AILineAttribution) : Map String LineSet :=
  .ofList ((c.files.filter fun path => (attr.pending.get? path).isSome).map fun path =>
    (path, settleCommit (attr.opened.get? path) (c.lines.getD path ⟨[], []⟩)
      (c.worktree.getD path []) (c.clean path)))

namespace Store

variable {sha256 : String → List UInt8}

def settleCommittedLines (σ : Store sha256) (c : Commit) (sessionIDs : List String) : Store sha256 :=
  if c.files = [] then σ
  else sessionIDs.foldl (fun σ id => σ.markCommitted id c.sha (c.settled (σ.attribution id))) σ

def commitMsg (σ : Store sha256) (c : Commit) : String :=
  handleCommitMsg ⟨c.mergeInProgress, c.authorDate, c.headAuthorTime, c.headMessage,
    .ok σ.attributions, c.stagedFiles⟩ c.text

def commitSessions (σ : Store sha256) (c : Commit) : List String :=
  postCommitSessions (σ.commitMsg c) σ.attributions c.files

-- A merge commit is not recorded.
def handlePostCommit (σ : Store sha256) (c : Commit) : Store sha256 :=
  if c.isMerge then σ
  else
    let sessionIDs := σ.commitSessions c
    let saved := σ.saveCommitRecord ⟨c.sha, σ.commitMsg c, sessionIDs, c.timestamp, false, .empty⟩
    saved.settleCommittedLines c sessionIDs

def commitRecord (σ : Store sha256) (sha : String) : Option CommitRecord := (σ.commits.get? sha).join

-- The sessions of the commits that were rewritten to the given one.
def inherited (σ : Store sha256) (pairs : List (String × String)) (sha : String) : List String :=
  (pairs.filter fun p => p.2 = sha).flatMap fun p =>
    ((σ.commitRecord p.1).map CommitRecord.sessionIDs).getD []

def rewritten (σ : Store sha256) (pairs : List (String × String)) : List CommitRecord :=
  (pairs.map Prod.snd).dedup.filterMap fun sha =>
    if σ.inherited pairs sha = [] then none
    else (σ.commitRecord sha).bind fun rec =>
      let merged := mergeSessionIDs rec.sessionIDs (σ.inherited pairs sha)
      if merged.length = rec.sessionIDs.length then none else some { rec with sessionIDs := merged }

def handlePostRewrite (σ : Store sha256) (pairs : List (String × String)) : Store sha256 :=
  σ.saveCommitRecords (σ.rewritten pairs)

def markTracked (σ : Store sha256) (recs : List CommitRecord) : Store sha256 :=
  σ.saveCommitRecords ((recs.filter fun rec => !rec.tracked).map fun rec => { rec with tracked := true })

end Store

namespace PushRun

variable {sha256 : String → List UInt8} (p : PushRun)

def branchCommits (σ : Store sha256) : List CommitRecord :=
  match p.branchSHAs with
  | none => σ.loadAllCommitRecords
  | some branch => σ.loadAllCommitRecords.filter fun rec =>
    branch.contains rec.sha && p.isMergeCommit rec.sha == some false

-- A new commit in no session joins those whose lines it replaced.
def join (rec : CommitRecord) : CommitRecord :=
  if rec.tracked = true ∨ rec.sessionIDs ≠ [] then rec
  else match p.replaced rec.sha with
    | none => rec
    | some joined => { rec with joined }

-- A new commit in no session that the scan could not read.
def retry (rec : CommitRecord) : Bool :=
  !rec.tracked && (p.replaced rec.sha).isNone && rec.sessionIDs.isEmpty

-- The sessions to send: those of the commits, or, without one, the active sessions.
def sessions (σ : Store sha256) (aiCommits : List CommitRecord) : List String :=
  if aiCommits = [] ∧ p.allowEmpty = true then
    ((σ.loadAllSessionRecords.entries.map Prod.snd).filter fun rec => rec.active).map fun rec =>
      rec.sessionID
  else aiCommits.flatMap fun rec => rec.sessionIDs

def scanned (σ : Store sha256) : List CommitRecord := (p.branchCommits σ).map p.join

def aiCommits (σ : Store sha256) : List CommitRecord :=
  (p.scanned σ).filter fun rec => !rec.allSessionIDs.isEmpty

-- No commit of a session, or all of them sent before.
def nothingNew (σ : Store sha256) : Bool :=
  let untracked := (p.aiCommits σ).filter fun rec => !rec.tracked && !p.retry rec
  ((p.aiCommits σ).isEmpty || (untracked.isEmpty && !p.affected)) && !p.allowEmpty

-- Some session has evidence, and it was sent.
def sent (σ : Store sha256) : Bool := (p.sessions σ (p.aiCommits σ)).any p.evidence && p.attested

end PushRun

namespace Store

variable {sha256 : String → List UInt8}

def saveJoined (σ : Store sha256) (p : PushRun) : Store sha256 :=
  σ.saveCommitRecords (((p.branchCommits σ).filter fun rec => p.join rec ≠ rec).map p.join)

def collect (σ : Store sha256) (p : PushRun) : Store sha256 :=
  match p.reachable with
  | none => σ
  | some liveSHAs => σ.gcOrphans liveSHAs p.now

-- With nothing new, only the commits in no session are tracked. The commits that the scan
-- could not read never are.
def runTracePush (σ : Store sha256) (p : PushRun) : Store sha256 :=
  let scanned := (p.scanned σ).filter fun rec => !p.retry rec
  if p.nothingNew σ then
    (σ.saveJoined p).markTracked (scanned.filter fun rec => rec.allSessionIDs.isEmpty)
  else if p.sent σ then ((σ.saveJoined p).markTracked scanned).collect p
  else σ.saveJoined p

end Store

-- What runs a hook: an agent session, a commit, a rewrite of commits or a push.
inductive Event where
  | sessionStart (sessionID : String) (now : Nat)
  | preToolUse (sessionID : String) (now : Nat)
  | fileEdit (sessionID file : String) (before : List String) (edit : Edit) (now : Nat)
  | command (sessionID : String) (edits : List (String × Edit)) (now : Nat)
  | sessionEnd (sessionID : String) (now : Nat)
  | commit (c : Commit)
  | rewrite (pairs : List (String × String)) (now : Nat)
  | push (p : PushRun)

def Event.now : Event → Nat
  | .sessionStart _ now => now
  | .preToolUse _ now => now
  | .fileEdit _ _ _ _ now => now
  | .command _ _ now => now
  | .sessionEnd _ now => now
  | .commit c => c.now
  | .rewrite _ now => now
  | .push p => p.now

namespace Store

variable {sha256 : String → List UInt8}

-- The agent hooks drop an input without a valid session ID.
def agentHook (σ : Store sha256) (sessionID : String) (hook : Store sha256 → Store sha256) :
    Store sha256 :=
  if validSessionID sessionID then hook σ else σ

def step (σ : Store sha256) : Event → Store sha256
  | .sessionStart id now => σ.agentHook id fun σ => (σ.ensureSessionTracked id now).setSessionActive id true
  | .preToolUse id now => σ.agentHook id fun σ => σ.ensureSessionTracked id now
  | .fileEdit id file before edit now =>
    σ.agentHook id fun σ => (σ.ensureSessionTracked id now).recordFileEdit id file before edit now
  | .command id edits now =>
    σ.agentHook id fun σ => (σ.ensureSessionTracked id now).recordRootChanges id edits now
  | .sessionEnd id _ => σ.agentHook id fun σ => σ.setSessionActive id false
  | .commit c => σ.handlePostCommit c
  | .rewrite pairs _ => σ.handlePostRewrite pairs
  | .push p => σ.runTracePush p

def run (σ : Store sha256) (events : List Event) : Store sha256 := events.foldl step σ

end Store

end Chainloop.Trace
