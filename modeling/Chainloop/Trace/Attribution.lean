import Chainloop.Trace.Ledger

namespace Chainloop.Trace

open Go Map

structure Hunk where
  oldStart : Nat
  removed : List String
  added : List String
deriving DecidableEq

-- The lines that one commit added to and removed from a file. The old path is set
-- when the commit renamed it.
structure FileLines where
  path : String
  oldPath : String
  added : List String
  removed : List String
  hunks : List Hunk
deriving DecidableEq

structure BlameLine where
  sha : String
  text : String
deriving DecidableEq

-- A commit of a session, or one that joined it with the lines of its replacing hunks.
structure CommitLines where
  sha : String
  sessionIDs : List String
  files : List FileLines
  joined : Option (Map String (List String))
deriving DecidableEq

def CommitLines.file (c : CommitLines) (path : String) : Option FileLines :=
  c.files.find? fun fl => fl.path == path

abbrev Tip := Map String (List BlameLine)

abbrev Ledgers := Map String AILineAttribution

structure FileSplit where
  aiAdded : Nat
  aiRemoved : Nat
  humanAdded : Nat
  humanRemoved : Nat
  ranges : List LineRange
deriving DecidableEq

def FileSplit.zero : FileSplit := ⟨0, 0, 0, 0, []⟩

def addLine (ranges : List LineRange) (n : Nat) (owner : Owner) : List LineRange :=
  match ranges.getLast? with
  | some r =>
    if r.last + 1 = n ∧ r.attribution = some owner then
      ranges.dropLast ++ [{ r with last := n }]
    else ranges ++ [⟨n, n, some owner⟩]
  | none => ranges ++ [⟨n, n, some owner⟩]

def FileSplit.count (s : FileSplit) (n : Nat) : Option Owner → FileSplit
  | none => s
  | some .ai => { s with aiAdded := s.aiAdded + 1, ranges := addLine s.ranges n .ai }
  | some .human => { s with humanAdded := s.humanAdded + 1, ranges := addLine s.ranges n .human }

-- The counts that are left of each session and file, copied on first use.
abbrev LinePool := Map (String × String) LineCounts

section Pool

variable (pick : AILineAttribution → Map String LineCounts)

def LinePool.take (p : LinePool) (l : AILineAttribution) (path fp : String) : Bool × LinePool :=
  let key := (l.sessionID, path)
  let (taken, c) := LineCounts.take ((get? p key).getD ((pick l).getD path .empty)) fp
  (taken, set p key c)

def LinePool.takeFile (p : LinePool) (l : AILineAttribution) (fl : FileLines) (fp : String) :
    Bool × LinePool :=
  match LinePool.take pick p l fl.path fp with
  | (true, p) => (true, p)
  | (false, p) => if fl.oldPath = "" then (false, p) else LinePool.take pick p l fl.oldPath fp

def LinePool.takeAny (p : LinePool) (fl : FileLines) (fp : String) :
    List AILineAttribution → Bool × LinePool
  | [] => (false, p)
  | l :: rest =>
    match LinePool.takeFile pick p l fl fp with
    | (true, p) => (true, p)
    | (false, p) => LinePool.takeAny p fl fp rest

-- The session's own ledger first, then those of the other sessions of the commit,
-- whose lines count for neither side.
def LinePool.owner (p : LinePool) (self : AILineAttribution) (others : List AILineAttribution)
    (fl : FileLines) (fp : String) : Option Owner × LinePool :=
  match LinePool.takeFile pick p self fl fp with
  | (true, p) => (some .ai, p)
  | (false, p) =>
    match LinePool.takeAny pick p fl fp others with
    | (true, p) => (none, p)
    | (false, p) => (some .human, p)

end Pool

section Enrich

-- The first eight bytes of the SHA-256 of a text, in hex.
variable (sha8 : String → String)

def fingerprint (line : String) : String :=
  sha8 (String.ofList (line.toList.filter fun c => !isSpace c))

variable (sessionID : String) (self : AILineAttribution) (ledgers : Ledgers)

def otherLedgers (ids : List String) : List AILineAttribution :=
  ids.filterMap fun id => if id = sessionID then none else ledgers.get? id

-- The lines of one commit and file, on the side that `pick` and `count` select.
def splitLines (pick : AILineAttribution → Map String LineCounts)
    (count : FileSplit → Owner → FileSplit) (others : List AILineAttribution) (fl : FileLines)
    (lines : List String) (r : LinePool × FileSplit) : LinePool × FileSplit :=
  lines.foldl (fun r line =>
    match LinePool.owner pick r.1 self others fl (fingerprint sha8 line) with
    | (some owner, p) => (p, count r.2 owner)
    | (none, p) => (p, r.2)) r

def countAdded (s : FileSplit) : Owner → FileSplit
  | .ai => { s with aiAdded := s.aiAdded + 1 }
  | .human => { s with humanAdded := s.humanAdded + 1 }

def countRemoved (s : FileSplit) : Owner → FileSplit
  | .ai => { s with aiRemoved := s.aiRemoved + 1 }
  | .human => { s with humanRemoved := s.humanRemoved + 1 }

structure SplitState where
  written : LinePool
  erased : LinePool
  out : Map String FileSplit
deriving DecidableEq

def splitFile (others : List AILineAttribution) (st : SplitState) (fl : FileLines) : SplitState :=
  let s := st.out.getD fl.path .zero
  let (written, s) := splitLines sha8 self (·.written) countAdded others fl fl.added (st.written, s)
  let (erased, s) := splitLines sha8 self (·.erased) countRemoved others fl fl.removed (st.erased, s)
  ⟨written, erased, st.out.set fl.path s⟩

def splitCommit (st : SplitState) (commit : CommitLines) : SplitState :=
  if commit.joined.isSome then st
  else commit.files.foldl (splitFile sha8 self (otherLedgers sessionID ledgers commit.sessionIDs)) st

def splitByPath (commits : List CommitLines) : Map String FileSplit :=
  (commits.foldl (splitCommit sha8 sessionID self ledgers) ⟨.empty, .empty, .empty⟩).out

-- bySHA. A repeated SHA keeps the last commit.
def bySHA (commits : List CommitLines) (sha : String) : Option CommitLines :=
  commits.reverse.find? fun c => c.sha == sha

-- A joined commit that changed the path itself has a pool for it. Its lines under
-- paths that the tip does not hold are in one pool for all the other paths.
def direct (joined : Map String (List String)) (path : String) : Bool :=
  (joined.get? path).isSome && path != ""

def joinedKey (sha : String) (joined : Map String (List String)) (path : String) : String × String :=
  (sha, if direct joined path then path else "")

def joinedLines (joined : Map String (List String)) (tip : Tip) (path : String) : List String :=
  if direct joined path then (joined.get? path).getD []
  else (joined.entries.filter fun e => (tip.get? e.1).isNone).flatMap Prod.snd

def joinedPool (pools : LinePool) (sha : String) (joined : Map String (List String)) (tip : Tip)
    (path : String) : LineCounts :=
  (get? pools (joinedKey sha joined path)).getD (LineCounts.add .empty (joinedLines joined tip path))

structure NetState where
  written : LinePool
  joined : LinePool
deriving DecidableEq

end Enrich

structure Net where
  sha8 : String → String
  sessionID : String
  self : AILineAttribution
  ledgers : Ledgers
  commits : List CommitLines
  tip : Tip

section Net

variable (n : Net)

def Net.fp (l : BlameLine) : String := fingerprint n.sha8 l.text

-- Whose line a line of the tip is, for the path that is being counted.
def netOwner (path : String) (st : NetState) (l : BlameLine) : Option Owner × NetState :=
  match bySHA n.commits l.sha with
  | none => (none, st)
  | some commit =>
    match commit.joined with
    | some joined =>
      let (taken, pool) :=
        LineCounts.take (joinedPool st.joined commit.sha joined n.tip path) (n.fp l)
      (if taken then some .human else none,
        { st with joined := set st.joined (joinedKey commit.sha joined path) pool })
    | none =>
      match commit.file path with
      | none => (none, st)
      | some fl =>
        let (owner, written) := LinePool.owner (·.written) st.written n.self
          (otherLedgers n.sessionID n.ledgers commit.sessionIDs) fl (n.fp l)
        (owner, { st with written })

def netLine (path : String) (r : NetState × FileSplit) (l : BlameLine × Nat) : NetState × FileSplit :=
  let (owner, st) := netOwner n path r.1 l.1
  (st, r.2.count (l.2 + 1) owner)

def netPath (st : NetState) (path : String) : NetState × FileSplit :=
  ((n.tip.getD path []).zipIdx).foldl (netLine n path) (st, .zero)

def sortedKeys (tip : Tip) : List String := tip.keys.insertionSort (· ≤ ·)

def netAdded : Map String FileSplit :=
  ((sortedKeys n.tip).foldl (fun r path =>
    let (st, s) := netPath n r.1 path
    (st, r.2.set path s)) ((⟨.empty, .empty⟩ : NetState), (.empty : Map String FileSplit))).2

end Net

structure FileChange where
  path : String
  status : String
  linesAdded : Int
  linesRemoved : Int
  attribution : Option Owner
  lineRanges : List LineRange
  sessionIDs : List String
  aiLinesAdded : Int
  aiLinesRemoved : Int
  humanLinesAdded : Int
  humanLinesRemoved : Int
deriving DecidableEq

structure CodeChanges where
  filesModified : Int
  filesCreated : Int
  filesDeleted : Int
  linesAdded : Int
  linesRemoved : Int
  aiLinesAdded : Int
  aiLinesRemoved : Int
  humanLinesAdded : Int
  humanLinesRemoved : Int
  aiGeneratedLinesAdded : Int
  aiGeneratedLinesRemoved : Int
  files : List FileChange
deriving DecidableEq

-- The recorded ranges of a file, under its path or an old one.
def editedRanges (l : AILineAttribution) (path : String) (oldPaths : List String) :
    Option (List LineRange) :=
  (path :: oldPaths).findSome? l.files.get?

def oldPathsOf (commits : List CommitLines) (path : String) : List String :=
  ((commits.flatMap CommitLines.files).filter fun fl => fl.path == path && fl.oldPath != "").foldl
    (fun olds fl => if olds.contains fl.oldPath then olds else olds ++ [fl.oldPath]) []

-- The ranges are AI, up to the size of the diff, and every removal is.
def legacySplit (f : FileChange) (aiRanges : List LineRange) : FileChange :=
  let aiLineCount := (aiRanges.map fun r => (r.last : Int) - r.start + 1).sum
  let aiLinesAdded := min aiLineCount f.linesAdded
  { f with
    aiLinesAdded
    humanLinesAdded := f.linesAdded - aiLinesAdded
    aiLinesRemoved := f.linesRemoved
    humanLinesRemoved := 0 }

def enrichFile (sessionID : String) (self : AILineAttribution) (commits : List CommitLines)
    (byPath net : Map String FileSplit) (f : FileChange) : FileChange :=
  let f := match editedRanges self f.path (oldPathsOf commits f.path) with
    | some ranges =>
      { f with attribution := some .ai, lineRanges := ranges, sessionIDs := [sessionID] }
    | none => { f with attribution := some .human }
  let f := match net.get? f.path with
    | some s => { f with lineRanges := s.ranges }
    | none => f
  if self.legacy.getD f.path false then legacySplit f (self.files.getD f.path [])
  else match byPath.get? f.path with
    | some s =>
      { f with
        aiLinesAdded := s.aiAdded
        aiLinesRemoved := s.aiRemoved
        humanLinesAdded := s.humanAdded
        humanLinesRemoved := s.humanRemoved
        linesAdded := s.aiAdded + s.humanAdded
        linesRemoved := s.aiRemoved + s.humanRemoved }
    | none =>
      if f.attribution = some .human then
        { f with humanLinesAdded := f.linesAdded, humanLinesRemoved := f.linesRemoved }
      else legacySplit f (self.files.getD f.path [])

-- The net numbers take the place of the sums over the commits.
def setNet (m : Map String FileSplit) (e : String × FileSplit) : Map String FileSplit :=
  m.set e.1 { m.getD e.1 .zero with aiAdded := e.2.aiAdded, humanAdded := e.2.humanAdded }

def withNet (byPath net : Map String FileSplit) : Map String FileSplit :=
  net.entries.foldl setNet byPath

def enrich (sha8 : String → String) (sessionID : String) (ledgers : Ledgers)
    (commits : List CommitLines) (tip : Tip) (changes : CodeChanges) : CodeChanges :=
  let self := ledgers.getD sessionID (newAILineAttribution sessionID)
  let net := netAdded ⟨sha8, sessionID, self, ledgers, commits, tip⟩
  let byPath := withNet (splitByPath sha8 sessionID self ledgers commits) net
  let files := changes.files.map (enrichFile sessionID self commits byPath net)
  { changes with
    files
    linesAdded := (files.map FileChange.linesAdded).sum
    linesRemoved := (files.map FileChange.linesRemoved).sum
    aiLinesAdded := (files.map FileChange.aiLinesAdded).sum
    aiLinesRemoved := (files.map FileChange.aiLinesRemoved).sum
    humanLinesAdded := (files.map FileChange.humanLinesAdded).sum
    humanLinesRemoved := (files.map FileChange.humanLinesRemoved).sum
    aiGeneratedLinesAdded := self.generatedAdded
    aiGeneratedLinesRemoved := self.generatedRemoved }

-- The git client at a push, as the line cache reads it: what it cannot read is none.
-- Renames are those between a commit and HEAD.
structure Git where
  codeChangesForCommits : List String → Option CodeChanges
  commitLines : String → Option (List FileLines)
  renames : String → Option (Map String String)
  blame : String → String → Option (List BlameLine)

namespace Git

variable (git : Git)

def pathAtHead (sha path : String) : String :=
  ((git.renames sha).bind fun renames => renames.get? path).getD path

def changes (sha path : String) : Bool :=
  (git.commitLines sha).any fun lines => lines.any fun fl => fl.path == path

def headPath (shas : List String) (path : String) : String :=
  match shas.reverse.find? fun sha => git.changes sha path with
  | some sha => git.pathAtHead sha path
  | none => path

end Git

structure CommitRecord where
  sha : String
  message : String
  sessionIDs : List String
  timestamp : String
  tracked : Bool
  joined : Map String (Map String (List String))
deriving DecidableEq

def filterGenerated (isGenerated : Option (String → Bool)) (changes : CodeChanges) : CodeChanges :=
  match isGenerated with
  | none => changes
  | some isGenerated =>
    let generated := changes.files.filter fun f => isGenerated f.path
    let countOf (p : String → Bool) : Int := (generated.countP fun f => p f.status)
    { changes with
      linesAdded := changes.linesAdded - (generated.map FileChange.linesAdded).sum
      linesRemoved := changes.linesRemoved - (generated.map FileChange.linesRemoved).sum
      filesCreated := changes.filesCreated - countOf (· == "created")
      filesDeleted := changes.filesDeleted - countOf (· == "deleted")
      filesModified := changes.filesModified - countOf fun s => s != "created" && s != "deleted"
      files := changes.files.filter fun f => !isGenerated f.path }

section Session

variable (git : Git) (sessionID : String)

def ownSHAs (records : List CommitRecord) : List String :=
  (records.filter fun c => c.sessionIDs.contains sessionID).map CommitRecord.sha

-- The keys under which a commit counts as a change of a file: its path at HEAD, and
-- its old path when the commit renamed it.
def changeKeys (sha : String) (lines : List FileLines) : List String :=
  (lines.flatMap fun fl =>
    git.pathAtHead sha fl.path :: if fl.oldPath = "" then [] else [fl.oldPath]).dedup

def changedBy (own : List String) (key : String) : Nat :=
  own.countP fun sha => ((git.commitLines sha).map (changeKeys git sha)).any (·.contains key)

-- The removed lines that no commit of the session wrote.
def foreignRemovals (own : List String) (parent : List BlameLine) (hunks : List Hunk) : List String :=
  hunks.flatMap fun h =>
    (h.removed.zipIdx.filter fun e =>
      let idx := (h.oldStart : Int) - 1 + e.2
      !(decide (0 ≤ idx) && (parent[idx.toNat]?).any fun l => own.contains l.sha)).map Prod.fst

def withoutOwnRemovals (own : List String) (sha : String) (fl : FileLines) : FileLines :=
  let parentPath := if fl.oldPath = "" then fl.path else fl.oldPath
  if fl.removed = [] ∨ (changedBy git own (git.pathAtHead sha fl.path) < 2 ∧
      (fl.oldPath = "" ∨ changedBy git own fl.oldPath < 2)) then fl
  else match git.blame (sha ++ "^") parentPath with
    | none => fl
    | some parent => { fl with removed := foreignRemovals own parent fl.hunks }

def sessionCommitLines (records : List CommitRecord) : List CommitLines :=
  let own := ownSHAs sessionID records
  records.filterMap fun c => (git.commitLines c.sha).map fun lines =>
    if own.contains c.sha then
      ⟨c.sha, c.sessionIDs, lines.map (withoutOwnRemovals git own c.sha), none⟩
    else ⟨c.sha, c.sessionIDs, lines, some (c.joined.getD sessionID .empty)⟩

def legacyMarks (ledgers : Ledgers) : Map String Bool :=
  ((ledgers.get? sessionID).map AILineAttribution.legacy).getD .empty

-- Each changed file that is not legacy, with the lines of its path at HEAD.
def sessionTip (legacy : Map String Bool) (shas paths : List String) : Tip :=
  paths.foldl (fun tip path =>
    if legacy.getD path false then tip
    else match git.blame "HEAD" (git.headPath shas path) with
      | none => tip
      | some lines => tip.set path lines) .empty

def sessionCodeChanges (sha8 : String → String) (records : List CommitRecord) (ledgers : Ledgers)
    (isGenerated : Option (String → Bool)) : Option CodeChanges := do
  let shas := ownSHAs sessionID records
  let changes ← git.codeChangesForCommits shas
  let changes := filterGenerated isGenerated changes
  let tip := sessionTip git (legacyMarks sessionID ledgers) shas (changes.files.map FileChange.path)
  let enriched := enrich sha8 sessionID ledgers (sessionCommitLines git sessionID records) tip changes
  if shas.all fun sha => (git.commitLines sha).isSome then return enriched
  -- a commit of the session that cannot be read keeps the sums of the diffs
  return { enriched with
    linesAdded := changes.linesAdded
    linesRemoved := changes.linesRemoved
    files := List.zipWith (fun (f old : FileChange) =>
      { f with linesAdded := old.linesAdded, linesRemoved := old.linesRemoved })
      enriched.files changes.files }

end Session

end Chainloop.Trace
