import Chainloop.Go.Uuid
import Chainloop.Steps.RowLock
import Chainloop.Steps.Schedule

namespace Chainloop.Runs.Release

open Go RowLock Function

abbrev Time := Nat

structure ProjectVersion where
  projectID : UUID
  version : String
  prerelease : Bool
  latest : Bool
  deleted : Bool
  releasedAt : Option Time
  workflowRunCount : Nat
  lastRunAt : Option Time
deriving DecidableEq

-- What WorkflowRunRepo.Create is asked for, with the project of its workflow.
structure CreateOpts where
  projectID : UUID
  projectVersion : String
  useLatestVersion : Bool
  requireExistingVersion : Bool
  markAsLatest : Option Bool
deriving DecidableEq

inductive Stage where
  -- SaveAttestationBundle and SaveAttestationDigest
  | saving (run : UUID) (digest : String)
  | accepted (run version : UUID) (digest : String)
  | saved (run version : UUID) (digest : String)
  -- Create, with the version that was found before the transaction
  | creating (opts : CreateOpts) (found : Option UUID)
  | promoting (opts : CreateOpts) (version : UUID)
  | versioned (version : UUID) (existing : Bool)
  | inserted (run version : UUID) (existing : Bool)
  | counted (run version : UUID) (existing : Bool)
  -- ProjectVersionRepo.Update, with what it has read
  | updating (version : UUID) (releasedAt : Option Time) (prerelease : Option Bool)
  | updated
deriving DecidableEq

structure System where
  versions : Db Nat UUID ProjectVersion
  -- the version and the attestation digest of each committed run
  runs : UUID → Option (UUID × String)
  txs : Nat → Option Stage

-- The statements that reach the database, by the transaction they belong to. The update of
-- several rows is one event a row.
inductive Event where
  | beginSave (t : Nat) (run : UUID) (digest : String)
  | accept (t : Nat)
  | writeDigest (t : Nat)
  | beginCreate (t : Nat) (opts : CreateOpts) (found : Option UUID)
  | reread (t : Nat)
  | unlatest (t : Nat) (version : UUID)
  | promote (t : Nat)
  | insertVersion (t : Nat) (version : UUID)
  | insertRun (t : Nat) (run : UUID)
  | count (t : Nat) (now : Time)
  | beginUpdate (t : Nat) (version : UUID) (prerelease : Option Bool)
  | update (t : Nat) (now : Time)
  | commit (t : Nat)
  | fail (t : Nat)

def System.set (s : System) (t : Nat) (stage : Stage) : System :=
  { s with txs := update s.txs t (some stage) }

def System.abort (s : System) (t : Nat) : System :=
  { s with versions := s.versions.rollback t, txs := update s.txs t none }

def CreateOpts.marksAsLatest (opts : CreateOpts) : Bool := opts.markAsLatest = some true

-- A new version is the latest unless the caller opts out.
def CreateOpts.shouldBeLatest (opts : CreateOpts) : Bool := opts.markAsLatest ≠ some false

-- The query before the transaction. A version that is not found has to be created, which
-- the caller can forbid.
def System.finds (s : System) (opts : CreateOpts) : Option UUID → Bool
  | none => !opts.useLatestVersion && !opts.requireExistingVersion
  | some version =>
    match s.versions.committed version with
    | none => false
    | some row =>
      row.projectID = opts.projectID ∧ row.deleted = false ∧
        (if opts.useLatestVersion then row.latest = true else row.version = opts.projectVersion)

section Model

variable (blockReleasedVersions : Bool)

def System.accept (s : System) (t : Nat) (run : UUID) (digest : String) : Option System :=
  match s.runs run with
  | none => some (s.abort t)
  | some (version, _) =>
    if blockReleasedVersions then
      (s.versions.lock t version).map fun versions =>
        let s := { s with versions := versions }
        match versions.read t version with
        | none => s.abort t
        | some row => if row.prerelease then s.set t (.accepted run version digest) else s.abort t
    else some (s.set t (.accepted run version digest))

def System.reread (s : System) (t : Nat) (opts : CreateOpts) (version : UUID) : Option System :=
  if blockReleasedVersions || opts.marksAsLatest then
    (s.versions.lock t version).map fun versions =>
      let s := { s with versions := versions }
      match versions.read t version with
      | none => s.abort t
      | some row =>
        if row.projectID ≠ opts.projectID ∨ row.deleted then s.abort t
        else if blockReleasedVersions && !row.prerelease then s.abort t
        else if opts.marksAsLatest then
          -- promoteVersionToLatestWithTx refuses a released version
          if row.prerelease then s.set t (.promoting opts version) else s.abort t
        else s.set t (.versioned version true)
  else some (s.set t (.versioned version true))

-- A statement that changes one row of the versions, if it is there.
def System.writes (s : System) (t : Nat) (version : UUID) (change : ProjectVersion → ProjectVersion)
    (stage : Stage) : Option System :=
  match s.versions.read t version with
  | none => some (s.abort t)
  | some row =>
    (s.versions.write t version (change row)).map fun versions =>
      { s.set t stage with versions := versions }

-- The rows of the project that are the latest ones stop being so.
def System.unlatest (s : System) (t : Nat) (opts : CreateOpts) (version : UUID) (stage : Stage) :
    Option System :=
  match s.versions.read t version with
  | none => none
  | some row =>
    if row.projectID = opts.projectID ∧ row.deleted = false ∧ row.latest = true then
      s.writes t version (fun row => { row with latest := false }) stage
    else none

-- createProjectVersionWithTx, after the other versions are no longer the latest.
def System.insertVersion (s : System) (t : Nat) (opts : CreateOpts) (version : UUID) : Option System :=
  if opts.projectVersion = "" then some (s.abort t)
  else if s.versions.committed version ≠ none then none
  else
    let row := ⟨opts.projectID, opts.projectVersion, true, opts.shouldBeLatest, false, none, 0, none⟩
    (s.versions.write t version row).map fun versions =>
      { s.set t (.versioned version false) with versions := versions }

-- The update of ProjectVersionRepo.Update: released_at is set once, and cleared with the
-- return to a pre-release.
def release (prerelease : Option Bool) (releasedAt : Option Time) (now : Time) (row : ProjectVersion) :
    ProjectVersion :=
  match prerelease with
  | none => row
  | some true => { row with prerelease := true, releasedAt := none }
  | some false =>
    if releasedAt = none then { row with prerelease := false, releasedAt := some now }
    else { row with prerelease := false }

def System.commit (s : System) (t : Nat) : System :=
  { s with versions := s.versions.commit t, txs := update s.txs t none }

def System.step (s : System) : Event → Option System
  | .beginSave t run digest =>
    match s.txs t with
    | none => some (s.set t (.saving run digest))
    | some _ => none
  | .accept t =>
    match s.txs t with
    | some (.saving run digest) => s.accept blockReleasedVersions t run digest
    | _ => none
  | .writeDigest t =>
    match s.txs t with
    | some (.accepted run version digest) => some (s.set t (.saved run version digest))
    | _ => none
  | .beginCreate t opts found =>
    match s.txs t with
    | none => if s.finds opts found then some (s.set t (.creating opts found)) else none
    | some _ => none
  | .reread t =>
    match s.txs t with
    | some (.creating opts (some version)) => s.reread blockReleasedVersions t opts version
    | _ => none
  | .unlatest t version =>
    match s.txs t with
    | some (.promoting opts promoted) => s.unlatest t opts version (.promoting opts promoted)
    | some (.creating opts none) =>
      if opts.shouldBeLatest then s.unlatest t opts version (.creating opts none) else none
    | _ => none
  | .promote t =>
    match s.txs t with
    | some (.promoting _ version) =>
      s.writes t version (fun row => { row with latest := true }) (.versioned version true)
    | _ => none
  | .insertVersion t version =>
    match s.txs t with
    | some (.creating opts none) => s.insertVersion t opts version
    | _ => none
  | .insertRun t run =>
    match s.txs t with
    | some (.versioned version existing) => some (s.set t (.inserted run version existing))
    | _ => none
  | .count t now =>
    match s.txs t with
    | some (.inserted run version existing) =>
      s.writes t version (fun row => { row with
        workflowRunCount := row.workflowRunCount + 1, lastRunAt := some now })
        (.counted run version existing)
    | _ => none
  | .beginUpdate t version prerelease =>
    match s.txs t with
    | none =>
      match s.versions.committed version with
      | none => none
      | some row =>
        if row.deleted then none else some (s.set t (.updating version row.releasedAt prerelease))
    | some _ => none
  | .update t now =>
    match s.txs t with
    | some (.updating version releasedAt prerelease) =>
      s.writes t version (release prerelease releasedAt now) .updated
    | _ => none
  | .commit t =>
    match s.txs t with
    | some (.saved run version digest) =>
      match s.runs run with
      | none => some (s.abort t)
      | some _ => some { s.commit t with runs := update s.runs run (some (version, digest)) }
    | some (.counted run version _) =>
      match s.runs run with
      | none => some { s.commit t with runs := update s.runs run (some (version, "")) }
      | some _ => some (s.abort t)
    | some .updated => some (s.commit t)
    | _ => none
  | .fail t =>
    match s.txs t with
    | some _ => some (s.abort t)
    | none => none

end Model

def start (versions : UUID → Option ProjectVersion) (runs : UUID → Option (UUID × String)) : System :=
  ⟨Db.ofRows versions, runs, fun _ => none⟩

end Chainloop.Runs.Release
