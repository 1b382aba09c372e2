import Chainloop.Go.Uuid
import Chainloop.Schema

namespace Chainloop.Runs

open Go Option

abbrev Time := Nat

inductive WorkflowRunStatus where
  | initialized
  | success
  | error
  | expired
  | cancelled
deriving DecidableEq

def WorkflowRunStatus.isFinished : WorkflowRunStatus → Bool
  | .success | .error | .cancelled => true
  | .initialized | .expired => false

structure WorkflowRun where
  createdAt : Time
  finishedAt : Option Time
  state : WorkflowRunStatus
  reason : String
  attestationState : Option Bytes
  attestationDigest : String
deriving DecidableEq

abbrev Table := Map UUID WorkflowRun

namespace Table

def stateOf (runs : Table) (id : UUID) : Option WorkflowRunStatus := (runs.get? id).map (·.state)

def updateOneID (runs : Table) (id : UUID) (set : WorkflowRun → WorkflowRun) : Option Table :=
  (runs.get? id).map fun run => runs.set id (set run)

variable {runs runs' : Table} {id : UUID}

theorem updateOneID_get? {set : WorkflowRun → WorkflowRun}
    (h : runs.updateOneID id set = some runs') (other : UUID) :
    runs'.get? other = if other = id then (runs.get? id).map set else runs.get? other := by
  obtain ⟨run, hrun, rfl⟩ := map_eq_some_iff.mp h
  rw [Map.get?_set, hrun]
  rfl

def notFinishedOlderThan (runs : Table) (olderThan : Time) : List UUID :=
  (runs.entries.filter fun e => e.2.createdAt ≤ olderThan ∧ e.2.state = .initialized).map Prod.fst

-- The rows that ListNotFinishedOlderThan may return: the query does not order them, so that
-- under a limit any of them can be left out.
structure Lists (runs : Table) (olderThan : Time) (limit : Nat) (found : List UUID) : Prop where
  nodup : found.Nodup
  subset : found ⊆ runs.notFinishedOlderThan olderThan
  limited : found.length = min limit (runs.notFinishedOlderThan olderThan).length

instance (runs : Table) (olderThan : Time) (limit : Nat) (found : List UUID) :
    Decidable (runs.Lists olderThan limit found) :=
  decidable_of_iff (found.Nodup ∧ found ⊆ runs.notFinishedOlderThan olderThan ∧
      found.length = min limit (runs.notFinishedOlderThan olderThan).length)
    ⟨fun h => ⟨h.1, h.2.1, h.2.2⟩, fun h => ⟨h.nodup, h.subset, h.limited⟩⟩

theorem Lists.stateOf {runs : Table} {olderThan : Time} {limit : Nat} {found : List UUID}
    (h : runs.Lists olderThan limit found) (hid : id ∈ found) :
    runs.stateOf id = some .initialized := by
  obtain ⟨⟨key, run⟩, hrun, rfl⟩ := List.mem_map.mp (h.subset hid)
  obtain ⟨hmem, hold⟩ := List.mem_filter.mp hrun
  have hget : runs.get? key = some run := (Map.get?_eq_some_iff runs key run).mpr hmem
  simp only [decide_eq_true_eq] at hold
  rw [Table.stateOf, hget, map_some, hold.2]

def expire (runs : Table) (id : UUID) : Option Table :=
  runs.updateOneID id fun run => { run with state := .expired, attestationState := none }

def finish (runs : Table) (id : UUID) (status : WorkflowRunStatus) (reason : String) (now : Time) :
    Option Table :=
  runs.updateOneID id fun run =>
    { run with finishedAt := some now, state := status, reason := reason, attestationState := none }

theorem stateOf_expire (h : runs.expire id = some runs')
    (other : UUID) : runs'.stateOf other = if other = id then some .expired else runs.stateOf other := by
  rw [stateOf, updateOneID_get? h]
  split
  · obtain ⟨run, hrun, -⟩ := map_eq_some_iff.mp h
    rw [hrun]
    rfl
  · rfl

theorem stateOf_finish {status : WorkflowRunStatus}
    (h : runs.finish id status reason now = some runs') (other : UUID) :
    runs'.stateOf other = if other = id then some status else runs.stateOf other := by
  rw [stateOf, updateOneID_get? h]
  split
  · obtain ⟨run, hrun, -⟩ := map_eq_some_iff.mp h
    rw [hrun]
    rfl
  · rfl

end Table

end Chainloop.Runs
