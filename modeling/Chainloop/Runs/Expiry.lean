import Chainloop.Runs.Table
import Chainloop.Steps.Schedule

namespace Chainloop.Runs

open Go Option List Function

def maxNumberOfRunsToExpire : Nat := 100

inductive CancelTrigger where
  | failure
  | cancellation
  | unspecified
deriving DecidableEq

inductive Finisher where
  | store
  | cancel (trigger : CancelTrigger) (reason : String)
deriving DecidableEq

-- The status and the reason a call finishes its run with. Cancel refuses an invalid trigger.
def Finisher.outcome : Finisher → Option (WorkflowRunStatus × String)
  | .store => some (.success, "")
  | .cancel .failure reason => some (.error, reason)
  | .cancel .cancellation reason => some (.cancelled, reason)
  | .cancel .unspecified _ => none

structure Found where
  id : UUID
  status : WorkflowRunStatus
  reason : String
  isFinished : status.isFinished = true

structure System where
  runs : Table
  -- the runs each sweep has listed and not handled yet
  sweeps : Nat → Option (List UUID)
  calls : Nat → Option Found

-- The statements that reach the database, one event each, by the sweep or the call they
-- belong to. A sweep stops at its first error.
inductive Event where
  | list (sweep : Nat) (olderThan : Time) (toExpire : List UUID)
  | expire (sweep : Nat) (id : UUID)
  | sweepFails (sweep : Nat)
  | find (call : Nat) (id : UUID) (finisher : Finisher)
  | finish (call : Nat) (id : UUID) (now : Time)
  | callFails (call : Nat)

theorem Finisher.outcome_finished {finisher : Finisher} {status : WorkflowRunStatus}
    (h : finisher.outcome = some (status, reason)) : status.isFinished = true := by
  cases finisher with
  | store =>
    cases h
    rfl
  | cancel trigger text =>
    cases trigger <;> cases h <;> rfl

def find (runs : Table) (id : UUID) (finisher : Finisher) : Option Found :=
  match h : finisher.outcome with
  | none => none
  | some (status, reason) =>
    if (runs.get? id).isSome then some ⟨id, status, reason, Finisher.outcome_finished h⟩ else none

def System.sweep (s : System) (sweep : Nat) (left : List UUID) : System :=
  { s with sweeps := update s.sweeps sweep (some left) }

def System.call (s : System) (call : Nat) (found : Option Found) : System :=
  { s with calls := update s.calls call found }

def System.step (s : System) : Event → Option System
  | .list sweep olderThan toExpire =>
    if s.sweeps sweep = none ∧ s.runs.Lists olderThan maxNumberOfRunsToExpire toExpire then
      some (s.sweep sweep toExpire)
    else none
  | .expire sweep id =>
    match s.sweeps sweep with
    | some (next :: left) =>
      if next = id then
        (s.runs.expire id).map fun runs => { s.sweep sweep left with runs := runs }
      else none
    | _ => none
  | .sweepFails sweep => some (s.sweep sweep [])
  | .find call id finisher => (find s.runs id finisher).map fun found => s.call call (some found)
  | .finish call id now =>
    match s.calls call with
    | some found =>
      if found.id = id then
        (s.runs.finish id found.status found.reason now).map fun runs =>
          { s.call call none with runs := runs }
      else none
    | none => none
  | .callFails call => some (s.call call none)

def start (runs : Table) : System := ⟨runs, fun _ => none, fun _ => none⟩

def System.Finished (s : System) (id : UUID) : Prop :=
  ∃ status, s.runs.stateOf id = some status ∧ status.isFinished = true

def System.Expired (s : System) (id : UUID) : Prop := s.runs.stateOf id = some .expired

variable {s : System} {id : UUID}

theorem System.Expired.not_finished (h : s.Expired id) : ¬ s.Finished id := by
  rintro ⟨status, hstatus, hfinished⟩
  rw [h] at hstatus
  cases hstatus
  cases hfinished

def Event.updates : Event → Option UUID
  | .expire _ id | .finish _ id _ => some id
  | .list _ _ _ | .sweepFails _ | .find _ _ _ | .callFails _ => none

-- What one statement does to the state of a run: only a sweep expires it, and only a call
-- finishes it.
inductive Effect (s s' : System) (id : UUID) : Event → Prop where
  | kept (e : Event) (hother : e.updates ≠ some id) (h : s'.runs.stateOf id = s.runs.stateOf id) :
      Effect s s' id e
  | expired (sweep : Nat) (left : List UUID) (hnext : s.sweeps sweep = some (id :: left))
      (h : s'.Expired id) : Effect s s' id (.expire sweep id)
  | finished (call : Nat) (now : Time) (h : s'.Finished id) : Effect s s' id (.finish call id now)

theorem System.Finished.congr {s s' : System}
    (h : s'.runs.stateOf id = s.runs.stateOf id) : s'.Finished id ↔ s.Finished id := by
  rw [System.Finished, System.Finished, h]

inductive Progress (s s' : System) (sweep : Nat) : Event → Prop where
  | kept (e : Event) (h : s'.sweeps sweep = s.sweeps sweep) : Progress s s' sweep e
  | listed (olderThan : Time) (toExpire : List UUID) (h : s'.sweeps sweep = some toExpire)
      (hnew : ∀ id ∈ toExpire, s'.runs.stateOf id = some .initialized) :
      Progress s s' sweep (.list sweep olderThan toExpire)
  | expired (id : UUID) (left : List UUID) (hbefore : s.sweeps sweep = some (id :: left))
      (h : s'.sweeps sweep = some left) : Progress s s' sweep (.expire sweep id)
  | failed (h : s'.sweeps sweep = some []) : Progress s s' sweep (.sweepFails sweep)

theorem System.sweep_sweeps (s : System) (sweep other : Nat) (left : List UUID) :
    (s.sweep sweep left).sweeps other = if other = sweep then some left else s.sweeps other := by
  simp [System.sweep, update_apply]

theorem System.step_spec (h : s.step e = some s') (id : UUID) (sweep : Nat) :
    Effect s s' id e ∧ Progress s s' sweep e := by
  cases e with
  | list w olderThan toExpire =>
    simp only [System.step, ite_none_right_eq_some, some.injEq] at h
    obtain ⟨⟨-, hlists⟩, rfl⟩ := h
    refine ⟨.kept _ (by simp [Event.updates]) rfl, ?_⟩
    have hsweeps := s.sweep_sweeps w sweep toExpire
    split at hsweeps
    · subst sweep
      exact .listed _ _ hsweeps fun id hid => hlists.stateOf hid
    · exact .kept _ hsweeps
  | expire w other =>
    simp only [System.step] at h
    split at h
    · rename_i next left hlist
      simp only [ite_none_right_eq_some, map_eq_some_iff] at h
      obtain ⟨rfl, runs, hruns, rfl⟩ := h
      have hstate := Table.stateOf_expire hruns id
      have hsweeps := s.sweep_sweeps w sweep left
      constructor
      · split at hstate
        · subst id
          exact .expired _ left hlist hstate
        · exact .kept _ (fun hsame => by simp_all [Event.updates]) hstate
      · split at hsweeps
        · subst sweep
          exact .expired _ left hlist hsweeps
        · exact .kept _ hsweeps
    · cases h
  | sweepFails w =>
    cases h
    refine ⟨.kept _ (by simp [Event.updates]) rfl, ?_⟩
    have hsweeps := s.sweep_sweeps w sweep []
    split at hsweeps
    · subst sweep
      exact .failed hsweeps
    · exact .kept _ hsweeps
  | find call other finisher =>
    simp only [System.step, map_eq_some_iff] at h
    obtain ⟨found, -, rfl⟩ := h
    exact ⟨.kept _ (by simp [Event.updates]) rfl, .kept _ rfl⟩
  | finish call other now =>
    simp only [System.step] at h
    split at h
    · rename_i found hfound
      simp only [ite_none_right_eq_some, map_eq_some_iff] at h
      obtain ⟨-, runs, hruns, rfl⟩ := h
      refine ⟨?_, .kept _ rfl⟩
      have hstate := Table.stateOf_finish hruns id
      split at hstate
      · subst id
        exact .finished _ _ ⟨found.status, hstate, found.isFinished⟩
      · exact .kept _ (fun hsame => by simp_all [Event.updates]) hstate
    · cases h
  | callFails call =>
    cases h
    exact ⟨.kept _ (by simp [Event.updates]) rfl, .kept _ rfl⟩

-- Along a history every run that a sweep still has to expire was listed by it, and if the
-- run is finished by now, then a call has finished it since.
def Listed (past : List Event) (s : System) : Prop :=
  ∀ sweep left, s.sweeps sweep = some left → ∀ id ∈ left, ∃ before after olderThan toExpire,
    past = before ++ .list sweep olderThan toExpire :: after ∧ id ∈ toExpire ∧
      (s.Finished id → ∃ call now, Event.finish call id now ∈ after)

theorem Listed.step (h : Listed past s) (hstep : s.step e = some s') :
    Listed (past ++ [e]) s' := by
  intro sweep left hleft id hid
  obtain ⟨heffect, hprogress⟩ := System.step_spec hstep id sweep
  have hkept (earlier) : s.sweeps sweep = some earlier → id ∈ earlier →
      ∃ before after olderThan toExpire,
        past ++ [e] = before ++ .list sweep olderThan toExpire :: after ∧ id ∈ toExpire ∧
          (s'.Finished id → ∃ call now, Event.finish call id now ∈ after) := by
    intro hearlier hmem
    obtain ⟨before, after, olderThan, toExpire, rfl, hin, hfinished⟩ := h sweep earlier hearlier id hmem
    refine ⟨before, after ++ [e], olderThan, toExpire, by simp, hin, fun hnow => ?_⟩
    cases heffect with
    | kept _ _ hstate =>
      obtain ⟨call, now, hcall⟩ := hfinished ((System.Finished.congr hstate).mp hnow)
      exact ⟨call, now, mem_append_left _ hcall⟩
    | expired _ _ _ hexpired => exact absurd hnow hexpired.not_finished
    | finished call now => exact ⟨call, now, mem_append_right _ mem_cons_self⟩
  cases hprogress with
  | kept _ hsweeps => exact hkept left (by rw [← hsweeps, hleft]) hid
  | listed olderThan toExpire hlist hnew =>
    obtain rfl : toExpire = left := some.inj (hlist.symm.trans hleft)
    refine ⟨past, [], olderThan, toExpire, rfl, hid, ?_⟩
    rintro ⟨status, hstatus, hfinished⟩
    rw [hnew id hid] at hstatus
    cases hstatus
    cases hfinished
  | expired first rest hbefore hrest =>
    obtain rfl : rest = left := some.inj (hrest.symm.trans hleft)
    exact hkept (first :: rest) hbefore (mem_cons_of_mem _ hid)
  | failed hnil =>
    obtain rfl : [] = left := some.inj (hnil.symm.trans hleft)
    cases hid

theorem listed_start (runs : Table) : Listed [] (start runs) := by
  intro sweep left hleft
  cases hleft

-- Some statement of the history turns a finished run into an expired one.
def ExpiresFinished (s : System) (events : List Event) : Prop :=
  ∃ before e after mid next id, events = before ++ e :: after ∧
    Schedule.run System.step s before = some mid ∧ mid.step e = some next ∧
    mid.Finished id ∧ next.Expired id

-- A call finishes a run after a sweep has listed it and before that sweep expires it.
def Overtaken (events : List Event) : Prop :=
  ∃ first between since rest sweep olderThan toExpire call id now,
    events = first ++ .list sweep olderThan toExpire :: (between ++ .finish call id now ::
      (since ++ .expire sweep id :: rest)) ∧ id ∈ toExpire

theorem overtaken_of_expires (h : ExpiresFinished (start runs) events) : Overtaken events := by
  obtain ⟨before, e, after, mid, next, id, rfl, hbefore, hstep, hfinished, hexpired⟩ := h
  have hlisted : Listed before mid :=
    Schedule.run_invariant Listed (listed_start runs) (fun _ _ _ _ h hstep => h.step hstep) hbefore
  cases (System.step_spec hstep id 0).1 with
  | kept _ _ hstate => exact absurd ((System.Finished.congr hstate).mpr hfinished) hexpired.not_finished
  | finished call now hnow => exact absurd hnow hexpired.not_finished
  | expired sweep left hnext =>
    obtain ⟨first, later, olderThan, toExpire, rfl, hin, hsince⟩ :=
      hlisted sweep _ hnext id mem_cons_self
    obtain ⟨call, now, hcall⟩ := hsince hfinished
    obtain ⟨between, since, rfl⟩ := append_of_mem hcall
    exact ⟨first, between, since, after, sweep, olderThan, toExpire, call, id, now, by simp, hin⟩

theorem ExpiresFinished.prepend (hbefore : Schedule.run System.step s before = some mid)
    (h : ExpiresFinished mid events) :
    ExpiresFinished s (before ++ events) := by
  obtain ⟨first, e, after, m, n, id, rfl, hfirst, hstep, hfinished, hexpired⟩ := h
  exact ⟨before ++ first, e, after, m, n, id, by simp,
    Schedule.run_append.mpr ⟨mid, hbefore, hfirst⟩, hstep, hfinished, hexpired⟩

theorem ExpiresFinished.append (h : ExpiresFinished s events) (more : List Event) :
    ExpiresFinished s (events ++ more) := by
  obtain ⟨first, e, after, m, n, id, rfl, hrest⟩ := h
  exact ⟨first, e, after ++ more, m, n, id, by simp, hrest⟩

theorem finished_or_expires {s s' : System} (hs : s.Finished id)
    (h : Schedule.run System.step s events = some s') :
    s'.Finished id ∨ ExpiresFinished s events := by
  induction events generalizing s with
  | nil =>
    cases h
    exact .inl hs
  | cons e rest ih =>
    obtain ⟨mid, hstep, hrest⟩ := Schedule.run_cons.mp h
    have hlater : mid.Finished id → s'.Finished id ∨ ExpiresFinished s (e :: rest) :=
      fun hmid => (ih hmid hrest).imp_right (·.prepend (Schedule.run_single.mpr hstep))
    cases (System.step_spec hstep id 0).1 with
    | kept _ _ hstate => exact hlater ((System.Finished.congr hstate).mpr hs)
    | expired sweep _ _ hexpired => exact .inr ⟨[], _, rest, s, mid, id, rfl, rfl, hstep, hs, hexpired⟩
    | finished _ _ hnow => exact hlater hnow

theorem expires_after_finish
    (h : Schedule.run System.step s (.finish call id now :: (since ++ .expire sweep id :: rest)) =
      some s') :
    ExpiresFinished s (.finish call id now :: (since ++ .expire sweep id :: rest)) := by
  obtain ⟨done, hfinish, hsince⟩ := Schedule.run_cons.mp h
  obtain ⟨mid, next, hmid, hexpire, -⟩ := Schedule.run_at hsince
  have hdone : done.Finished id := by
    cases (System.step_spec hfinish id 0).1 with
    | kept _ hother => exact absurd rfl hother
    | finished _ _ hnow => exact hnow
  have hnext : next.Expired id := by
    cases (System.step_spec hexpire id 0).1 with
    | kept _ hother => exact absurd rfl hother
    | expired _ _ _ hexpired => exact hexpired
  have hlater : ExpiresFinished done (since ++ .expire sweep id :: rest) := by
    rcases finished_or_expires hdone hmid with hfinished | hexpires
    · exact ⟨since, _, rest, mid, next, id, rfl, hmid, hexpire, hfinished, hnext⟩
    · exact hexpires.append _
  exact hlater.prepend (Schedule.run_single.mpr hfinish)

theorem expires_of_overtaken (h : Schedule.run System.step s events = some s')
    (hovertaken : Overtaken events) :
    ExpiresFinished s events := by
  obtain ⟨first, between, since, rest, sweep, olderThan, toExpire, call, id, now, rfl, -⟩ := hovertaken
  obtain ⟨before, hfirst, hlist⟩ := Schedule.run_append.mp h
  obtain ⟨listed, hlisted, hbetween⟩ := Schedule.run_cons.mp hlist
  obtain ⟨mid, hmid, hfinish⟩ := Schedule.run_append.mp hbetween
  have hexpires := (expires_after_finish hfinish).prepend hmid
  exact (hexpires.prepend (Schedule.run_single.mpr hlisted)).prepend hfirst

theorem expires_finished_iff_overtaken (runs : Table) (events : List Event) (s : System)
    (h : Schedule.run System.step (start runs) events = some s) :
    ExpiresFinished (start runs) events ↔ Overtaken events :=
  ⟨overtaken_of_expires, expires_of_overtaken h⟩

def oldRun : UUID := .ofByte 1

def oneOldRun : Table := Map.ofList [(oldRun, ⟨0, none, .initialized, "", none, ""⟩)]

def storeDuringSweep : List Event :=
  [.find 0 oldRun .store, .list 0 10 [oldRun], .finish 0 oldRun 11, .expire 0 oldRun]

theorem expires_finished_during_sweep :
    (Schedule.run System.step (start oneOldRun) storeDuringSweep).isSome ∧
      ExpiresFinished (start oneOldRun) storeDuringSweep ∧
      (ExpiresFinished (start oneOldRun) storeDuringSweep ↔ Overtaken storeDuringSweep) := by
  have hrun : (Schedule.run System.step (start oneOldRun) storeDuringSweep).isSome := by decide +kernel
  obtain ⟨s, hs⟩ := isSome_iff_exists.mp hrun
  have hovertaken : Overtaken storeDuringSweep :=
    ⟨[.find 0 oldRun .store], [], [], [], 0, 10, [oldRun], 0, oldRun, 11, rfl, mem_cons_self⟩
  have hiff := expires_finished_iff_overtaken oneOldRun storeDuringSweep s hs
  exact ⟨hrun, hiff.mpr hovertaken, hiff⟩

theorem stored_run_expires :
    (Schedule.run System.step (start oneOldRun) (storeDuringSweep.take 3)).map
        (·.runs.stateOf oldRun) = some (some .success) ∧
      (Schedule.run System.step (start oneOldRun) storeDuringSweep).map
        (·.runs.stateOf oldRun) = some (some .expired) := by
  decide +kernel

end Chainloop.Runs
