import Chainloop.Lists.Keyset
import Chainloop.Pagination.Cursor
import Chainloop.Renderer.Status
import Chainloop.Runs.Table

namespace Chainloop.Runs.Listing

open Go Chainloop.Lists Pagination List

inductive EntPolicyStatus where
  | notApplicable | passed | skipped | warning | blocked | bypassed
deriving DecidableEq

def policyStatusToEnt : Renderer.PolicyStatus → EntPolicyStatus
  | .notApplicable | .unspecified => .notApplicable
  | .passed => .passed
  | .skipped => .skipped
  | .warning => .warning
  | .blocked => .blocked
  | .bypassed => .bypassed

structure WorkflowRun where
  id : UUID
  createdAt : Time
  organizationID : UUID
  workflowID : UUID
  versionID : UUID
  state : WorkflowRunStatus
  hasPolicyViolations : Option Bool
  policyStatus : Option EntPolicyStatus
  policyHasGates : Option Bool
deriving DecidableEq

structure Workflow where
  id : UUID
  projectID : UUID
  deletedAt : Option Time
deriving DecidableEq

-- The tables, for a server at the given location. The ids of the runs are unique, and their
-- times are readings of a clock with years of four digits.
structure Database (l : Pagination.Locale) where
  runs : List WorkflowRun
  workflows : List Workflow
  ids : (runs.map WorkflowRun.id).Nodup
  dated : ∀ wr ∈ runs, l.Writable wr.createdAt

structure RunListFilters where
  workflowID : Option UUID
  versionID : Option UUID
  status : Option WorkflowRunStatus
  projectIDs : Option (List UUID)
  policyViolationsFilter : Option Bool
  policyStatus : Option Renderer.PolicyStatus
  policyHasGates : Option Bool
deriving DecidableEq

def RunListFilters.none : RunListFilters :=
  ⟨.none, .none, .none, .none, .none, .none, .none⟩

variable {l : Pagination.Locale}

def Database.hasWorkflowWith (db : Database l) (wr : WorkflowRun) (p : Workflow → Bool) : Bool :=
  db.workflows.any fun wf => wf.id == wr.workflowID && p wf

-- The status takes the place of the older filter on violations.
def matchesPolicy (f : RunListFilters) (wr : WorkflowRun) : Bool :=
  match f.policyStatus, f.policyViolationsFilter with
  | some status, _ => wr.policyStatus == some (policyStatusToEnt status)
  | .none, some violations => wr.hasPolicyViolations == some violations
  | .none, .none => true

def Database.selects (db : Database l) (orgID : UUID) (f : RunListFilters) (wr : WorkflowRun) : Bool :=
  wr.organizationID == orgID && db.hasWorkflowWith wr (fun wf => wf.deletedAt.isNone &&
      f.projectIDs.all fun projects => projects.contains wf.projectID) &&
    (f.workflowID.all fun id => db.hasWorkflowWith wr fun wf => wf.id == id) &&
    (f.status.all fun status => wr.state == status) &&
    (f.versionID.all fun id => wr.versionID == id) &&
    matchesPolicy f wr &&
    (f.policyHasGates.all fun gates => wr.policyHasGates == some gates)

def Database.matching (db : Database l) (orgID : UUID) (filters : Option RunListFilters) :
    List WorkflowRun :=
  db.runs.filter (db.selects orgID (filters.getD .none))

def compositeLT (c : Cursor) (wr : WorkflowRun) : Bool :=
  wr.createdAt < c.timestamp || (wr.createdAt == c.timestamp && wr.id.toNat < c.id.toNat)

-- One round of the loop over the rows that were found. The row behind the last one of the
-- page is only there to show that there is another page.
def collect (limit : Int) (found : List WorkflowRun) (acc : List WorkflowRun × String)
    (row : WorkflowRun × Nat) : Run (List WorkflowRun × String) :=
  if (row.2 : Int) = limit then
    match row.2 with
    | 0 => .error .panic
    | i + 1 => do
      let prevwr ← Run.index found i
      return (acc.1, encodeCursor l prevwr.createdAt prevwr.id)
  else .ok (acc.1 ++ [row.1], acc.2)

-- WorkflowRunRepo.List, with the order that the database returns the rows in: it is only
-- asked for the newest first.
def list (db : Database l) (order : List WorkflowRun → List WorkflowRun) (orgID : UUID)
    (filters : Option RunListFilters) (p : Option CursorOptions) :
    Run (List WorkflowRun × String) :=
  match p with
  | .none => .error (.error (.new "pagination options is required"))
  | some p =>
    let rows := (db.matching orgID filters).filter fun wr => p.cursor.all fun c => compositeLT c wr
    let workflowRuns := (order rows).take (p.limit + 1).toNat
    workflowRuns.zipIdx.foldlM (collect (l := l) p.limit workflowRuns) ([], "")

inductive ListError where
  | cursor (e : CursorError)
  | failure (f : Failure)
deriving DecidableEq

-- The n-th request of a client, with the cursor of the page before. The database may order
-- the rows of one time in another way each time.
def request (db : Database l) (order : Nat → List WorkflowRun → List WorkflowRun) (orgID : UUID)
    (filters : Option RunListFilters) (limit : Int) (n : Nat) (cursor : String) :
    Except ListError (List WorkflowRun × String) := do
  let p ← (newCursor l cursor limit).mapError .cursor
  (list db (order n) orgID filters (some p)).mapError .failure

def cursorText (l : Pagination.Locale) : Option WorkflowRun → String
  | .none => ""
  | some wr => encodeCursor l wr.createdAt wr.id

theorem collect_short {rows : List WorkflowRun} (h : k + rows.length ≤ limit) :
    (rows.zipIdx k).foldlM (collect (l := l) limit found) acc = .ok (acc.1 ++ rows, acc.2) := by
  induction rows generalizing k acc with
  | nil => simp [pure, Except.pure]
  | cons wr rest ih =>
    rw [length_cons] at h
    have hk : ¬ ((k : Int) = (limit : Int)) := by omega
    have hround : collect (l := l) limit found acc (wr, k) = .ok (acc.1 ++ [wr], acc.2) := if_neg hk
    rw [zipIdx_cons, foldlM_cons, hround]
    change (rest.zipIdx (k + 1)).foldlM (collect (l := l) limit found) (acc.1 ++ [wr], acc.2) = _
    rw [ih (by omega), append_assoc, singleton_append]

theorem collect_eq (hlimit : 0 < limit) {found : List WorkflowRun}
    (hlength : found.length ≤ limit + 1) :
    found.zipIdx.foldlM (collect (l := l) limit found) ([], "") =
      .ok ((cutRows limit found).1, cursorText l (cutRows limit found).2) := by
  by_cases hlong : limit < found.length
  · obtain ⟨last, hlast, hcut⟩ := cutRows_long hlimit hlong
    have hrest : found.drop limit = [found.get ⟨limit, hlong⟩] := by
      rw [drop_eq_getElem_cons hlong, drop_of_length_le (by omega)]
      rfl
    have hsplit : found.zipIdx = (found.take limit).zipIdx ++ [(found.get ⟨limit, hlong⟩, limit)] := by
      conv_lhs => rw [← take_append_drop limit found, hrest, zipIdx_append]
      rw [length_take, Nat.min_eq_left (by omega)]
      simp
    rw [hsplit, foldlM_append, collect_short (by rw [length_take]; omega), hcut]
    obtain ⟨i, rfl⟩ : ∃ i, limit = i + 1 := ⟨limit - 1, by omega⟩
    rw [Nat.add_sub_cancel] at hlast
    simp [collect, Run.index, hlast, cursorText, bind, Except.bind, pure, Except.pure]
  · rw [collect_short (by omega), cutRows_short (by omega)]
    simp [cursorText]

def WorkflowRun.number (wr : WorkflowRun) : Nat := wr.id.toNat

theorem compositeLT_eq (c wr : WorkflowRun) : compositeLT ⟨c.createdAt, c.id⟩ wr =
    older WorkflowRun.createdAt WorkflowRun.number c wr := by
  rw [Bool.eq_iff_iff, older_iff]
  simp [compositeLT, WorkflowRun.number]

section Follow

variable {db : Database l} {order : Nat → List WorkflowRun → List WorkflowRun} {orgID : UUID}
  {filters : Option RunListFilters} {limit : Nat}

theorem request_eq (hlimit : 0 < limit) (n : Nat) (hcursor : ∀ wr, cursor = some wr → wr ∈ db.runs) :
    request db order orgID filters limit n (cursorText l cursor) =
      .ok ((cutRows limit (order n (remaining (older WorkflowRun.createdAt WorkflowRun.number) cursor
          (db.matching orgID filters)))).1,
        cursorText l (cutRows limit (order n (remaining (older WorkflowRun.createdAt
          WorkflowRun.number) cursor (db.matching orgID filters)))).2) := by
  have hoptions : newCursor l (cursorText l cursor) limit =
      .ok ⟨cursor.map fun wr => ⟨wr.createdAt, wr.id⟩, limit⟩ := by
    have hpositive : (0 : Int) < limit := by omega
    cases cursor with
    | none => exact newCursor_empty l hpositive
    | some wr => exact newCursor_encodeCursor (db.dated wr (hcursor wr rfl)) wr.id hpositive
  have hrows : ((db.matching orgID filters).filter fun wr =>
      (cursor.map fun wr => (⟨wr.createdAt, wr.id⟩ : Cursor)).all fun c => compositeLT c wr) =
        remaining (older WorkflowRun.createdAt WorkflowRun.number) cursor
          (db.matching orgID filters) := by
    apply filter_congr
    intro wr _
    cases cursor with
    | none => rfl
    | some c => exact compositeLT_eq c wr
  have htake : ((limit : Int) + 1).toNat = limit + 1 := by omega
  rw [request, hoptions]
  change (list db (order n) orgID filters (some _)).mapError ListError.failure = _
  unfold list
  simp only
  rw [hrows, htake, collect_eq hlimit (length_take_le _ _), cutRows_take hlimit]
  rfl

theorem follow_eq (db : Database l) (orgID : UUID) (filters : Option RunListFilters)
    (hlimit : 0 < limit) (horder : Sorts (newerFirst WorkflowRun.createdAt) order)
    (fuel n : Nat) (cursor : Option WorkflowRun) (hcursor : ∀ wr, cursor = some wr → wr ∈ db.runs) :
    follow (request db order orgID filters limit) fuel n (cursorText l cursor) =
      (visits order (older WorkflowRun.createdAt WorkflowRun.number) limit
        (db.matching orgID filters) fuel n cursor).map .ok := by
  induction fuel generalizing n cursor with
  | zero => rfl
  | succ fuel ih =>
    rw [follow, request_eq hlimit n hcursor, visits]
    have hmem (wr) : (cutRows limit (order n (remaining (older WorkflowRun.createdAt
        WorkflowRun.number) cursor (db.matching orgID filters)))).2 = some wr → wr ∈ db.runs := by
      intro hwr
      have hrow := (horder.perm n _).mem_iff.mp (cutRows_mem hwr)
      exact mem_of_mem_filter (mem_of_mem_filter hrow)
    generalize cutRows limit (order n (remaining (older WorkflowRun.createdAt WorkflowRun.number)
      cursor (db.matching orgID filters))) = page at hmem ⊢
    obtain ⟨rows, next⟩ := page
    cases next with
    | none => rfl
    | some last =>
      have hnext : cursorText l (some last) ≠ "" := encodeCursor_ne_empty _ _ _
      simp only [if_neg hnext, ih (n + 1) (some last) hmem, Option.map_map]
      rfl

end Follow

-- Following the cursors comes to an end and has then visited every matching run once,
-- whichever way the database returns the runs of one time.
def Complete (db : Database l) (orgID : UUID) (filters : Option RunListFilters) (limit : Int) : Prop :=
  ∀ order, Sorts (newerFirst WorkflowRun.createdAt) order → ∃ fuel visited,
    follow (request db order orgID filters limit) fuel 0 "" = some (.ok visited) ∧
      visited.Perm (db.matching orgID filters)

theorem complete_iff {db : Database l} (limit : Nat) (hlimit : 0 < limit) :
    Complete db orgID filters limit ↔
      Apart WorkflowRun.createdAt limit (db.matching orgID filters) := by
  have hruns : db.runs.Nodup := List.Nodup.of_map _ db.ids
  have hid : Set.InjOn WorkflowRun.number {wr | wr ∈ db.matching orgID filters} := by
    intro a ha b hb hab
    exact inj_on_of_nodup_map db.ids (mem_of_mem_filter ha) (mem_of_mem_filter hb)
      (UUID.toNat_injective hab)
  have hfollow (order) : Sorts (newerFirst WorkflowRun.createdAt) order → ∀ fuel visited,
      follow (request db order orgID filters limit) fuel 0 "" = some (.ok visited) ↔
        visits order (older WorkflowRun.createdAt WorkflowRun.number) limit
          (db.matching orgID filters) fuel 0 .none = some visited := by
    intro horder fuel visited
    have heq := follow_eq db orgID filters hlimit horder fuel 0 .none (fun wr hwr => by cases hwr)
    rw [show cursorText l .none = "" from rfl] at heq
    rw [heq]
    simp
  rw [← visits_exact_iff hlimit hid (hruns.filter _)]
  refine forall₂_congr fun order horder => ?_
  simp only [hfollow order horder]

theorem workflow_run_pages_iff (l : Pagination.Locale) (db : Database l) (orgID : UUID)
    (filters : Option RunListFilters) (limit : Int) (hlimit : 1 ≤ limit) :
    Complete db orgID filters limit ↔
      Apart WorkflowRun.createdAt limit.toNat (db.matching orgID filters) := by
  obtain ⟨size, rfl⟩ : ∃ size : Nat, limit = size := ⟨limit.toNat, by omega⟩
  exact complete_iff size (by omega)

def runAt (number : UInt8) (createdAt : Time) : WorkflowRun :=
  ⟨.ofByte number, createdAt, .nil, .nil, .nil, .success, .none, .none, .none⟩

def twoRuns (first second : Time) (hfirst : Locale.utc.Writable first) (hsecond : Locale.utc.Writable second) :
    Database .utc where
  runs := [runAt 1 first, runAt 2 second]
  workflows := [⟨.nil, .nil, .none⟩]
  ids := by simp [runAt, UUID.ofByte]
  dated := by
    intro wr hwr
    rcases List.mem_cons.mp hwr with rfl | hwr
    · exact hfirst
    · rw [List.mem_singleton.mp hwr]
      exact hsecond

theorem two_runs_are_visited :
    Complete (twoRuns 0 1 Locale.utc_zero Locale.utc_one) .nil .none 1 := by
  refine (workflow_run_pages_iff .utc _ .nil .none 1 (by decide)).mpr fun a ha b hb hne htime => ?_
  have hruns : (twoRuns 0 1 Locale.utc_zero Locale.utc_one).matching .nil .none
      = [runAt 1 0, runAt 2 1] := by decide
  rw [hruns, mem_pair] at ha hb
  rcases ha with rfl | rfl <;> rcases hb with rfl | rfl
  · exact absurd rfl hne
  · exact absurd htime (by decide)
  · exact absurd htime (by decide)
  · exact absurd rfl hne

-- Two runs of one time and pages of one: the second run is behind a cursor that skips it.
theorem run_of_equal_time_is_lost :
    ¬ Complete (twoRuns 0 0 Locale.utc_zero Locale.utc_zero) .nil .none 1 := by
  intro h
  have happart := (complete_iff 1 (by decide)).mp h
  have hruns : (twoRuns 0 0 Locale.utc_zero Locale.utc_zero).matching .nil .none
      = [runAt 1 0, runAt 2 0] := by decide
  rw [hruns] at happart
  exact happart (runAt 1 0) mem_cons_self (runAt 2 0) (by simp) (by decide) rfl 1 (by decide)
    (by decide)

end Chainloop.Runs.Listing
