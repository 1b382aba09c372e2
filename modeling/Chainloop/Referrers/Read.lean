import Chainloop.Referrers.Store

namespace Chainloop.Referrers

open Go

structure GetFromRootFilters where
  rootKind : Option String
  projectIDs : Map UUID (List UUID)
  projectName : Option String
  projectVersion : Option String

structure Cursor where
  timestamp : Time
  id : UUID
deriving DecidableEq

structure CursorOptions where
  cursor : Option Cursor
  limit : Nat
deriving DecidableEq

def defaultCursorLimit : Nat := 10

structure Found where
  row : Row
  workflowIDs : List UUID
  orgIDs : List UUID
  projectIDs : List UUID

inductive StoredReferrer where
  | mk (found : Found) (references : List StoredReferrer)

inductive ReadQuery where
  | root
  | references (id : UUID)
  | inProject (id : UUID)
deriving DecidableEq

def runQuery {α : Type} (failure : ReadQuery → Option GoError) (q : ReadQuery) (context : String)
    (answer : α) : Run α :=
  match failure q with
  | some e => .error (.error (e.wrap context))
  | none => .ok answer

def Store.workflowsOf (s : Store) (row : Row) : List Workflow :=
  s.workflows.filter fun w => (row.id, w.id) ∈ s.attachments

def referrerVisibleToOrgs (s : Store) (orgIDs : List UUID) (row : Row) : Bool :=
  s.attachments.any fun e => e.1 == row.id &&
    s.workflows.any fun w => w.id == e.2 && w.deletedAt.isNone && orgIDs.contains w.organizationID

-- The projects of unrestricted organizations, and the ones that are granted in the
-- organization they are in. Without any the result is none.
def projectVisibilityPredicate (orgIDs : List UUID) (visible : Map UUID (List UUID)) :
    Option (Project → Bool) :=
  let unrestrictedOrgs := orgIDs.filter fun orgID => (visible.get? orgID).isNone
  let grants := orgIDs.flatMap fun orgID => (visible.getD orgID []).map fun id => (orgID, id)
  if unrestrictedOrgs.isEmpty && grants.isEmpty then none
  else some fun p => unrestrictedOrgs.contains p.organizationID ||
    grants.contains (p.organizationID, p.id)

-- The digest is the one of an attestation of a run in the project and version.
def projectScopePredicate (s : Store) (projectName version : String) (orgIDs : List UUID)
    (visible : Map UUID (List UUID)) : Row → Bool :=
  match projectVisibilityPredicate orgIDs visible with
  | none => fun _ => false
  | some rbacScope => fun row => s.runs.any fun run =>
    run.attestationDigest != "" && run.attestationDigest == row.digest &&
    s.versions.any (fun v => v.id == run.versionID && v.deletedAt.isNone &&
      (version == "" || v.version == version) &&
      s.projects.any fun p => p.id == v.projectID && p.name == projectName && p.deletedAt.isNone) &&
    s.workflows.any fun w => w.id == run.workflowID && w.deletedAt.isNone &&
      s.projects.any fun p => p.id == w.projectID && rbacScope p

def projectPred (s : Store) (orgIDs : List UUID) (opts : GetFromRootFilters) : Option (Row → Bool) :=
  match opts.projectName with
  | none => none
  | some name =>
    if name = "" then none
    else some (projectScopePredicate s name (opts.projectVersion.getD "") orgIDs opts.projectIDs)

-- Only attestations are held against the filter on the project.
def inScope (pred : Option (Row → Bool)) (row : Row) : Bool :=
  match pred with
  | none => true
  | some p => row.kind != referrerAttestationType || p row

def hydrateWorkflowsInfo (s : Store) (row : Row) : Found :=
  let workflows := s.workflowsOf row
  { row := row
    workflowIDs := workflows.map Workflow.id
    orgIDs := (workflows.map Workflow.organizationID).eraseDups
    projectIDs := (workflows.map Workflow.projectID).eraseDups }

def isReferrerVisible (ref : Found) (allowedOrgs : List UUID) (visible : Map UUID (List UUID)) :
    Bool :=
  ref.orgIDs.any fun oid => allowedOrgs.contains oid &&
    match visible.get? oid with
    | some visibleProjects => ref.projectIDs.any fun pid => visibleProjects.contains pid
    | none => true

-- The newest first, and the larger id first among those of one time.
def newerFirst (a b : Row) : Prop :=
  b.createdAt < a.createdAt ∨ (a.createdAt = b.createdAt ∧ b.id ≤ a.id)

instance : DecidableRel newerFirst := fun _ _ => inferInstanceAs (Decidable (_ ∨ _))

def beforeCursor (cursor : Option Cursor) (row : Row) : Bool :=
  match cursor with
  | none => true
  | some c => row.createdAt < c.timestamp || (row.createdAt == c.timestamp && row.id < c.id)

def Store.referencesOf (s : Store) (row : Row) : List Row :=
  s.referrers.filter fun r => (row.id, r.id) ∈ s.references

-- One more than the limit, so that a next page shows.
def queryReferences (s : Store) (orgIDs : List UUID) (pred : Option (Row → Bool)) (p : CursorOptions)
    (root : Row) : List Row :=
  (((s.referencesOf root).filter fun r =>
    referrerVisibleToOrgs s orgIDs r && inScope pred r && beforeCursor p.cursor r).insertionSort
      newerFirst).take (p.limit + 1)

-- refs[p.Limit-1] without a limit is out of range.
def cutPage (limit : Nat) (refs : List Row) : Run (List Row × Option Cursor) :=
  if refs.length > limit then
    match limit with
    | 0 => .error .panic
    | last + 1 => do
      let lastVisible ← Run.index refs last
      return (refs.take limit, some ⟨lastVisible.createdAt, lastVisible.id⟩)
  else .ok (refs, none)

-- A reference that the caller may not see is left out.
def addReference (acc : List StoredReferrer) (r : Run (StoredReferrer × Option Cursor)) :
    Run (List StoredReferrer) :=
  match r with
  | .ok (ref, _) => .ok (acc ++ [ref])
  | .error (.error e) =>
    if e.is .unauthorized then .ok acc else .error (.error (e.wrap "failed to get referrer"))
  | .error .panic => .error .panic

def maxTraverseLevels : Nat := 1

-- doGet, with the levels that are left. Options for a page are only given at the root.
def doGet (s : Store) (failure : ReadQuery → Option GoError) (allowedOrgs : List UUID)
    (visible : Map UUID (List UUID)) (pred : Option (Row → Bool)) :
    Nat → Row → Option CursorOptions → Run (StoredReferrer × Option Cursor)
  | 0, root, _ =>
    let res := hydrateWorkflowsInfo s root
    if isReferrerVisible res allowedOrgs visible then .ok (⟨res, []⟩, none)
    else .error (.error ⟨"referrer not allowed", [.unauthorized]⟩)
  | levels + 1, root, p => do
    let res := hydrateWorkflowsInfo s root
    if !isReferrerVisible res allowedOrgs visible then
      throw (.error ⟨"referrer not allowed", [.unauthorized]⟩)
    let p := p.getD ⟨none, defaultCursorLimit⟩
    let refs ← runQuery failure (.references root.id) "failed to query references"
      (queryReferences s allowedOrgs pred p root)
    let (refs, nextCursor) ← cutPage p.limit refs
    let references ← refs.foldlM (fun acc reference =>
      addReference acc (doGet s failure allowedOrgs visible pred levels reference none)) []
    match pred with
    | none => return (⟨res, references⟩, nextCursor)
    | some projectPred =>
      if levels + 1 == maxTraverseLevels && root.kind != referrerAttestationType &&
          references.isEmpty then
        let inProject ← runQuery failure (.inProject root.id)
          "failed to validate project membership"
          ((s.referencesOf root).any fun r => r.kind == referrerAttestationType &&
            projectPred r && referrerVisibleToOrgs s allowedOrgs r)
        if !inProject then
          throw (.error ⟨"referrer not part of the requested project", [.unauthorized]⟩)
      return (⟨res, references⟩, nextCursor)

def rootMatches (s : Store) (digest : String) (orgIDs : List UUID) (opts : GetFromRootFilters)
    (row : Row) : Bool :=
  row.digest == digest && (opts.rootKind.all fun kind => row.kind == kind) &&
    referrerVisibleToOrgs s orgIDs row && inScope (projectPred s orgIDs opts) row

def ambiguous (digest : String) (kinds : List String) : GoError :=
  ⟨"digest " ++ digest ++ " present in " ++ toString kinds.length ++ " kinds [" ++
    " ".intercalate (kinds.map fun kind => "\"" ++ kind ++ "\"") ++ "]", [.ambiguousReferrer]⟩

def getFromRoot (s : Store) (failure : ReadQuery → Option GoError) (digest : String)
    (orgIDs : List UUID) (p : Option CursorOptions) (opts : GetFromRootFilters) :
    Run (Option StoredReferrer × Option Cursor) := do
  let refs ← runQuery failure .root "failed to query referrer"
    (s.referrers.filter (rootMatches s digest orgIDs opts))
  match refs with
  | [] => return (none, none)
  | [root] =>
    match doGet s failure orgIDs opts.projectIDs (projectPred s orgIDs opts) maxTraverseLevels
        root p with
    | .ok (res, nextCursor) => return (some res, nextCursor)
    | .error (.error e) =>
      if e.is .unauthorized then return (none, none)
      else throw (.error (e.wrap "failed to get referrer"))
    | .error .panic => throw .panic
  | refs => throw (.error (ambiguous digest (refs.map fun r => r.kind)))

variable {s : Store}

theorem runQuery_root
    (hroot : s.referrers.filter (rootMatches s digest orgIDs opts) = [root]) :
    runQuery (fun _ => none) .root "failed to query referrer"
      (s.referrers.filter (rootMatches s digest orgIDs opts)) = .ok [root] := by
  rw [hroot]
  rfl

theorem getFromRoot_of_ok
    (hroot : s.referrers.filter (rootMatches s digest orgIDs opts) = [root])
    (hget : doGet s (fun _ => none) orgIDs opts.projectIDs (projectPred s orgIDs opts)
      maxTraverseLevels root p = .ok (res, next)) :
    getFromRoot s (fun _ => none) digest orgIDs p opts = .ok (some res, next) := by
  rw [getFromRoot, runQuery_root hroot]
  simp only [bind, Except.bind, hget]
  rfl

theorem getFromRoot_of_unauthorized {e : GoError}
    (hroot : s.referrers.filter (rootMatches s digest orgIDs opts) = [root])
    (hget : doGet s (fun _ => none) orgIDs opts.projectIDs (projectPred s orgIDs opts)
      maxTraverseLevels root p = .error (.error e)) (he : e.is .unauthorized = true) :
    getFromRoot s (fun _ => none) digest orgIDs p opts = .ok (none, none) := by
  rw [getFromRoot, runQuery_root hroot]
  simp only [bind, Except.bind, hget, he]
  rfl

end Chainloop.Referrers
