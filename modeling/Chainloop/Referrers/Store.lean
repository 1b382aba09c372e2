import Chainloop.Referrers.Star

namespace Chainloop.Referrers

open Go Structpb Renderer List

abbrev UUID := Nat

abbrev Time := Nat

structure Workflow where
  id : UUID
  organizationID : UUID
  projectID : UUID
  deletedAt : Option Time
deriving DecidableEq

structure Project where
  id : UUID
  name : String
  organizationID : UUID
  deletedAt : Option Time
deriving DecidableEq

structure ProjectVersion where
  id : UUID
  version : String
  projectID : UUID
  deletedAt : Option Time
deriving DecidableEq

structure WorkflowRun where
  attestationDigest : String
  versionID : UUID
  workflowID : UUID
deriving DecidableEq

-- A row of the table of referrers. All of its columns are immutable.
structure Row extends Ref where
  id : UUID
  downloadable : Bool
  createdAt : Time
  metadata : Map String String
  annotations : Map String String
deriving DecidableEq

-- The edge tables hold pairs of ids: a referrer and one it refers to, a referrer and a
-- workflow it was saved for. The primary key and the index on digest and kind are unique.
structure Store where
  referrers : List Row
  references : List (UUID × UUID)
  attachments : List (UUID × UUID)
  workflows : List Workflow
  projects : List Project
  versions : List ProjectVersion
  runs : List WorkflowRun
  ids : (referrers.map Row.id).Nodup
  index : (referrers.map Row.toRef).Nodup

theorem find?_of_nodup {α β : Type} [DecidableEq β] {key : α → β} {l : List α}
    (h : (l.map key).Nodup) {a : α} (ha : a ∈ l) {b : β} (hb : key a = b) :
    l.find? (fun x => key x = b) = some a := by
  have hsome : (l.find? fun x => key x = b).isSome := find?_isSome.mpr ⟨a, ha, by simpa using hb⟩
  obtain ⟨x, hx⟩ := Option.isSome_iff_exists.mp hsome
  have hkey : key x = b := by simpa using find?_some hx
  rw [hx, inj_on_of_nodup_map h (mem_of_find?_eq_some hx) ha (hkey.trans hb.symm)]

namespace Store

def find (s : Store) (ref : Ref) : Option Row := s.referrers.find? fun r => r.toRef = ref

theorem find_eq_none {s : Store} (h : s.find ref = none) : ref ∉ s.referrers.map Row.toRef := by
  intro hmem
  obtain ⟨r, hr, rfl⟩ := mem_map.mp hmem
  simpa using find?_eq_none.mp h r hr

theorem find_eq_some {s : Store} {r : Row} (h : s.find ref = some r) :
    r ∈ s.referrers ∧ r.toRef = ref :=
  ⟨mem_of_find?_eq_some h, by simpa using find?_some h⟩

theorem find_of_mem (s : Store) {r : Row} (hr : r ∈ s.referrers) : s.find r.toRef = some r :=
  find?_of_nodup s.index hr rfl

def insert (s : Store) (row : Row) (hid : row.id ∉ s.referrers.map Row.id)
    (href : row.toRef ∉ s.referrers.map Row.toRef) : Store :=
  { s with
    referrers := s.referrers ++ [row]
    ids := by
      rw [map_append]
      exact nodup_append.mpr ⟨s.ids, nodup_singleton _, by
        intro a ha b hb hab
        rw [mem_singleton.mp hb] at hab
        exact hid (hab ▸ ha)⟩
    index := by
      rw [map_append]
      exact nodup_append.mpr ⟨s.index, nodup_singleton _, by
        intro a ha b hb hab
        rw [mem_singleton.mp hb] at hab
        exact href (hab ▸ ha)⟩ }

-- A pair that is in an edge table already is not added again.
def attach (s : Store) (referrerID workflowID : UUID) : Store :=
  { s with attachments := s.attachments.insert (referrerID, workflowID) }

def addReferences (s : Store) (referrerID : UUID) (references : List UUID) : Store :=
  { s with references := references.foldl (fun l id => l.insert (referrerID, id)) s.references }

-- INSERT … ON CONFLICT (digest, kind) DO UPDATE of the columns that are not immutable,
-- which are none.
def upsert (s : Store) (row : Row) (workflowID : UUID) : Except GoError (Store × UUID) :=
  match h : s.find row.toRef with
  | some r => .ok (s.attach r.id workflowID, r.id)
  | none =>
    if hid : row.id ∈ s.referrers.map Row.id then
      .error (.new "ent: constraint failed: duplicate key value violates unique constraint")
    else .ok ((s.insert row hid (find_eq_none h)).attach row.id workflowID, row.id)

def findWorkflow (s : Store) (id : UUID) : Except GoError Workflow :=
  match s.workflows.find? fun w => w.deletedAt = none ∧ w.id = id with
  | some w => .ok w
  | none => .error (.new "workflow not found")

end Store

inductive Query where
  | lookupWorkflow
  | exist (digest : String)
  | findWorkflow
  | create (ref : Ref)
  | load (ref : Ref)
  | relate (ref : Ref)
deriving DecidableEq

-- The connection to the database: the queries that fail, and the ids and times it gives
-- to new rows.
structure Connection where
  failure : Query → Option GoError
  newID : Ref → UUID
  now : Ref → Time

def Connection.query {α : Type} (c : Connection) (q : Query) (answer : Except GoError α) :
    Except GoError α :=
  match c.failure q with
  | some e => .error e
  | none => answer

theorem Connection.query_eq_ok {c : Connection} (h : c.query q answer = .ok a) :
    answer = .ok a := by
  unfold Connection.query at h
  split at h
  · cases h
  · exact h

def Store.exist (c : Connection) (s : Store) (digest : String) : Except GoError Bool :=
  c.query (.exist digest) (.ok (s.find ⟨digest, referrerAttestationType⟩).isSome)

inductive SaveError where
  | findWorkflow (e : GoError)
  | createReferrer (e : GoError)
  | loadReferrer (e : GoError)
  | referrerNotFound (ref : Ref)
  | createRelationship (e : GoError)
deriving DecidableEq

def SaveError.toGoError : SaveError → GoError
  | .findWorkflow e => e.wrap "failed to find workflow"
  | .createReferrer e => e.wrap "failed to create referrer"
  | .loadReferrer e => e.wrap "failed to load referrer"
  | .referrerNotFound ref => .new ("referrer &\x7b" ++ ref.digest ++ " " ++ ref.kind ++
      " false [] map[] map[]\x7d not found")
  | .createRelationship e => e.wrap "failed to create referrer relationship"

def newRow (c : Connection) (ref : Referrer) : Row :=
  ⟨ref.toRef, c.newID ref.toRef, ref.downloadable, c.now ref.toRef, ref.metadata, ref.annotations⟩

def saveReferrer (c : Connection) (workflowID : UUID) (acc : Store × Map String UUID)
    (ref : Referrer) : Except SaveError (Store × Map String UUID) := do
  let (s, storedID) ← (c.query (.create ref.toRef)
    (acc.1.upsert (newRow c ref) workflowID)).mapError .createReferrer
  (c.query (.load ref.toRef) (.ok ())).mapError .loadReferrer
  return (s, acc.2.set ref.mapID storedID)

def storedReference (stored : Map String UUID) (ref : Ref) : Except SaveError UUID :=
  match stored.get? ref.mapID with
  | some id => .ok id
  | none => .error (.referrerNotFound ref)

def saveReferences (c : Connection) (stored : Map String UUID) (s : Store) (parent : Referrer) :
    Except SaveError Store := do
  let references ← parent.references.mapM (storedReference stored)
  if references.isEmpty then return s
  (c.query (.relate parent.toRef) (.ok ())).mapError .createRelationship
  return s.addReferences (stored.getD parent.mapID 0) references

def save (c : Connection) (s : Store) (referrers : List Referrer) (workflowID : UUID) :
    Except SaveError Store := do
  let _ ← (c.query .findWorkflow (s.findWorkflow workflowID)).mapError .findWorkflow
  let (s, stored) ← referrers.foldlM (saveReferrer c workflowID) (s, .empty)
  referrers.foldlM (saveReferences c stored) s

structure Push where
  envelope : Envelope
  digest : String
  workflowID : Except GoError UUID

def extractAndPersist (print : Value → String) (s : Store) (c : Connection) (p : Push) :
    Run Store := do
  let workflowID ← Run.ofExcept (wrapErr "invalid UUID" p.workflowID)
  let _ ← Run.ofExcept (wrapErr "finding workflow"
    (c.query .lookupWorkflow (s.findWorkflow workflowID)))
  let referrers ← (extractReferrers print (s.exist c) p.envelope p.digest).wrapErr
    "extracting referrers"
  Run.ofExcept (wrapErr "saving referrers"
    ((save c s referrers workflowID).mapError SaveError.toGoError))

-- Saves that were completed one after the other, each over a connection of its own. What a save
-- that fails in the middle leaves in the tables is not followed.
def completedSaves (print : Value → String) (s : Store) (pushes : List (Connection × Push)) : Run Store :=
  pushes.foldlM (fun s p => extractAndPersist print s p.1 p.2) s

end Chainloop.Referrers
