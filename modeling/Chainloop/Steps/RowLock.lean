import Mathlib.Logic.Function.Basic

-- Tables whose rows are changed by transactions that lock them first. A lock is held until
-- its transaction ends, and a statement that needs a row locked by another one waits.
namespace Chainloop.RowLock

open Function Option

structure Db (Tx Key Row : Type) where
  committed : Key → Option Row
  owner : Key → Option Tx
  -- the rows as the owners of their locks are about to leave them
  pending : Key → Option Row

namespace Db

variable {Tx Key Row : Type}

def ofRows (rows : Key → Option Row) : Db Tx Key Row := ⟨rows, fun _ => none, rows⟩

variable [DecidableEq Tx] [DecidableEq Key]

def read (db : Db Tx Key Row) (t : Tx) (k : Key) : Option Row :=
  if db.owner k = some t then db.pending k else db.committed k

def lock (db : Db Tx Key Row) (t : Tx) (k : Key) : Option (Db Tx Key Row) :=
  match db.owner k with
  | none => some { db with
      owner := update db.owner k (some t)
      pending := update db.pending k (db.committed k) }
  | some other => if other = t then some db else none

def write (db : Db Tx Key Row) (t : Tx) (k : Key) (row : Row) : Option (Db Tx Key Row) :=
  (db.lock t k).map fun db => { db with pending := update db.pending k (some row) }

def release (db : Db Tx Key Row) (t : Tx) : Key → Option Tx :=
  fun k => if db.owner k = some t then none else db.owner k

def commit (db : Db Tx Key Row) (t : Tx) : Db Tx Key Row :=
  { db with committed := db.read t, owner := db.release t }

def rollback (db : Db Tx Key Row) (t : Tx) : Db Tx Key Row := { db with owner := db.release t }

structure Frame (t : Tx) (db db' : Db Tx Key Row) : Prop where
  owner : ∀ k, db'.owner k = some t ↔ db.owner k = some t
  pending : ∀ k, db.owner k = some t → db'.pending k = db.pending k
  committed : ∀ k, db.owner k = some t → db'.committed k = db.committed k

variable {db db' : Db Tx Key Row} {t other : Tx} {k : Key}

omit [DecidableEq Tx] [DecidableEq Key] in
theorem Frame.refl (t : Tx) (db : Db Tx Key Row) : Frame t db db :=
  ⟨fun _ => Iff.rfl, fun _ _ => rfl, fun _ _ => rfl⟩

omit [DecidableEq Tx] [DecidableEq Key] in
theorem Frame.trans (h : Frame t db mid) (h' : Frame t mid db') : Frame t db db' where
  owner k := (h'.owner k).trans (h.owner k)
  pending k hk := (h'.pending k ((h.owner k).mpr hk)).trans (h.pending k hk)
  committed k hk := (h'.committed k ((h.owner k).mpr hk)).trans (h.committed k hk)

section
variable (h : db.lock t k = some db')
include h

theorem lock_committed : db'.committed = db.committed := by
  unfold lock at h
  split at h
  · cases h
    rfl
  · split at h <;> cases h
    rfl

theorem lock_owner : db'.owner k = some t := by
  unfold lock at h
  split at h
  · cases h
    exact update_self ..
  · split at h <;> cases h
    simp_all

theorem lock_pending : db'.pending k = db.read t k := by
  unfold lock at h
  split at h
  · rename_i hfree
    cases h
    simp [read, hfree]
  · rename_i holder hheld
    simp_all [read]

theorem lock_ne (hne : j ≠ k) : db'.owner j = db.owner j ∧ db'.pending j = db.pending j := by
  unfold lock at h
  split at h
  · cases h
    exact ⟨update_of_ne hne .., update_of_ne hne ..⟩
  · split at h <;> cases h
    exact ⟨rfl, rfl⟩

end

theorem lock_frame (h : db.lock other k = some db') (hne : t ≠ other) : Frame t db db' := by
  have hfree : db.owner k ≠ some t := by
    intro hk
    simp only [lock, hk, ite_none_right_eq_some] at h
    exact hne h.1
  refine ⟨fun j => ?_, fun j hj => ?_, fun j _ => congrFun (lock_committed h) j⟩
  · by_cases hjk : j = k
    · subst j
      rw [lock_owner h]
      exact ⟨fun hsame => absurd (some.inj hsame).symm hne, fun hk => absurd hk hfree⟩
    · rw [(lock_ne h hjk).1]
  · have hjk : j ≠ k := by
      rintro rfl
      exact hfree hj
    exact (lock_ne h hjk).2

theorem write_eq_some (h : db.write t k row = some db') : ∃ mid, db.lock t k = some mid ∧
      db' = { mid with pending := update mid.pending k (some row) } := by
  obtain ⟨mid, hmid, rfl⟩ := map_eq_some_iff.mp h
  exact ⟨mid, hmid, rfl⟩

theorem write_committed (h : db.write t k row = some db') : db'.committed = db.committed := by
  obtain ⟨mid, hmid, rfl⟩ := write_eq_some h
  simpa using lock_committed hmid

theorem write_owner (h : db.write t k row = some db') : db'.owner k = some t := by
  obtain ⟨mid, hmid, rfl⟩ := write_eq_some h
  simpa using lock_owner hmid

theorem write_pending (h : db.write t k row = some db') : db'.pending k = some row := by
  obtain ⟨mid, hmid, rfl⟩ := write_eq_some h
  exact update_self ..

theorem write_ne (h : db.write t k row = some db') (hne : j ≠ k) :
    db'.owner j = db.owner j ∧ db'.pending j = db.pending j := by
  obtain ⟨mid, hmid, rfl⟩ := write_eq_some h
  obtain ⟨howner, hpending⟩ := lock_ne hmid hne
  exact ⟨howner, (update_of_ne hne ..).trans hpending⟩

theorem write_frame (h : db.write other k row = some db') (hne : t ≠ other) : Frame t db db' := by
  obtain ⟨mid, hmid, rfl⟩ := write_eq_some h
  have hframe := lock_frame hmid hne
  refine ⟨hframe.owner, fun j hj => ?_, hframe.committed⟩
  have hjk : j ≠ k := by
    rintro rfl
    exact hne (some.inj (((hframe.owner j).mpr hj).symm.trans (lock_owner hmid)))
  exact (update_of_ne hjk ..).trans (hframe.pending j hj)

omit [DecidableEq Key] in
theorem release_eq_some : db.release other k = some t ↔ db.owner k = some t ∧ t ≠ other := by
  unfold release
  split <;> grind

omit [DecidableEq Key] in
theorem release_self : db.release t k ≠ some t := fun h => (release_eq_some.mp h).2 rfl

omit [DecidableEq Key] in
theorem rollback_frame (db : Db Tx Key Row) (hne : t ≠ other) : Frame t db (db.rollback other) where
  owner _ := release_eq_some.trans (and_iff_left hne)
  pending _ _ := rfl
  committed _ _ := rfl

omit [DecidableEq Key] in
theorem commit_frame (db : Db Tx Key Row) (hne : t ≠ other) : Frame t db (db.commit other) where
  owner _ := release_eq_some.trans (and_iff_left hne)
  pending _ _ := rfl
  committed k hk := by
    have hother : db.owner k ≠ some other := by
      rw [hk]
      exact fun hsame => hne (some.inj hsame)
    simp [commit, read, hother]

end Db

end Chainloop.RowLock
