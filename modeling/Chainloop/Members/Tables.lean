import Chainloop.Authz
import Chainloop.Go.Map
import Chainloop.Go.Uuid

namespace Chainloop.Members

open Go Authz Option List Map

-- A role of a member on a resource. `organizationID` is the organization edge, which only
-- the roles over the whole instance lack.
structure Membership where
  membershipType : MembershipType
  memberID : UUID
  resourceType : ResourceType
  resourceID : UUID
  role : Role
  organizationID : Option UUID
  home : resourceType = .organization → organizationID = some resourceID
deriving DecidableEq

structure Group where
  name : String
  organizationID : UUID
  deleted : Bool
deriving DecidableEq

structure GroupMembership where
  groupID : UUID
  userID : UUID
  maintainer : Bool
  deleted : Bool
deriving DecidableEq

namespace Membership

def key (m : Membership) : MembershipType × UUID × ResourceType × UUID :=
  (m.membershipType, m.memberID, m.resourceType, m.resourceID)

def InOrg (m : Membership) (org : UUID) : Prop :=
  m.membershipType = .user ∧ m.resourceType = .organization ∧ m.resourceID = org

instance (m : Membership) (org : UUID) : Decidable (m.InOrg org) :=
  inferInstanceAs (Decidable (_ ∧ _ ∧ _))

def SameMember (m m' : Membership) : Prop :=
  m.key = m'.key ∧ m.organizationID = m'.organizationID

variable {m m' : Membership}

theorem SameMember.symm (h : m.SameMember m') : m'.SameMember m := ⟨h.1.symm, h.2.symm⟩

theorem SameMember.memberID (h : m.SameMember m') : m.memberID = m'.memberID :=
  congrArg (·.2.1) h.1

theorem SameMember.inOrg (h : m.SameMember m') (hm : m.InOrg org) :
    m'.InOrg org := by
  obtain ⟨hkey, -⟩ := h
  simp only [key, Prod.mk.injEq] at hkey
  obtain ⟨htype, -, hresource, hid⟩ := hkey
  exact ⟨htype ▸ hm.1, hresource ▸ hm.2.1, hid ▸ hm.2.2⟩

theorem InOrg.organizationID {m : Membership} (h : m.InOrg org) : m.organizationID = some org := by
  rw [m.home h.2.1, h.2.2]

end Membership

-- The roles that were given explicitly, of which a member has one on a resource (the unique index
-- where parent_id IS NULL). Rows with a parent, which are derived from these, are left out.
structure Db where
  users : List UUID
  memberships : Map UUID Membership
  groups : Map UUID Group
  groupMemberships : Map UUID GroupMembership
  oneExplicitRole : ∀ id m id' m', memberships.get? id = some m → memberships.get? id' = some m' →
    m.key = m'.key → id = id'

namespace Db

def empty (users : List UUID) : Db where
  users := users
  memberships := .empty
  groups := .empty
  groupMemberships := .empty
  oneExplicitRole := by
    intro id m id' m' h
    rw [get?_empty] at h
    cases h

def Accepts (db : Db) (id : UUID) (m : Membership) : Prop :=
  id ∉ db.memberships.keys ∧ (∀ e ∈ db.memberships.entries, e.2.key ≠ m.key) ∧
    (m.membershipType = .user → m.memberID ∈ db.users)

instance (db : Db) (id : UUID) (m : Membership) : Decidable (db.Accepts id m) :=
  inferInstanceAs (Decidable (_ ∧ _ ∧ _))

def create (db : Db) (id : UUID) (m : Membership) : Option Db :=
  if h : db.Accepts id m then
    some { db with
      memberships := db.memberships.set id m
      oneExplicitRole := by
        have hold : ∀ k row, db.memberships.get? k = some row → row.key ≠ m.key :=
          fun k row hrow => h.2.1 (k, row) ((get?_eq_some_iff ..).mp hrow)
        intro k row k' row' hrow hrow' hkey
        rw [get?_set] at hrow hrow'
        split at hrow <;> split at hrow'
        · rename_i hk hk'
          exact hk.trans hk'.symm
        · cases hrow
          exact absurd hkey.symm (hold k' row' hrow')
        · cases hrow'
          exact absurd hkey (hold k row hrow)
        · exact db.oneExplicitRole k row k' row' hrow hrow' hkey }
  else
    none

def deleteWhere (db : Db) (gone : UUID → Membership → Bool) : Db :=
  { db with
    memberships := db.memberships.filter fun id m => !gone id m
    oneExplicitRole := by
      intro id m id' m' hm hm'
      exact db.oneExplicitRole id m id' m' ((get?_filter ..).mp hm).1 ((get?_filter ..).mp hm').1 }

theorem deleteWhere_get? (db : Db) (gone : UUID → Membership → Bool) (id : UUID) (m : Membership) :
    (db.deleteWhere gone).memberships.get? id = some m ↔
      db.memberships.get? id = some m ∧ gone id m = false := by
  simp [deleteWhere, get?_filter]

private theorem withRole_get? (memberships : Map UUID Membership) (id : UUID) (role : Role)
    (other : UUID) (m : Membership)
    (h : (memberships.mapValues fun k m => if k = id then { m with role := role } else m).get? other = some m) :
    ∃ was, memberships.get? other = some was ∧ m = if other = id then { was with role := role } else was := by
  rw [get?_mapValues, map_eq_some_iff] at h
  obtain ⟨was, hwas, rfl⟩ := h
  exact ⟨was, hwas, rfl⟩

private theorem withRole_key (was : Membership) (role : Role) (p : Prop) [Decidable p] :
    (if p then { was with role := role } else was).key = was.key := by
  split <;> rfl

def setRole (db : Db) (id : UUID) (role : Role) : Option Db :=
  if (db.memberships.get? id).isSome then
    some { db with
      memberships := db.memberships.mapValues fun k m => if k = id then { m with role := role } else m
      oneExplicitRole := by
        intro k m k' m' hm hm' hkey
        obtain ⟨was, hwas, rfl⟩ := withRole_get? _ _ _ _ _ hm
        obtain ⟨was', hwas', rfl⟩ := withRole_get? _ _ _ _ _ hm'
        rw [withRole_key, withRole_key] at hkey
        exact db.oneExplicitRole k was k' was' hwas hwas' hkey }
  else
    none

variable {id : UUID}

theorem setRole_get? {db db' : Db} (h : db.setRole id role = some db') (other : UUID) :
    db'.memberships.get? other = (db.memberships.get? other).map fun m =>
      if other = id then { m with role := role } else m := by
  obtain ⟨-, hset⟩ := ite_none_right_eq_some.mp h
  cases hset
  exact get?_mapValues ..

-- Soft deletes the rows of a user in the groups of the organisation.
def leaveGroups (db : Db) (user : UUID) (org : Option UUID) : Db :=
  { db with groupMemberships := db.groupMemberships.mapValues fun _ gm =>
      if gm.userID = user ∧ gm.deleted = false ∧
          (db.groups.get? gm.groupID).map (·.organizationID) = org then
        { gm with deleted := true }
      else gm }

def delete (db : Db) (id : UUID) (found : Membership) : Option Db :=
  if (db.memberships.get? id).isSome then
    let rest := db.deleteWhere fun other _ => other = id
    if found.resourceType = .organization ∧ found.membershipType = .user then
      some ((rest.deleteWhere fun other m =>
        other ≠ id ∧ m.memberID = found.memberID ∧ m.organizationID = found.organizationID).leaveGroups
          found.memberID found.organizationID)
    else
      some rest
  else
    none

theorem delete_get? {db db' : Db} {found : Membership} (hfound : found.InOrg org)
    (h : db.delete id found = some db') (other : UUID) (m : Membership) :
    db'.memberships.get? other = some m ↔ db.memberships.get? other = some m ∧ other ≠ id ∧
      (m.memberID ≠ found.memberID ∨ m.organizationID ≠ some org) := by
  obtain ⟨-, hrest⟩ := ite_none_right_eq_some.mp h
  rw [if_pos ⟨hfound.2.1, hfound.1⟩, some.injEq] at hrest
  subst hrest
  simp only [leaveGroups, deleteWhere_get?, hfound.organizationID, decide_eq_false_iff_not]
  tauto

def findByIDInUser (db : Db) (user id : UUID) : Option Membership :=
  (db.memberships.get? id).filter fun m =>
    m.membershipType = .user ∧ m.memberID = user ∧ m.resourceType = .organization

def findByIDInOrg (db : Db) (org id : UUID) : Option Membership :=
  (db.memberships.get? id).filter fun m => m.InOrg org

variable {db : Db}

theorem findByIDInUser_eq_some {m : Membership}
    (h : db.findByIDInUser user id = some m) :
    db.memberships.get? id = some m ∧ m.memberID = user ∧ m.InOrg m.resourceID := by
  obtain ⟨hm, hcond⟩ := filter_eq_some_iff.mp h
  obtain ⟨htype, hmember, hresource⟩ := of_decide_eq_true hcond
  exact ⟨hm, hmember, htype, hresource, rfl⟩

theorem findByIDInOrg_eq_some {m : Membership}
    (h : db.findByIDInOrg org id = some m) : db.memberships.get? id = some m ∧ m.InOrg org := by
  obtain ⟨hm, hcond⟩ := filter_eq_some_iff.mp h
  exact ⟨hm, of_decide_eq_true hcond⟩

def defaultPageSize : Nat := 100

def membersOf (db : Db) (org : UUID) (role : Role) : List (UUID × Membership) :=
  db.memberships.entries.filter fun e => e.2.InOrg org ∧ e.2.role = role

theorem mem_membersOf : e ∈ db.membersOf org role ↔
      db.memberships.get? e.1 = some e.2 ∧ e.2.InOrg org ∧ e.2.role = role := by
  rw [membersOf, mem_filter, decide_eq_true_iff, get?_eq_some_iff]

def findByOrg (db : Db) (org : UUID) (role : Role) : List (UUID × Membership) :=
  (db.membersOf org role).reverse.take defaultPageSize

theorem mem_membersOf_of_findByOrg (h : e ∈ db.findByOrg org role) :
    e ∈ db.membersOf org role :=
  mem_reverse.mp (mem_of_mem_take h)

theorem findByOrg_nodup (db : Db) (org : UUID) (role : Role) : (db.findByOrg org role).Nodup := by
  have hentries : db.memberships.entries.Nodup := List.Nodup.of_map Prod.fst db.memberships.nodup
  exact (nodup_reverse.mpr (hentries.filter _)).sublist (take_sublist ..)

def listAllByUser (db : Db) (user : UUID) : List Membership :=
  (db.memberships.entries.map Prod.snd).filter fun m => m.membershipType = .user ∧ m.memberID = user

def listGroupMembershipsByUser (db : Db) (user : UUID) : List Membership :=
  let groupMemberships := (db.groupMemberships.entries.map Prod.snd).filter fun gm =>
    gm.userID = user ∧ gm.deleted = false
  (db.memberships.entries.map Prod.snd).filter fun m =>
    m.membershipType = .group ∧ m.memberID ∈ groupMemberships.map (·.groupID)

def listAllMembershipsForUser (db : Db) (user : UUID) : List Membership :=
  db.listAllByUser user ++ db.listGroupMembershipsByUser user

-- The roles of a user are their own and those of the groups they are in.
def Holds (db : Db) (user : UUID) (m : Membership) : Prop :=
  (∃ id, db.memberships.get? id = some m) ∧ (m.membershipType = .user ∧ m.memberID = user ∨
      m.membershipType = .group ∧ ∃ id gm, db.groupMemberships.get? id = some gm ∧
        gm.userID = user ∧ gm.deleted = false ∧ gm.groupID = m.memberID)

theorem mem_listAllMembershipsForUser :
    m ∈ db.listAllMembershipsForUser user ↔ db.Holds user m := by
  simp only [listAllMembershipsForUser, listAllByUser, listGroupMembershipsByUser, Holds, mem_append,
    List.mem_filter, List.mem_map, Prod.exists, exists_eq_right, get?_eq_some_iff, decide_eq_true_iff]
  grind

end Db

end Chainloop.Members
