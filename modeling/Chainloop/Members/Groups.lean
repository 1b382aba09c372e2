import Chainloop.Members.Tables

-- The groups of the organisations. Who maintains a group is written twice: on the row of the
-- member in the group, and as a role among the memberships.
namespace Chainloop.Members

open Go Authz Option Map

variable {db db' : Db} {m : Membership} {g : Group}

namespace Db

def constraintFailed : GoError := .new "ent: constraint failed"

def findGroup (db : Db) (org group : UUID) : Option Group :=
  (db.groups.get? group).filter fun g => g.deleted = false ∧ g.organizationID = org

def liveRows (db : Db) (group user : UUID) : List (UUID × GroupMembership) :=
  db.groupMemberships.entries.filter fun e =>
    e.2.userID = user ∧ e.2.groupID = group ∧ e.2.deleted = false

def onlyRow (db : Db) (group user : UUID) : Except GoError (UUID × GroupMembership) :=
  match db.liveRows group user with
  | [row] => .ok row
  | [] => .error (.notFound "group membership")
  | _ => .error ((GoError.new "ent: group_membership not singular").wrap
      "failed to check existing group membership")

def setRow (db : Db) (id : UUID) (row : GroupMembership) : Db :=
  { db with groupMemberships := db.groupMemberships.set id row }

def addRow (db : Db) (id : UUID) (row : GroupMembership) : Except GoError Db :=
  if id ∈ db.groupMemberships.keys ∨ row.userID ∉ db.users ∨ row.groupID ∉ db.groups.keys ∨
      db.liveRows row.groupID row.userID ≠ [] then
    .error constraintFailed
  else
    .ok (db.setRow id row)

def maintainerOf (org group user : UUID) : Membership :=
  ⟨.user, user, .group, group, .groupMaintainer, some org, nofun⟩

def addMaintainer (db : Db) (id org group user : UUID) : Except GoError Db :=
  match db.create id (maintainerOf org group user) with
  | none => .error constraintFailed
  | some db' => .ok db'

def removeMaintainer (db : Db) (org group user : UUID) : Db :=
  db.deleteWhere fun _ m => m.memberID = user ∧ m.resourceID = group ∧ m.resourceType = .group ∧
    m.organizationID = some org

def createGroup (db : Db) (group rowID roleID org : UUID) (name : String) (user : Option UUID) :
    Except GoError Db :=
  if group ∈ db.groups.keys ∨
      ∃ e ∈ db.groups.entries, e.2.name = name ∧ e.2.organizationID = org ∧ e.2.deleted = false then
    .error ((GoError.new "duplicated: group with the same name already exists").wrap "failed to create group")
  else
    let created := { db with groups := db.groups.set group ⟨name, org, false⟩ }
    match user with
    | none => .ok created
    | some user => do
      let joined ← created.addRow rowID ⟨group, user, true, false⟩
      joined.addMaintainer roleID org group user

def softDeleteGroup (db : Db) (org group : UUID) : Except GoError Db :=
  match db.findGroup org group with
  | none => .error (.notFound "group")
  | some found =>
    let closed := { db with
      groups := db.groups.set group { found with deleted := true }
      groupMemberships := db.groupMemberships.mapValues fun _ row =>
        if row.groupID = group ∧ row.deleted = false then { row with deleted := true } else row }
    .ok (closed.deleteWhere fun _ m => m.organizationID = some org ∧
      (m.memberID = group ∨ m.resourceID = group ∧ m.resourceType = .group))

def addMemberToGroup (db : Db) (rowID roleID org group user : UUID) (maintainer : Bool) : Except GoError Db :=
  if db.liveRows group user ≠ [] then
    .error ((GoError.new "duplicated: user is already a member of this group").wrap
      "failed to add member to group")
  else do
    let joined ← db.addRow rowID ⟨group, user, maintainer, false⟩
    if maintainer then joined.addMaintainer roleID org group user else .ok joined

def removeMemberFromGroup (db : Db) (org group user : UUID) : Except GoError Db := do
  let (id, row) ← db.onlyRow group user
  let removed := db.setRow id { row with deleted := true }
  .ok (if row.maintainer then removed.removeMaintainer org group user else removed)

def updateMemberMaintainerStatus (db : Db) (roleID org group user : UUID) (isMaintainer : Bool) :
    Except GoError Db := do
  let (id, row) ← db.onlyRow group user
  if row.maintainer = isMaintainer then
    .ok db
  else
    let updated := db.setRow id { row with maintainer := isMaintainer }
    if isMaintainer then
      if ∃ e ∈ updated.memberships.entries, e.2.memberID = user ∧ e.2.resourceID = group ∧
          e.2.resourceType = .group then
        .ok updated
      else
        updated.addMaintainer roleID org group user
    else
      .ok (updated.removeMaintainer org group user)

end Db

-- The operations on the tables. Those on a group first look for it among the live ones of the
-- organisation. A role on another kind of resource comes from elsewhere.
inductive Operation where
  | signUp (user : UUID)
  | grant (id : UUID) (m : Membership)
  | createGroup (group rowID roleID org : UUID) (name : String) (user : Option UUID)
  | deleteGroup (org group : UUID)
  | addMember (rowID roleID org group user : UUID) (maintainer : Bool)
  | removeMember (org group user : UUID)
  | updateMaintainer (roleID org group user : UUID) (isMaintainer : Bool)
  | deleteMembership (org id : UUID)
deriving DecidableEq

namespace Operation

def onGroup (db : Db) (org group : UUID) (op : Except GoError Db) : Except GoError Db :=
  match db.findGroup org group with
  | none => .error (.notFound "group")
  | some _ => op

def apply (db : Db) : Operation → Except GoError Db
  | .signUp user => .ok { db with users := user :: db.users }
  | .grant id m =>
    match db.create id m with
    | none => .error Db.constraintFailed
    | some db' => .ok db'
  | .createGroup group rowID roleID org name user => db.createGroup group rowID roleID org name user
  | .deleteGroup org group => onGroup db org group (db.softDeleteGroup org group)
  | .addMember rowID roleID org group user maintainer =>
    onGroup db org group (db.addMemberToGroup rowID roleID org group user maintainer)
  | .removeMember org group user => onGroup db org group (db.removeMemberFromGroup org group user)
  | .updateMaintainer roleID org group user isMaintainer =>
    onGroup db org group (db.updateMemberMaintainerStatus roleID org group user isMaintainer)
  | .deleteMembership org id =>
    match db.findByIDInOrg org id with
    | none => .error (.notFound "membership")
    | some m =>
      match db.delete id m with
      | none => .error (.new "ent: membership not found")
      | some db' => .ok db'

-- uuid.New never draws the id of a user for a group or the other way round, and the roles on
-- groups come from the operations on groups alone.
def Possible (db : Db) : Operation → Prop
  | .signUp user => user ∉ db.groups.keys
  | .grant _ m => m.resourceType ≠ .group
  | .createGroup group .. => group ∉ db.users
  | _ => True

instance (db : Db) : (op : Operation) → Decidable (op.Possible db)
  | .signUp _ => inferInstanceAs (Decidable (_ ∉ _))
  | .grant _ _ => inferInstanceAs (Decidable (_ ≠ _))
  | .createGroup .. => inferInstanceAs (Decidable (_ ∉ _))
  | .deleteGroup .. | .addMember .. | .removeMember .. | .updateMaintainer .. | .deleteMembership .. =>
    inferInstanceAs (Decidable True)

end Operation

def Db.after (db : Db) (op : Operation) : Db :=
  if op.Possible db then
    match op.apply db with
    | .ok db' => db'
    | .error _ => db
  else
    db

namespace Db

def HasRole (db : Db) (user group : UUID) : Prop :=
  ∃ id m, db.memberships.get? id = some m ∧ m.membershipType = .user ∧ m.memberID = user ∧
    m.resourceType = .group ∧ m.resourceID = group ∧ m.role = .groupMaintainer

def LiveRow (db : Db) (id : UUID) (row : GroupMembership) : Prop :=
  db.groupMemberships.get? id = some row ∧ row.deleted = false

def LiveGroup (db : Db) (group : UUID) : Prop := ∃ g, db.groups.get? group = some g ∧ g.deleted = false

def Maintains (db : Db) (user group : UUID) : Prop :=
  db.LiveGroup group ∧ ∃ id row, db.LiveRow id row ∧ row.groupID = group ∧ row.userID = user ∧
    row.maintainer = true

structure Kept (db : Db) : Prop where
  roles : ∀ id m, db.memberships.get? id = some m → m.resourceType = .group →
    ∃ g, db.groups.get? m.resourceID = some g ∧
      m = maintainerOf g.organizationID m.resourceID m.memberID ∧ m.memberID ∈ db.users
  rows : ∀ id row, db.LiveRow id row → db.LiveGroup row.groupID ∧ row.userID ∈ db.users
  oneRow : ∀ id row id' row', db.LiveRow id row → db.LiveRow id' row' → row.groupID = row'.groupID →
    row.userID = row'.userID → id = id'
  apart : ∀ user ∈ db.users, user ∉ db.groups.keys
  agree : ∀ user group, db.HasRole user group ↔ db.Maintains user group

variable {id : UUID}

theorem hasRole_of_role (h : Kept db)
    (hm : db.memberships.get? id = some m) (hgroup : m.resourceType = .group) :
    db.HasRole m.memberID m.resourceID := by
  obtain ⟨g, -, heq, -⟩ := h.roles id m hm hgroup
  exact ⟨id, m, hm, congrArg (·.membershipType) heq, rfl, hgroup, rfl, congrArg (·.role) heq⟩

-- The same members lose their row and their role, and no group is closed before all its
-- members have lost theirs.
theorem Kept.drop (h : Kept db) (lost : UUID → UUID → Prop) (closed : UUID → Bool)
    (hclosed : ∀ user group, closed group = true → lost user group)
    (husers : db'.users = db.users)
    (hgroups : ∀ group, db'.groups.get? group =
      (db.groups.get? group).map fun g => { g with deleted := g.deleted || closed group })
    (hroles : ∀ id m, m.resourceType = .group →
      (db'.memberships.get? id = some m ↔ db.memberships.get? id = some m ∧ ¬ lost m.memberID m.resourceID))
    (hrows : ∀ id row, db'.LiveRow id row ↔ db.LiveRow id row ∧ ¬ lost row.userID row.groupID) :
    Kept db' := by
  have hlive (user group) : ¬ lost user group → (db'.LiveGroup group ↔ db.LiveGroup group) := by
    intro hkept
    have hopen : closed group = false := by
      by_contra hc
      exact hkept (hclosed user group (Bool.not_eq_false _ ▸ hc))
    simp [LiveGroup, hgroups, hopen]
  have hrole (user group) : db'.HasRole user group ↔ db.HasRole user group ∧ ¬ lost user group := by
    constructor
    · rintro ⟨id, m, hm, htype, rfl, hres, rfl, hrole⟩
      obtain ⟨hold, hkept⟩ := (hroles id m hres).mp hm
      exact ⟨⟨id, m, hold, htype, rfl, hres, rfl, hrole⟩, hkept⟩
    · rintro ⟨⟨id, m, hm, htype, rfl, hres, rfl, hrole⟩, hkept⟩
      exact ⟨id, m, (hroles id m hres).mpr ⟨hm, hkept⟩, htype, rfl, hres, rfl, hrole⟩
  refine ⟨fun id m hm hgroup => ?_, fun id row hrow => ?_, fun id row id' row' hrow hrow' => ?_, ?_,
    fun user group => ?_⟩
  · obtain ⟨g, hg, heq, huser⟩ := h.roles id m ((hroles id m hgroup).mp hm).1 hgroup
    have hg' : db'.groups.get? m.resourceID =
        some { g with deleted := g.deleted || closed m.resourceID } := by
      rw [hgroups, hg, map_some]
    exact ⟨_, hg', heq, husers ▸ huser⟩
  · obtain ⟨hold, hkept⟩ := (hrows id row).mp hrow
    exact ⟨(hlive row.userID row.groupID hkept).mpr (h.rows id row hold).1, husers ▸ (h.rows id row hold).2⟩
  · exact h.oneRow id row id' row' ((hrows id row).mp hrow).1 ((hrows id' row').mp hrow').1
  · intro user huser hkey
    refine h.apart user (husers ▸ huser) ?_
    rw [mem_keys_iff_isSome, hgroups, isSome_map] at hkey
    exact (mem_keys_iff_isSome ..).mpr hkey
  · rw [hrole, h.agree]
    constructor
    · rintro ⟨⟨hg, id, row, hrow, rfl, rfl, hm⟩, hkept⟩
      exact ⟨(hlive _ _ hkept).mpr hg, id, row, (hrows id row).mpr ⟨hrow, hkept⟩, rfl, rfl, hm⟩
    · rintro ⟨hg, id, row, hrow, rfl, rfl, hm⟩
      obtain ⟨hold, hkept⟩ := (hrows id row).mp hrow
      exact ⟨⟨(hlive _ _ hkept).mp hg, id, row, hold, rfl, rfl, hm⟩, hkept⟩

theorem mem_liveRows :
    e ∈ db.liveRows group user ↔ db.LiveRow e.1 e.2 ∧ e.2.groupID = group ∧ e.2.userID = user := by
  rw [liveRows, List.mem_filter, decide_eq_true_iff, LiveRow, get?_eq_some_iff]
  tauto

theorem onlyRow_eq_ok (h : db.onlyRow group user = .ok e) :
    db.LiveRow e.1 e.2 ∧ e.2.groupID = group ∧ e.2.userID = user := by
  unfold onlyRow at h
  split at h
  · rename_i row hrows
    cases h
    exact mem_liveRows.mp (by rw [hrows]; exact List.mem_singleton_self e)
  · cases h
  · cases h

theorem create_get? (h : db.create id m = some db') (k : UUID) (row : Membership) :
    db'.memberships.get? k = some row ↔ db.memberships.get? k = some row ∨ k = id ∧ row = m := by
  unfold create at h
  split at h
  · rename_i haccepts
    cases h
    have hfresh := (get?_eq_none_iff db.memberships id).mpr haccepts.1
    rw [get?_set]
    split
    · rename_i hk
      subst hk
      simp [hfresh, eq_comm]
    · rename_i hk
      simp [hk]
  · cases h

theorem create_frame (h : db.create id m = some db') :
    db'.users = db.users ∧ db'.groups = db.groups ∧ db'.groupMemberships = db.groupMemberships := by
  unfold create at h
  split at h
  · cases h
    exact ⟨rfl, rfl, rfl⟩
  · cases h

theorem setRow_liveRow (db : Db) (id : UUID) (row : GroupMembership) (k : UUID) (other : GroupMembership) :
    (db.setRow id row).LiveRow k other ↔
      k ≠ id ∧ db.LiveRow k other ∨ k = id ∧ other = row ∧ row.deleted = false := by
  simp only [LiveRow, setRow, get?_set]
  split
  · rename_i hk
    simp only [hk, ne_eq, not_true_eq_false, false_and, true_and, false_or, some.injEq]
    constructor
    · rintro ⟨rfl, hlive⟩
      exact ⟨rfl, hlive⟩
    · rintro ⟨rfl, hlive⟩
      exact ⟨rfl, hlive⟩
  · rename_i hk
    simp [hk]

theorem liveRow_mapValues (db : Db) (gone : GroupMembership → Prop) [DecidablePred gone]
    (hrows : db'.groupMemberships = db.groupMemberships.mapValues fun _ row =>
      if gone row then { row with deleted := true } else row) (k : UUID) (row : GroupMembership) :
    db'.LiveRow k row ↔ db.LiveRow k row ∧ ¬ gone row := by
  simp only [LiveRow, hrows, get?_mapValues, map_eq_some_iff]
  constructor
  · rintro ⟨⟨was, hwas, rfl⟩, hdeleted⟩
    split at hdeleted
    · cases hdeleted
    · rename_i hkept
      rw [if_neg hkept]
      exact ⟨⟨hwas, hdeleted⟩, hkept⟩
  · rintro ⟨⟨hrow, hdeleted⟩, hkept⟩
    exact ⟨⟨row, hrow, if_neg hkept⟩, hdeleted⟩

theorem addMaintainer_eq_ok :
    db.addMaintainer id org group user = .ok db' ↔ db.create id (maintainerOf org group user) = some db' := by
  unfold addMaintainer
  split <;> simp [*]

theorem Kept.join (h : Kept db) (roleID : UUID) {joined : Db}
    (hrole : (if maintainer then joined.addMaintainer roleID g.organizationID group user else .ok joined) = .ok db')
    (hgroup : db.groups.get? group = some g) (hlive : g.deleted = false) (huser : user ∈ db.users)
    (hnone : ∀ id row, db.LiveRow id row → row.groupID = group → row.userID ≠ user)
    (husers : joined.users = db.users) (hgroups : joined.groups = db.groups)
    (hroles : ∀ id m, joined.memberships.get? id = some m ↔ db.memberships.get? id = some m)
    (hrows : ∀ id row, joined.LiveRow id row ↔ db.LiveRow id row ∨
      id = rowID ∧ row = ⟨group, user, maintainer, false⟩) : Kept db' := by
  obtain ⟨husers, hgroups, hrows, hroles⟩ : db'.users = db.users ∧ db'.groups = db.groups ∧
      (∀ id row, db'.LiveRow id row ↔ db.LiveRow id row ∨ id = rowID ∧ row = ⟨group, user, maintainer, false⟩) ∧
      ∀ id m, db'.memberships.get? id = some m ↔ db.memberships.get? id = some m ∨
        maintainer = true ∧ id = roleID ∧ m = maintainerOf g.organizationID group user := by
    cases maintainer with
    | false =>
      cases hrole
      exact ⟨husers, hgroups, hrows, by simpa using hroles⟩
    | true =>
      rw [if_pos rfl, addMaintainer_eq_ok] at hrole
      obtain ⟨husers', hgroups', hmembers⟩ := create_frame hrole
      refine ⟨husers'.trans husers, hgroups'.trans hgroups, fun id row => ?_, fun id m => ?_⟩
      · rw [LiveRow, hmembers]
        exact hrows id row
      · simp [create_get? hrole, hroles]
  have hopen (other) : db'.LiveGroup other ↔ db.LiveGroup other := by
    rw [LiveGroup, LiveGroup, hgroups]
  refine ⟨fun id m hm hres => ?_, fun id row hrow => ?_, fun id row id' row' hrow hrow' hg hu => ?_, ?_,
    fun other group' => ?_⟩
  · rw [hgroups, husers]
    rcases (hroles id m).mp hm with hold | ⟨-, rfl, rfl⟩
    · exact h.roles id m hold hres
    · exact ⟨g, hgroup, rfl, huser⟩
  · rw [hopen, husers]
    rcases (hrows id row).mp hrow with hold | ⟨-, rfl⟩
    · exact h.rows id row hold
    · exact ⟨⟨g, hgroup, hlive⟩, huser⟩
  · rcases (hrows id row).mp hrow with hold | ⟨rfl, rfl⟩ <;>
      rcases (hrows id' row').mp hrow' with hold' | ⟨rfl, rfl⟩
    · exact h.oneRow id row id' row' hold hold' hg hu
    · exact absurd hu (hnone id row hold hg)
    · exact absurd hu.symm (hnone id' row' hold' hg.symm)
    · rfl
  · rw [husers, hgroups]
    exact h.apart
  · have hrole : db'.HasRole other group' ↔ db.HasRole other group' ∨
        maintainer = true ∧ other = user ∧ group' = group := by
      constructor
      · rintro ⟨id, m, hm, htype, rfl, hres, rfl, hrole⟩
        rcases (hroles id m).mp hm with hold | ⟨hmaintainer, -, rfl⟩
        · exact .inl ⟨id, m, hold, htype, rfl, hres, rfl, hrole⟩
        · exact .inr ⟨hmaintainer, rfl, rfl⟩
      · rintro (⟨id, m, hm, hfields⟩ | ⟨hmaintainer, rfl, rfl⟩)
        · exact ⟨id, m, (hroles id m).mpr (.inl hm), hfields⟩
        · exact ⟨roleID, _, (hroles roleID _).mpr (.inr ⟨hmaintainer, rfl, rfl⟩), rfl, rfl, rfl, rfl, rfl⟩
    rw [hrole, h.agree, Maintains, Maintains, hopen]
    constructor
    · rintro (⟨hg, id, row, hrow, hfields⟩ | ⟨hmaintainer, rfl, rfl⟩)
      · exact ⟨hg, id, row, (hrows id row).mpr (.inl hrow), hfields⟩
      · exact ⟨⟨g, hgroup, hlive⟩, rowID, _, (hrows rowID _).mpr (.inr ⟨rfl, rfl⟩), rfl, rfl, hmaintainer⟩
    · rintro ⟨hg, id, row, hrow, rfl, rfl, hm⟩
      rcases (hrows id row).mp hrow with hold | ⟨-, rfl⟩
      · exact .inl ⟨hg, id, row, hold, rfl, rfl, hm⟩
      · exact .inr ⟨hm, rfl, rfl⟩

theorem Kept.newGroup (h : Kept db) (hfresh : group ∉ db.groups.keys)
    (hapart : group ∉ db.users) (g : Group) :
    Kept { db with groups := db.groups.set group g } := by
  have hget (other g') : db.groups.get? other = some g' → (db.groups.set group g).get? other = some g' := by
    intro hg'
    rw [get?_set, if_neg, hg']
    rintro rfl
    rw [(get?_eq_none_iff ..).mpr hfresh] at hg'
    cases hg'
  refine ⟨fun id m hm hres => ?_, fun id row hrow => ?_, h.oneRow, fun user huser hkey => ?_,
    fun user other => (h.agree user other).trans ⟨?_, ?_⟩⟩
  · obtain ⟨g', hg', hrest⟩ := h.roles id m hm hres
    exact ⟨g', hget _ g' hg', hrest⟩
  · obtain ⟨⟨g', hg', hopen⟩, huser⟩ := h.rows id row hrow
    exact ⟨⟨g', hget _ g' hg', hopen⟩, huser⟩
  · rcases (mem_keys_set ..).mp hkey with rfl | hold
    · exact hapart huser
    · exact h.apart user huser hold
  · rintro ⟨⟨g', hg', hopen⟩, hrow⟩
    exact ⟨⟨g', hget _ g' hg', hopen⟩, hrow⟩
  · rintro ⟨-, id, row, hrow, rfl, hrest⟩
    exact ⟨(h.rows id row hrow).1, id, row, hrow, rfl, hrest⟩

theorem Kept.addMember {joined : Db} (h : Kept db)
    (hgroup : db.groups.get? group = some g) (hlive : g.deleted = false)
    (hrow : db.addRow rowID ⟨group, user, maintainer, false⟩ = .ok joined)
    (hrole : (if maintainer then joined.addMaintainer roleID g.organizationID group user else .ok joined) = .ok db') :
    Kept db' := by
  rw [addRow, guard_eq_ok] at hrow
  obtain ⟨hok, heq⟩ := hrow
  cases heq
  simp only [not_or, not_not] at hok
  obtain ⟨hfresh, huser, -, hnone⟩ := hok
  have hnew : ∀ row, ¬ db.LiveRow rowID row := by
    rintro row ⟨hrow, -⟩
    rw [(get?_eq_none_iff ..).mpr hfresh] at hrow
    cases hrow
  have hrows : ∀ id row, (db.setRow rowID ⟨group, user, maintainer, false⟩).LiveRow id row ↔
      db.LiveRow id row ∨ id = rowID ∧ row = ⟨group, user, maintainer, false⟩ := by
    intro id row
    rw [setRow_liveRow]
    constructor
    · rintro (⟨-, hold⟩ | ⟨rfl, rfl, -⟩)
      · exact .inl hold
      · exact .inr ⟨rfl, rfl⟩
    · rintro (hold | ⟨rfl, rfl⟩)
      · refine .inl ⟨?_, hold⟩
        rintro rfl
        exact hnew row hold
      · exact .inr ⟨rfl, rfl, rfl⟩
  have hother (id row) : db.LiveRow id row → row.groupID = group → row.userID ≠ user := by
    intro hold hg hu
    have hmem : (id, row) ∈ db.liveRows group user := mem_liveRows.mpr ⟨hold, hg, hu⟩
    rw [hnone] at hmem
    cases hmem
  exact h.join roleID hrole hgroup hlive huser hother rfl rfl (fun id m => .rfl) hrows

theorem Kept.createGroup (h : Kept db) (hapart : group ∉ db.users)
    (hop : db.createGroup group rowID roleID org name user = .ok db') : Kept db' := by
  rw [Db.createGroup, guard_eq_ok] at hop
  obtain ⟨hfree, hrest⟩ := hop
  have hcreated := h.newGroup (fun hkey => hfree (.inl hkey)) hapart ⟨name, org, false⟩
  cases user with
  | none =>
    cases hrest
    exact hcreated
  | some user =>
    obtain ⟨joined, hrow, hrole⟩ := bind_eq_ok.mp hrest
    exact hcreated.addMember (get?_set_self ..) rfl hrow hrole

variable {row : GroupMembership}

theorem Kept.dropMember (h : Kept db) (hrow : db.LiveRow id row)
    (husers : db'.users = db.users) (hgroups : db'.groups = db.groups)
    (hrows : db'.groupMemberships = (db.setRow id { row with deleted := true }).groupMemberships)
    (hroles : ∀ k m, m.resourceType = .group → (db'.memberships.get? k = some m ↔
      db.memberships.get? k = some m ∧ ¬ (m.memberID = row.userID ∧ m.resourceID = row.groupID))) :
    Kept db' := by
  refine h.drop (fun user group => user = row.userID ∧ group = row.groupID) (fun _ => false) nofun husers
    (fun group => by simp [hgroups]) hroles (fun k other => ?_)
  have hlive : db'.LiveRow k other ↔ (db.setRow id { row with deleted := true }).LiveRow k other := by
    rw [LiveRow, LiveRow, hrows]
  rw [hlive, setRow_liveRow]
  constructor
  · rintro (⟨hne, hold⟩ | ⟨-, -, hdeleted⟩)
    · exact ⟨hold, fun hsame => hne (h.oneRow k other id row hold hrow hsame.2 hsame.1)⟩
    · cases hdeleted
  · rintro ⟨hold, hother⟩
    refine .inl ⟨?_, hold⟩
    rintro rfl
    cases hold.1.symm.trans hrow.1
    exact hother ⟨rfl, rfl⟩

theorem Kept.removeMaintainer_get? (h : Kept db)
    (hgroup : db.groups.get? group = some g) (k : UUID) (m : Membership)
    (hres : m.resourceType = .group) :
    (db.removeMaintainer g.organizationID group user).memberships.get? k = some m ↔
      db.memberships.get? k = some m ∧ ¬ (m.memberID = user ∧ m.resourceID = group) := by
  rw [removeMaintainer, deleteWhere_get?, decide_eq_false_iff_not]
  refine and_congr_right fun hm => not_congr ⟨fun hgone => ⟨hgone.1, hgone.2.1⟩, fun hsame => ?_⟩
  obtain ⟨g', hg', heq, -⟩ := h.roles k m hm hres
  rw [hsame.2, hgroup] at hg'
  cases hg'
  exact ⟨hsame.1, hsame.2, hres, congrArg (·.organizationID) heq⟩

theorem Kept.no_role (h : Kept db)
    (hrow : db.LiveRow id row) (hmaintainer : row.maintainer = false)
    (hm : db.memberships.get? k = some m) (hres : m.resourceType = .group) :
    ¬ (m.memberID = row.userID ∧ m.resourceID = row.groupID) := by
  rintro ⟨huser, hgroup⟩
  obtain ⟨-, id', row', hrow', hg', hu', hm'⟩ := (h.agree _ _).mp (hasRole_of_role h hm hres)
  have hid := h.oneRow id' row' id row hrow' hrow (hg'.trans hgroup) (hu'.trans huser)
  rw [hid] at hrow'
  cases hrow.1.symm.trans hrow'.1
  rw [hmaintainer] at hm'
  cases hm'

theorem findGroup_eq_some (h : db.findGroup org group = some g) :
    db.groups.get? group = some g ∧ g.deleted = false ∧ g.organizationID = org := by
  obtain ⟨hg, hcond⟩ := filter_eq_some_iff.mp h
  exact ⟨hg, of_decide_eq_true hcond⟩

theorem Kept.removeMemberFromGroup (h : Kept db) (hfound : db.findGroup org group = some g)
    (hop : db.removeMemberFromGroup org group user = .ok db') :
    Kept db' := by
  obtain ⟨hgroup, -, rfl⟩ := findGroup_eq_some hfound
  obtain ⟨⟨id, row⟩, honly, hrest⟩ := bind_eq_ok.mp hop
  obtain ⟨hrow, rfl, rfl⟩ := onlyRow_eq_ok honly
  cases hrest
  split
  · exact h.dropMember hrow rfl rfl rfl fun k m hres => h.removeMaintainer_get? hgroup k m hres
  · rename_i hmaintainer
    refine h.dropMember hrow rfl rfl rfl fun k m hres => ?_
    exact ⟨fun hm => ⟨hm, h.no_role hrow (Bool.not_eq_true _ ▸ hmaintainer) hm hres⟩, fun hm => hm.1⟩

-- A change of the maintainer flag is a removal followed by an addition under the same row id.
theorem Kept.updateMemberMaintainerStatus (h : Kept db) (hfound : db.findGroup org group = some g)
    (hop : db.updateMemberMaintainerStatus roleID org group user isMaintainer = .ok db') :
    Kept db' := by
  obtain ⟨hgroup, hlive, rfl⟩ := findGroup_eq_some hfound
  obtain ⟨⟨id, row⟩, honly, hrest⟩ := bind_eq_ok.mp hop
  obtain ⟨hrow, rfl, rfl⟩ := onlyRow_eq_ok honly
  obtain ⟨groupID, userID, maintainer, deleted⟩ := row
  obtain rfl : deleted = false := hrow.2
  have hdropped : Kept ((db.setRow id ⟨groupID, userID, maintainer, true⟩).removeMaintainer
      g.organizationID groupID userID) :=
    h.dropMember hrow rfl rfl rfl fun k m hres => h.removeMaintainer_get? hgroup k m hres
  have hrows : ∀ k row, (db.setRow id ⟨groupID, userID, isMaintainer, false⟩).LiveRow k row ↔
      (db.setRow id ⟨groupID, userID, maintainer, true⟩).LiveRow k row ∨
        k = id ∧ row = ⟨groupID, userID, isMaintainer, false⟩ := by
    simp [setRow_liveRow]
  have hnone : ∀ k row, (db.setRow id ⟨groupID, userID, maintainer, true⟩).LiveRow k row →
      row.groupID = groupID → row.userID ≠ userID := by
    intro k row hlive hg hu
    rcases (setRow_liveRow ..).mp hlive with ⟨hne, hold⟩ | ⟨-, -, hdeleted⟩
    · exact hne (h.oneRow k row id _ hold hrow hg hu)
    · cases hdeleted
  simp only at hrest
  split at hrest
  · cases hrest
    exact h
  · rename_i hchanged
    cases isMaintainer with
    | false =>
      cases hrest
      exact hdropped.join roleID (if_neg Bool.false_ne_true) hgroup hlive (h.rows id _ hrow).2 hnone rfl rfl
        (fun k m => .rfl) hrows
    | true =>
      have hno : ∀ k m, db.memberships.get? k = some m →
          ¬ (m.memberID = userID ∧ m.resourceID = groupID ∧ m.resourceType = .group) := by
        rintro k m hm ⟨hmember, hresource, hres⟩
        exact h.no_role hrow (Bool.not_eq_true _ ▸ hchanged) hm hres ⟨hmember, hresource⟩
      rw [if_pos rfl, if_neg] at hrest
      · refine hdropped.join roleID ((if_pos rfl).trans hrest) hgroup hlive (h.rows id _ hrow).2 hnone rfl rfl
          (fun k m => ?_) hrows
        rw [removeMaintainer, deleteWhere_get?, decide_eq_false_iff_not]
        exact (and_iff_left_of_imp fun hm hgone => hno k m hm ⟨hgone.1, hgone.2.1, hgone.2.2.1⟩).symm
      · rintro ⟨e, he, hrole⟩
        exact hno e.1 e.2 ((get?_eq_some_iff ..).mpr he) hrole

theorem Kept.softDeleteGroup (h : Kept db) (hop : db.softDeleteGroup org group = .ok db') :
    Kept db' := by
  unfold Db.softDeleteGroup at hop
  split at hop
  · cases hop
  · rename_i found hfound
    cases hop
    obtain ⟨hgroup, hlive, rfl⟩ := findGroup_eq_some hfound
    refine h.drop (fun _ other => other = group) (fun other => other = group)
      (fun _ _ hclosed => of_decide_eq_true hclosed) rfl (fun other => ?_) (fun k m hres => ?_) (fun k row => ?_)
    · simp only [deleteWhere, get?_set]
      split
      · rename_i hother
        subst hother
        simp [hgroup]
      · rename_i hother
        simp [hother]
    · rw [deleteWhere_get?, decide_eq_false_iff_not]
      refine and_congr_right fun hm => not_congr ⟨fun hgone => ?_, fun hsame => ?_⟩
      · obtain ⟨g, hg, -, huser⟩ := h.roles k m hm hres
        rcases hgone.2 with hmember | hresource
        · -- No user has the id of a group.
          refine absurd ?_ (h.apart m.memberID huser)
          rw [hmember, mem_keys_iff_isSome, hgroup]
          rfl
        · exact hresource.1
      · obtain ⟨g, hg, heq, -⟩ := h.roles k m hm hres
        rw [hsame, hgroup] at hg
        cases hg
        exact ⟨congrArg (·.organizationID) heq, .inr ⟨hsame, hres⟩⟩
    · rw [liveRow_mapValues db (fun row => row.groupID = group ∧ row.deleted = false) rfl]
      refine and_congr_right fun hrow => not_congr ?_
      rw [and_iff_left hrow.2]

theorem delete_frame {found : Membership} (hfound : found.InOrg org)
    (h : db.delete id found = some db') :
    db'.users = db.users ∧ db'.groups = db.groups ∧
      db'.groupMemberships = (db.leaveGroups found.memberID (some org)).groupMemberships := by
  obtain ⟨-, hrest⟩ := ite_none_right_eq_some.mp h
  rw [if_pos ⟨hfound.2.1, hfound.1⟩, some.injEq, hfound.organizationID] at hrest
  subst hrest
  exact ⟨rfl, rfl, rfl⟩

theorem Kept.delete (h : Kept db) (hfound : db.findByIDInOrg org id = some m)
    (hop : db.delete id m = some db') : Kept db' := by
  obtain ⟨hm, hin⟩ := findByIDInOrg_eq_some hfound
  obtain ⟨husers, hgroups, hrows⟩ := delete_frame hin hop
  refine h.drop (fun user group => user = m.memberID ∧
    (db.groups.get? group).map (·.organizationID) = some org) (fun _ => false) nofun husers
    (fun group => by simp [hgroups]) (fun k role hres => ?_) (fun k row => ?_)
  · rw [delete_get? hin hop]
    refine and_congr_right fun hrole => ?_
    obtain ⟨g, hg, heq, -⟩ := h.roles k role hrole hres
    have horg : role.organizationID = some g.organizationID := congrArg (·.organizationID) heq
    have hne : k ≠ id := by
      rintro rfl
      cases hm.symm.trans hrole
      cases hin.2.1.symm.trans hres
    simp only [hg, horg]
    tauto
  · rw [liveRow_mapValues db (fun row => row.userID = m.memberID ∧ row.deleted = false ∧
      (db.groups.get? row.groupID).map (·.organizationID) = some org) hrows]
    refine and_congr_right fun hrow => not_congr ?_
    simp [hrow.2]

theorem Kept.grant (h : Kept db)
    (hres : m.resourceType ≠ .group) (hop : db.create id m = some db') : Kept db' := by
  obtain ⟨husers, hgroups, hrows⟩ := create_frame hop
  refine h.drop (fun _ _ => False) (fun _ => false) nofun husers (fun group => by simp [hgroups])
    (fun k role hrole => ?_) (fun k row => by simp [LiveRow, hrows])
  rw [create_get? hop]
  refine ⟨fun hrow => ⟨hrow.resolve_right ?_, not_false⟩, fun hrow => .inl hrow.1⟩
  rintro ⟨-, rfl⟩
  exact hres hrole

end Db

theorem Operation.onGroup_eq_ok (h : onGroup db org group op = .ok db') :
    ∃ g, db.findGroup org group = some g ∧ op = .ok db' := by
  unfold onGroup at h
  split at h
  · cases h
  · exact ⟨_, ‹_›, h⟩

theorem Db.Kept.apply (h : db.Kept) {op : Operation} (hpossible : op.Possible db)
    (hop : op.apply db = .ok db') : db'.Kept := by
  cases op with
  | signUp user =>
    cases hop
    refine ⟨fun id m hm hres => ?_, fun id row hrow => ?_, h.oneRow, fun other hother => ?_, h.agree⟩
    · obtain ⟨g, hg, heq, huser⟩ := h.roles id m hm hres
      exact ⟨g, hg, heq, List.mem_cons_of_mem user huser⟩
    · exact ⟨(h.rows id row hrow).1, List.mem_cons_of_mem user (h.rows id row hrow).2⟩
    · rcases List.mem_cons.mp hother with rfl | hold
      · exact hpossible
      · exact h.apart other hold
  | grant id m =>
    simp only [Operation.apply] at hop
    split at hop
    · cases hop
    · rename_i hcreate
      cases hop
      exact h.grant hpossible hcreate
  | createGroup => exact h.createGroup hpossible hop
  | deleteGroup =>
    obtain ⟨g, -, hdelete⟩ := Operation.onGroup_eq_ok hop
    exact h.softDeleteGroup hdelete
  | addMember rowID roleID org group user maintainer =>
    obtain ⟨g, hfound, hadd⟩ := Operation.onGroup_eq_ok hop
    obtain ⟨hgroup, hlive, rfl⟩ := findGroup_eq_some hfound
    rw [addMemberToGroup, guard_eq_ok] at hadd
    obtain ⟨joined, hrow, hrole⟩ := bind_eq_ok.mp hadd.2
    exact h.addMember hgroup hlive hrow hrole
  | removeMember =>
    obtain ⟨g, hfound, hremove⟩ := Operation.onGroup_eq_ok hop
    exact h.removeMemberFromGroup hfound hremove
  | updateMaintainer =>
    obtain ⟨g, hfound, hupdate⟩ := Operation.onGroup_eq_ok hop
    exact h.updateMemberMaintainerStatus hfound hupdate
  | deleteMembership org id =>
    simp only [Operation.apply] at hop
    split at hop
    · cases hop
    · rename_i m hfound
      split at hop
      · cases hop
      · rename_i hdelete
        cases hop
        exact h.delete hfound hdelete

theorem Db.Kept.after (h : db.Kept) (op : Operation) : (db.after op).Kept := by
  unfold Db.after
  split
  · rename_i hpossible
    split
    · rename_i hop
      exact h.apply hpossible hop
    · exact h
  · exact h

theorem Db.kept_empty (users : List UUID) : (Db.empty users).Kept := by
  have hrow : ∀ id row, ¬ (Db.empty users).LiveRow id row := by
    rintro id row ⟨hrow, -⟩
    cases hrow
  have hrole : ∀ id m, (Db.empty users).memberships.get? id ≠ some m := by
    intro id m hm
    cases hm
  refine ⟨fun id m hm => absurd hm (hrole id m), fun id row h => absurd h (hrow id row),
    fun id row _ _ h => absurd h (hrow id row), fun user _ hkey => ?_, fun user group => ⟨?_, ?_⟩⟩
  · cases hkey
  · rintro ⟨id, m, hm, -⟩
    exact absurd hm (hrole id m)
  · rintro ⟨-, id, row, h, -⟩
    exact absurd h (hrow id row)

theorem maintainer_records_agree (ops : List Operation) (user group : UUID) :
    (ops.foldl Db.after (Db.empty [])).HasRole user group ↔
      (ops.foldl Db.after (Db.empty [])).Maintains user group := by
  have hkept : ∀ db : Db, db.Kept → (ops.foldl Db.after db).Kept := by
    induction ops with
    | nil => exact fun db h => h
    | cons op ops ih => exact fun db h => ih (db.after op) (h.after op)
  exact (hkept _ (Db.kept_empty [])).agree user group

end Chainloop.Members
