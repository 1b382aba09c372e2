import Chainloop.Steps.Schedule
import Chainloop.Members.Tables

-- Leave, DeleteOther and UpdateRole in any interleaving of their database steps, and the
-- owners that an organisation is left with.
namespace Chainloop.Members

open Go Authz Schedule Option List Except

variable {db db' : Db}

namespace Db

def HasOwner (db : Db) (org : UUID) : Prop := db.membersOf org .owner ≠ []

instance (db : Db) (org : UUID) : Decidable (db.HasOwner org) := inferInstanceAs (Decidable (_ ≠ _))

def Owns (db : Db) (user org : UUID) : Prop := ∃ e ∈ db.membersOf org .owner, e.2.memberID = user

instance (db : Db) (user org : UUID) : Decidable (db.Owns user org) :=
  inferInstanceAs (Decidable (∃ e ∈ _, _))

theorem hasOwner_iff : db.HasOwner org ↔ ∃ user, db.Owns user org := by
  constructor
  · intro h
    obtain ⟨e, he⟩ := exists_mem_of_ne_nil _ h
    exact ⟨e.2.memberID, e, he, rfl⟩
  · rintro ⟨user, e, he, -⟩
    exact ne_nil_of_mem he

def isUserSoleOwner (db : Db) (org user : UUID) : Bool :=
  let owners := db.findByOrg org .owner
  owners.any (fun e => e.2.memberID = user) && owners.length == 1

theorem exists_other_owner (h : db.isUserSoleOwner org user = false)
    (howner : db.HasOwner org) : ∃ other, other ≠ user ∧ db.Owns other org := by
  by_contra hnone
  have hall (e) (he : e ∈ db.findByOrg org .owner) : e.2.memberID = user := by
    by_contra hne
    exact hnone ⟨e.2.memberID, hne, e, mem_membersOf_of_findByOrg he, rfl⟩
  unfold isUserSoleOwner at h
  cases hpage : db.findByOrg org .owner with
  | nil =>
    obtain ⟨first, rest, hcons⟩ := exists_cons_of_ne_nil (reverse_ne_nil_iff.mpr howner)
    rw [findByOrg, hcons] at hpage
    cases hpage
  | cons first rest =>
    have hfirst : first ∈ db.findByOrg org .owner := by simp [hpage]
    cases rest with
    | nil =>
      rw [hpage] at h
      simp [hall first hfirst] at h
    | cons second rest =>
      have hsecond : second ∈ db.findByOrg org .owner := by simp [hpage]
      obtain ⟨hf, hfin, -⟩ := mem_membersOf.mp (mem_membersOf_of_findByOrg hfirst)
      obtain ⟨hs, hsin, -⟩ := mem_membersOf.mp (mem_membersOf_of_findByOrg hsecond)
      have hkey : first.2.key = second.2.key := by
        simp [Membership.key, hfin.1, hsin.1, hfin.2.1, hsin.2.1, hfin.2.2, hsin.2.2,
          hall first hfirst, hall second hsecond]
      have hid := db.oneExplicitRole _ _ _ _ hf hs hkey
      have hrow : first.2 = second.2 := by
        rw [hid, hs] at hf
        exact (some.inj hf).symm
      have hnodup := db.findByOrg_nodup org .owner
      rw [hpage, nodup_cons] at hnodup
      exact hnodup.1 (by simp [Prod.ext hid hrow])

-- The role of the caller in the organisation, as the middleware reads it. Only an instance
-- admin gets past it without a membership.
def callerRole (db : Db) (caller org : UUID) : Role :=
  match db.memberships.entries.find? fun e => e.2.InOrg org ∧ e.2.memberID = caller with
  | some e => e.2.role
  | none => .instanceAdmin

theorem owns_of_callerRole (h : db.callerRole caller org = .owner) : db.Owns caller org := by
  unfold callerRole at h
  split at h
  · rename_i e he
    have hfound := find?_some he
    simp only [decide_eq_true_eq] at hfound
    obtain ⟨hin, hmember⟩ := hfound
    have hrow := (Map.get?_eq_some_iff ..).mpr (mem_of_find?_eq_some he)
    exact ⟨e, mem_membersOf.mpr ⟨hrow, hin, h⟩, hmember⟩
  · cases h

def Within (db' db : Db) : Prop :=
  ∀ id m', db'.memberships.get? id = some m' → ∃ m, db.memberships.get? id = some m ∧ m.SameMember m'

theorem Within.refl (db : Db) : db.Within db := fun _ m' hm' => ⟨m', hm', rfl, rfl⟩

theorem setRole_within {id : UUID} (h : db.setRole id role = some db') : db'.Within db := by
  intro other m' hm'
  rw [setRole_get? h, map_eq_some_iff] at hm'
  obtain ⟨m, hm, rfl⟩ := hm'
  refine ⟨m, hm, ?_⟩
  split <;> exact ⟨rfl, rfl⟩

theorem delete_within {id : UUID} {found : Membership} (hfound : found.InOrg org)
    (h : db.delete id found = some db') : db'.Within db :=
  fun other m' hm' => ⟨m', ((delete_get? hfound h other m').mp hm').1, rfl, rfl⟩

end Db

def enforceManageOwners (callerRole : Role) : Bool := callerRole = .owner

inductive Request where
  | leave (user membershipID : UUID)
  | deleteOther (caller org membershipID : UUID)
  | updateRole (caller org membershipID : UUID) (role : Role)
deriving DecidableEq

inductive Change where
  | delete
  | setRole (role : Role)
deriving DecidableEq

inductive Stage where
  | found (user : UUID)
  | authorized (caller : UUID) (callerRole : Role) (change : Change)
  | checked
  | fetched (m : Membership)
  | setting (role : Role)
deriving DecidableEq

structure Call where
  org : UUID
  membershipID : UUID
  stage : Stage
deriving DecidableEq

-- The first database step. UpdateRole refuses the empty role before it.
def Request.begin (db : Db) : Request → Except GoError Call
  | .leave user id =>
    match db.findByIDInUser user id with
    | none => .error (.notFound "membership")
    | some m => .ok ⟨m.resourceID, id, .found user⟩
  | .deleteOther caller org id => .ok ⟨org, id, .authorized caller (db.callerRole caller org) .delete⟩
  | .updateRole caller org id role =>
    .ok ⟨org, id, .authorized caller (db.callerRole caller org) (.setRole role)⟩

def errMsgOnlyOwnersManageOwners : String := "only organization owners can manage owner memberships"

-- The checks of DeleteOther and UpdateRole on the membership that they find.
def Change.check (caller : UUID) (callerRole : Role) (m : Membership) : Change → Except GoError Stage
  | .delete =>
    if m.memberID = caller then
      .error (.validationStr "cannot delete yourself from the org")
    else if m.role = .owner ∧ enforceManageOwners callerRole = false then
      .error (.unauthorizedStr errMsgOnlyOwnersManageOwners)
    else
      .ok .checked
  | .setRole role =>
    if m.memberID = caller then
      .error (.validationStr "cannot update yourself")
    else if (m.role = .owner ∨ role = .owner) ∧ enforceManageOwners callerRole = false then
      .error (.unauthorizedStr errMsgOnlyOwnersManageOwners)
    else
      .ok (.setting role)

-- A call goes on to its next stage, or returns nil or an error.
inductive Next where
  | stage (stage : Stage)
  | returns (err : Option GoError)
deriving DecidableEq

def Next.ofExcept : Except GoError Stage → Next
  | .ok reached => .stage reached
  | .error e => .returns (some e)

def membershipGone (context : String) : Next :=
  .returns (some ((GoError.new "ent: membership not found").wrap context))

def Call.advance (db : Db) (call : Call) : Db × Next :=
  match call.stage with
  | .found user =>
    if db.isUserSoleOwner call.org user then
      (db, .returns (some (.validationStr ("cannot leave organization as the sole owner. " ++
        "Please add another owner or delete the organization instead"))))
    else
      (db, .stage .checked)
  | .authorized caller callerRole change =>
    match db.findByIDInOrg call.org call.membershipID with
    | none => (db, .returns (some (.notFound "membership")))
    | some m => (db, .ofExcept (change.check caller callerRole m))
  | .checked =>
    -- MembershipRepo.Delete has nothing to do for a row that is gone.
    match db.memberships.get? call.membershipID with
    | none => (db, .returns none)
    | some m => (db, .stage (.fetched m))
  | .fetched m =>
    match db.delete call.membershipID m with
    | none => (db, membershipGone "failed to delete membership: failed to delete membership")
    | some db' => (db', .returns none)
  | .setting role =>
    match db.setRole call.membershipID role with
    | none => (db, membershipGone "failed to update membership role: failed to update membership")
    | some db' => (db', .returns none)

structure System where
  db : Db
  calls : Nat → Option Call

inductive Event where
  | start (k : Nat) (request : Request)
  | advance (k : Nat)
deriving DecidableEq

def Event.call : Event → Nat
  | .start k _ => k
  | .advance k => k

-- A call that has returned leaves its slot.
def System.put (s : System) (k : Nat) (call : Option Call) : System :=
  { s with calls := Function.update s.calls k call }

theorem System.put_calls (s : System) (k : Nat) (call : Option Call) (j : Nat) :
    (s.put k call).calls j = if j = k then call else s.calls j := Function.update_apply ..

def Call.goOn (call : Call) : Next → Option Call
  | .stage stage => some { call with stage := stage }
  | .returns _ => none

def System.step (s : System) : Event → Option System
  | .start k request =>
    match s.calls k with
    | some _ => none
    | none => some (s.put k (request.begin s.db).toOption)
  | .advance k =>
    (s.calls k).map fun call =>
      let (db, next) := call.advance s.db
      { s with db := db }.put k (call.goOn next)

def Call.Placed (db : Db) (call : Call) : Prop :=
  match call.stage with
  | .found user => ∀ m, db.memberships.get? call.membershipID = some m → m.InOrg call.org ∧ m.memberID = user
  | .authorized .. => True
  | .checked | .setting _ => ∀ m, db.memberships.get? call.membershipID = some m → m.InOrg call.org
  | .fetched found => found.InOrg call.org ∧
      ∀ m, db.memberships.get? call.membershipID = some m → m.SameMember found

-- What the checks of a call have established: somebody else owns the organisation.
def Call.Guarded (db : Db) (call : Call) : Prop :=
  match call.stage with
  | .found _ => True
  | .authorized caller callerRole _ => callerRole = .owner → db.Owns caller call.org
  | .checked | .setting _ | .fetched _ =>
    ∀ m, db.memberships.get? call.membershipID = some m → ∃ other, other ≠ m.memberID ∧ db.Owns other call.org

variable {call : Call}

theorem Call.Placed.within (h : call.Placed db) (hwithin : db'.Within db) :
    call.Placed db' := by
  obtain ⟨org, id, stage⟩ := call
  cases stage with
  | found user =>
    intro m' hm'
    obtain ⟨m, hm, hsame⟩ := hwithin id m' hm'
    exact ⟨hsame.inOrg (h m hm).1, hsame.memberID ▸ (h m hm).2⟩
  | authorized => trivial
  | checked | setting =>
    intro m' hm'
    obtain ⟨m, hm, hsame⟩ := hwithin id m' hm'
    exact hsame.inOrg (h m hm)
  | fetched found =>
    refine ⟨h.1, fun m' hm' => ?_⟩
    obtain ⟨m, hm, hsame⟩ := hwithin id m' hm'
    exact ⟨hsame.1.symm.trans (h.2 m hm).1, hsame.2.symm.trans (h.2 m hm).2⟩

theorem Call.Guarded.within (h : call.Guarded db) (hwithin : db'.Within db)
    (howns : ∀ user, db.Owns user call.org → db'.Owns user call.org) : call.Guarded db' := by
  obtain ⟨org, id, stage⟩ := call
  cases stage with
  | found => trivial
  | authorized => exact fun hrole => howns _ (h hrole)
  | checked | setting | fetched =>
    intro m' hm'
    obtain ⟨m, hm, hsame⟩ := hwithin id m' hm'
    obtain ⟨other, hne, hother⟩ := h m hm
    exact ⟨other, hsame.memberID ▸ hne, howns other hother⟩

theorem Request.begin_spec {request : Request} (h : request.begin db = .ok call) :
    call.Placed db ∧ call.Guarded db := by
  cases request with
  | leave user id =>
    simp only [Request.begin] at h
    split at h
    · cases h
    · rename_i found hfound
      cases h
      obtain ⟨hrow, hmember, hin⟩ := Db.findByIDInUser_eq_some hfound
      refine ⟨fun m hm => ?_, trivial⟩
      cases hrow.symm.trans hm
      exact ⟨hin, hmember⟩
  | deleteOther | updateRole =>
    cases h
    exact ⟨trivial, Db.owns_of_callerRole⟩

theorem Change.check_spec {id : UUID} {m : Membership} {change : Change}
    (h : change.check caller callerRole m = .ok stage) (hrow : db.memberships.get? id = some m)
    (hin : m.InOrg org) (howner : db.HasOwner org)
    (hcaller : callerRole = .owner → db.Owns caller org) :
    ∃ other, other ≠ m.memberID ∧ db.Owns other org := by
  have hallowed : m.memberID ≠ caller ∧ (m.role = .owner → callerRole = .owner) := by
    cases change with
    | delete | setRole =>
      rw [Change.check, guard_eq_ok, guard_eq_ok] at h
      obtain ⟨hne, hrole, -⟩ := h
      exact ⟨hne, fun hm => by simpa [hm, enforceManageOwners] using hrole⟩
  by_cases hrole : m.role = .owner
  · exact ⟨caller, hallowed.1.symm, hcaller (hallowed.2 hrole)⟩
  · obtain ⟨other, e, he, hother⟩ := Db.hasOwner_iff.mp howner
    refine ⟨other, ?_, e, he, hother⟩
    -- Two rows of one user in the organisation would be the same row.
    rintro rfl
    obtain ⟨he, hein, herole⟩ := Db.mem_membersOf.mp he
    have hkey : e.2.key = m.key := by
      simp [Membership.key, hein.1, hein.2.1, hein.2.2, hin.1, hin.2.1, hin.2.2, hother]
    have hid := db.oneExplicitRole _ _ _ _ he hrow hkey
    rw [hid, hrow] at he
    exact hrole (some.inj he ▸ herole)

theorem Change.check_stage {change : Change} (h : change.check caller callerRole m = .ok stage) :
    stage = .checked ∨ ∃ role, stage = .setting role := by
  cases change with rw [Change.check, guard_eq_ok, guard_eq_ok] at h
  | delete =>
    exact .inl (ok.inj h.2.2).symm
  | setRole role =>
    exact .inr ⟨role, (ok.inj h.2.2).symm⟩

-- The write of a call spares the owners other than the member that it is about, and every
-- owner of another organisation.
theorem Call.advance_owns {org : UUID} (hplaced : call.Placed db)
    (hother : ∀ m, db.memberships.get? call.membershipID = some m → m.memberID ≠ user ∨ call.org ≠ org)
    (howns : db.Owns user org) : (call.advance db).1.Owns user org := by
  obtain ⟨e, he, huser⟩ := howns
  obtain ⟨hrow, hin, hrole⟩ := Db.mem_membersOf.mp he
  have hne : ∀ m, db.memberships.get? call.membershipID = some m → m.InOrg call.org →
      e.1 ≠ call.membershipID := by
    rintro m hm hmin hid
    rw [hid, hm] at hrow
    cases hrow
    rcases hother _ hm with h | h
    · exact h huser
    · exact h (hmin.2.2.symm.trans hin.2.2)
  obtain ⟨callOrg, id, stage⟩ := call
  cases stage with simp only [Call.advance]
  | found =>
    split <;> exact ⟨e, he, huser⟩
  | authorized | checked =>
    split <;> exact ⟨e, he, huser⟩
  | fetched found =>
    split
    · exact ⟨e, he, huser⟩
    · rename_i db' hdelete
      obtain ⟨m, hm⟩ := isSome_iff_exists.mp (ite_none_right_eq_some.mp hdelete).1
      have hsame := hplaced.2 m hm
      have hmin : m.InOrg callOrg := hsame.symm.inOrg hplaced.1
      refine ⟨e, Db.mem_membersOf.mpr ⟨?_, hin, hrole⟩, huser⟩
      refine (Db.delete_get? hplaced.1 hdelete e.1 e.2).mpr ⟨hrow, hne m hm hmin, ?_⟩
      rcases hother m hm with h | h
      · exact .inl (hsame.memberID ▸ huser ▸ h.symm)
      · exact .inr (by rw [hin.organizationID]; exact fun heq => h (some.inj heq).symm)
  | setting role =>
    split
    · exact ⟨e, he, huser⟩
    · rename_i db' hset
      obtain ⟨m, hm⟩ := isSome_iff_exists.mp (ite_none_right_eq_some.mp hset).1
      refine ⟨e, Db.mem_membersOf.mpr ⟨?_, hin, hrole⟩, huser⟩
      rw [Db.setRole_get? hset, hrow, map_some, if_neg (hne m hm (hplaced m hm))]

theorem Call.advance_within (hplaced : call.Placed db) :
    (call.advance db).1.Within db := by
  obtain ⟨org, id, stage⟩ := call
  cases stage with simp only [Call.advance]
  | found | authorized | checked =>
    split <;> exact Db.Within.refl db
  | fetched found =>
    split
    · exact Db.Within.refl db
    · rename_i db' hdelete
      exact Db.delete_within hplaced.1 hdelete
  | setting role =>
    split
    · exact Db.Within.refl db
    · rename_i db' hset
      exact Db.setRole_within hset

theorem Call.advance_next {call next : Call} (h : call.goOn (call.advance db).2 = some next) :
    (call.advance db).1 = db ∧ next.org = call.org ∧ (call.Placed db → next.Placed db) ∧
      (db.HasOwner call.org → call.Placed db → call.Guarded db → next.Guarded db) := by
  obtain ⟨org, id, stage⟩ := call
  cases stage with
  | found user =>
    simp only [Call.advance] at h ⊢
    split at h
    · cases h
    · rename_i hsole
      cases h
      rw [if_neg hsole]
      refine ⟨rfl, rfl, fun hplaced m hm => (hplaced m hm).1, fun howner hplaced _ m hm => ?_⟩
      rw [(hplaced m hm).2]
      exact Db.exists_other_owner (Bool.not_eq_true _ ▸ hsole) howner
  | authorized caller callerRole change =>
    simp only [Call.advance] at h ⊢
    split at h
    · cases h
    · rename_i m hfound
      obtain ⟨hrow, hin⟩ := Db.findByIDInOrg_eq_some hfound
      cases hcheck : change.check caller callerRole m with rw [hcheck] at h
      | error e =>
        cases h
      | ok stage =>
        cases h
        have hplaced : ∀ m', db.memberships.get? id = some m' → m'.InOrg org := by
          intro m' hm'
          cases hrow.symm.trans hm'
          exact hin
        have hguarded : db.HasOwner org → (callerRole = .owner → db.Owns caller org) →
            ∀ m', db.memberships.get? id = some m' → ∃ other, other ≠ m'.memberID ∧ db.Owns other org := by
          intro howner hcaller m' hm'
          cases hrow.symm.trans hm'
          exact Change.check_spec hcheck hrow hin howner hcaller
        rcases Change.check_stage hcheck with rfl | ⟨role, rfl⟩ <;>
          exact ⟨rfl, rfl, fun _ => hplaced, fun howner _ => hguarded howner⟩
  | checked =>
    simp only [Call.advance] at h ⊢
    split at h
    · cases h
    · rename_i m hm
      cases h
      refine ⟨rfl, rfl, fun hplaced => ⟨hplaced m hm, fun m' hm' => ?_⟩, fun _ _ hguarded => hguarded⟩
      cases hm.symm.trans hm'
      exact ⟨rfl, rfl⟩
  | fetched =>
    simp only [Call.advance] at h
    split at h <;> cases h
  | setting =>
    simp only [Call.advance] at h
    split at h <;> cases h

structure Owned (org : UUID) (s : System) : Prop where
  owner : s.db.HasOwner org
  placed : ∀ k call, s.calls k = some call → call.Placed s.db
  guarded : ∀ k call, s.calls k = some call → call.org = org → call.Guarded s.db

def Drops (org : UUID) (s s' : System) : Prop := ∃ user, s.db.Owns user org ∧ ¬ s'.db.Owns user org

theorem Owned.advance_hasOwner {s : System} (h : Owned org s)
    (hcall : s.calls k = some call) : (call.advance s.db).1.HasOwner org := by
  have hplaced := h.placed k call hcall
  obtain ⟨user, howns⟩ := Db.hasOwner_iff.mp h.owner
  by_cases horg : call.org = org
  · obtain ⟨callOrg, id, stage⟩ := call
    cases stage with
    | found | authorized | checked =>
      simp only [Call.advance]
      split <;> exact h.owner
    | fetched | setting =>
      cases hrow : s.db.memberships.get? id with
      | none =>
        refine Db.hasOwner_iff.mpr ⟨user, Call.advance_owns hplaced (fun m hm => ?_) howns⟩
        cases hrow.symm.trans hm
      | some m =>
        obtain ⟨other, hne, hother⟩ := h.guarded k _ hcall horg m hrow
        rw [horg] at hother
        refine Db.hasOwner_iff.mpr ⟨other, Call.advance_owns hplaced (fun m' hm' => .inl ?_) hother⟩
        cases hrow.symm.trans hm'
        exact hne.symm
  · exact Db.hasOwner_iff.mpr ⟨user, Call.advance_owns hplaced (fun _ _ => .inr horg) howns⟩

variable {e : Event}

theorem Owned.step {s : System} (h : Owned org s) (hstep : s.step e = some s')
    (halone : Drops org s s' → ∀ k call, s.calls k = some call → call.org = org → k = e.call) :
    Owned org s' := by
  cases e with
  | start k request =>
    simp only [System.step] at hstep
    split at hstep
    · cases hstep
    · cases hstep
      have hcalls (j call) : (s.put k (request.begin s.db).toOption).calls j = some call →
          s.calls j = some call ∨ request.begin s.db = .ok call := by
        intro hj
        rw [System.put_calls] at hj
        split at hj
        · exact .inr (eq_ok_of_toOption hj)
        · exact .inl hj
      refine ⟨h.owner, fun j call hj => ?_, fun j call hj horg => ?_⟩
      · rcases hcalls j call hj with hold | hnew
        · exact h.placed j call hold
        · exact (Request.begin_spec hnew).1
      · rcases hcalls j call hj with hold | hnew
        · exact h.guarded j call hold horg
        · exact (Request.begin_spec hnew).2
  | advance k =>
    obtain ⟨call, hcall, rfl⟩ := map_eq_some_iff.mp hstep
    have hwithin := Call.advance_within (h.placed k call hcall)
    refine ⟨h.advance_hasOwner hcall, fun j other hj => ?_, fun j other hj horg => ?_⟩
    · rw [System.put_calls] at hj
      split at hj
      · obtain ⟨hdb, -, hplaced, -⟩ := Call.advance_next hj
        simpa only [System.put, hdb] using hplaced (h.placed k call hcall)
      · exact (h.placed j other hj).within hwithin
    · rw [System.put_calls] at hj
      split at hj
      · obtain ⟨hdb, hsame, -, hguarded⟩ := Call.advance_next hj
        have hcallOrg := hsame.symm.trans horg
        simpa only [System.put, hdb] using
          hguarded (hcallOrg ▸ h.owner) (h.placed k call hcall) (h.guarded k call hcall hcallOrg)
      · rename_i hne
        refine (h.guarded j other hj horg).within hwithin fun user howns => ?_
        by_contra hlost
        exact hne (halone ⟨user, horg ▸ howns, horg ▸ hlost⟩ j other hj horg)

theorem organization_keeps_owner {org : UUID} {s s' : System} {events : List Event}
    (hrun : run System.step s events = some s') (hidle : ∀ k, s.calls k = none)
    (howner : s.db.HasOwner org)
    (halone : ∀ mid e next, Occurs System.step s events mid e next → Drops org mid next →
      ∀ k call, mid.calls k = some call → call.org = org → k = e.call) :
    s'.db.HasOwner org := by
  have hstart : Owned org s := by
    refine ⟨howner, fun k call hcall => ?_, fun k call hcall => ?_⟩ <;>
      · rw [hidle k] at hcall
        cases hcall
  refine (run_keeps_along (Owned org) hstart ?_ hrun).owner
  intro mid e next hoccurs hmid
  exact hmid.step hoccurs.step_eq (halone mid e next hoccurs)

theorem System.step_calls {s s' : System} (h : s.step e = some s') (hj : j ≠ e.call) :
    s'.calls j = s.calls j := by
  cases e with
  | start k request =>
    simp only [System.step] at h
    split at h
    · cases h
    · cases h
      exact (System.put_calls ..).trans (if_neg hj)
  | advance k =>
    obtain ⟨call, -, rfl⟩ := map_eq_some_iff.mp h
    exact (System.put_calls ..).trans (if_neg hj)

theorem calls_of_one_caller {s mid : System} (hone : ∀ e ∈ events, e.call = k)
    (hidle : ∀ j, s.calls j = none) (h : Occurs System.step s events mid e s')
    (hcall : mid.calls j = some call) : j = e.call := by
  obtain ⟨before, after, rfl, hbefore, -⟩ := h
  have hothers : ∀ j, j ≠ k → mid.calls j = none := by
    refine run_keeps_along (fun mid => ∀ j, j ≠ k → mid.calls j = none) (fun j _ => hidle j) ?_ hbefore
    rintro mid e next ⟨past, rest, rfl, -, hstep⟩ hmid j hj
    have he : e.call = k := hone e (by simp)
    rw [System.step_calls hstep (he ▸ hj)]
    exact hmid j hj
  by_contra hne
  have he : e.call = k := hone e (by simp)
  rw [hothers j (he ▸ hne)] at hcall
  cases hcall

def ownerOf (user org : UUID) : Membership := ⟨.user, user, .organization, org, .owner, some org, fun _ => rfl⟩

def twoOwners : System where
  db := (((Db.empty [.ofByte 1, .ofByte 2]).create (.ofByte 11) (ownerOf (.ofByte 1) (.ofByte 9))).bind
    (·.create (.ofByte 12) (ownerOf (.ofByte 2) (.ofByte 9)))).getD (.empty [])
  calls := fun _ => none

def leaveInTurn : List Event :=
  [.start 0 (.leave (.ofByte 1) (.ofByte 11)), .advance 0, .advance 0, .advance 0,
   .start 0 (.leave (.ofByte 2) (.ofByte 12)), .advance 0]

theorem twoOwners_leave_in_turn :
    ((run System.step twoOwners leaveInTurn).map fun s => (s.db.membersOf (.ofByte 9) .owner).map Prod.fst) =
        some [.ofByte 12] ∧
      ∀ s', run System.step twoOwners leaveInTurn = some s' → s'.db.HasOwner (.ofByte 9) := by
  refine ⟨by decide +kernel, fun s' hrun => ?_⟩
  refine organization_keeps_owner hrun (fun _ => rfl) (by decide +kernel) ?_
  intro mid e next hoccurs _ k call hcall _
  exact calls_of_one_caller (by decide : ∀ e ∈ leaveInTurn, e.call = 0) (fun _ => rfl) hoccurs hcall

def leaveAtOnce : List Event :=
  [.start 0 (.leave (.ofByte 1) (.ofByte 11)), .start 1 (.leave (.ofByte 2) (.ofByte 12)),
   .advance 0, .advance 1, .advance 0, .advance 0, .advance 1, .advance 1]

theorem last_owner_lost : (∀ k, twoOwners.calls k = none) ∧ twoOwners.db.HasOwner (.ofByte 9) ∧
      ∃ s', run System.step twoOwners leaveAtOnce = some s' ∧ ¬ s'.db.HasOwner (.ofByte 9) := by
  refine ⟨fun _ => rfl, by decide +kernel, ?_⟩
  have hrun : ((run System.step twoOwners leaveAtOnce).map fun s => s.db.membersOf (.ofByte 9) .owner) =
      some [] := by decide +kernel
  obtain ⟨s', hs', hnone⟩ := map_eq_some_iff.mp hrun
  exact ⟨s', hs', fun h => h hnone⟩

end Chainloop.Members
