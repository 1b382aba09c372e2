import Chainloop.Backends.Table
import Chainloop.Members.Tables
import Chainloop.Tokens.Claims
import Mathlib.Data.List.Sort

namespace Chainloop.Members

open Go Authz Backends List Map

structure CASMapping where
  digest : String
  createdAt : Nat
  organizationID : UUID
  projectID : Option UUID
  productID : Option UUID
  casBackendID : UUID

-- The table holds no digest that NewHash refuses.
structure Mappings (newHash : String → Except GoError Unit) where
  rows : Map UUID CASMapping
  backends : Table
  validated : ∀ id m, rows.get? id = some m → newHash m.digest = .ok ()

section Create

def validateDigest (newHash : String → Except GoError Unit) (digest : String) : Except GoError Unit :=
  (newHash digest).mapError fun e => .validation (e.wrap "invalid digest format")

theorem validateDigest_eq_ok {newHash : String → Except GoError Unit} :
    validateDigest newHash digest = .ok () ↔ newHash digest = .ok () := mapError_eq_ok

-- No options are the same as options that are all nil.
structure CASMappingCreateOpts where
  workflowRunID : Option UUID
  projectID : Option UUID
  productID : Option UUID

-- The other tables that are looked at: the runs, and the live projects of each organisation.
structure Resources where
  workflowRuns : List UUID
  projects : List (UUID × UUID)

namespace Mappings

variable {newHash : String → Except GoError Unit} (s : Mappings newHash) (r : Resources)

def noRows (backends : Table) : Mappings newHash := ⟨.empty, backends, fun _ _ h => by simp at h⟩

def insert (id : UUID) (m : CASMapping) (h : newHash m.digest = .ok ()) : Mappings newHash where
  rows := s.rows.set id m
  backends := s.backends
  validated := by
    intro id' m' hrow
    rw [get?_set] at hrow
    split at hrow
    · cases hrow
      exact h
    · exact s.validated id' m' hrow

-- CASMappingRepo.Create, with the id that uuid.New draws and the time of the row.
def repoCreate (id : UUID) (now : Nat) (digest : String) (hdigest : newHash digest = .ok ())
    (casBackendID : UUID) (opts : CASMappingCreateOpts) : Except GoError (Mappings newHash) :=
  match (s.backends.get? casBackendID).filter fun b => !b.deleted with
  | none => .error (.new "cas backend not found")
  | some casBackend =>
    if opts.workflowRunID.any fun run => !r.workflowRuns.contains run then
      .error (.notFound "workflow run")
    else if opts.projectID.any fun p => !r.projects.contains (casBackend.organizationID, p) then
      .error (.notFound ("project " ++ Tokens.idText opts.projectID ++ " in organization " ++
        casBackend.organizationID.toString))
    else if id ∈ s.rows.keys then .error (.new "failed to create casMapping: ent: constraint failed")
    else .ok (s.insert id ⟨digest, now, casBackend.organizationID, opts.projectID, opts.productID,
      casBackendID⟩ hdigest)

def create (id : UUID) (now : Nat) (digest casBackendID : String) (opts : CASMappingCreateOpts) :
    Except GoError (Mappings newHash) := do
  let casBackendUUID ← (Tokens.parseUUID casBackendID).mapError (.wrap "invalid UUID")
  match h : validateDigest newHash digest with
  | .error e => .error e
  | .ok _ =>
    if opts.projectID.isSome && opts.productID.isSome then
      .error (.validationStr "a mapping cannot be scoped to a project and a product at once")
    else s.repoCreate r id now digest (validateDigest_eq_ok.mp h) casBackendUUID opts

end Mappings

end Create

structure RBACScope where
  projectIDs : List UUID
  productIDs : List UUID

abbrev RBACScopes := Map UUID RBACScope

def resourcesWithMembershipInOrg (org : UUID) (memberships : List Membership) (kind : ResourceType) : List UUID :=
  (memberships.filter fun m => m.resourceType = kind ∧ m.organizationID = some org).map (·.resourceID)

def scopeIn (memberships : List Membership) (org : UUID) : RBACScope where
  projectIDs := resourcesWithMembershipInOrg org memberships .project
  productIDs := resourcesWithMembershipInOrg org memberships .product

def addOrg (memberships : List Membership) (found : List UUID × RBACScopes) (m : Membership) :
    List UUID × RBACScopes :=
  if m.resourceType = .organization then
    (found.1 ++ [m.resourceID],
      if m.role.rbacEnabled then found.2.set m.resourceID (scopeIn memberships m.resourceID) else found.2)
  else found

def getOrgsAndRBACInfoForUser (db : Db) (user : UUID) : List UUID × RBACScopes :=
  let memberships := db.listAllMembershipsForUser user
  memberships.foldl (addOrg memberships) ([], .empty)

-- An IN without arguments is false, and so is one on a column that is not set.
def orgPredicate (scopes : RBACScopes) (m : CASMapping) (org : UUID) : Bool :=
  match scopes.get? org with
  | none => m.organizationID == org
  | some scope => m.organizationID == org &&
      (m.projectID.any scope.projectIDs.contains || m.productID.any scope.productIDs.contains)

-- The default backend first, then the oldest mapping.
def Preferred (a b : CASMapping × CASBackend) : Prop :=
  (b.2.default → a.2.default) ∧ (a.2.default = b.2.default → a.1.createdAt ≤ b.1.createdAt)

instance : DecidableRel Preferred := fun _ _ => inferInstanceAs (Decidable (_ ∧ _))

section

variable {newHash : String → Except GoError Unit}

def queryServiceable (s : Mappings newHash) (preds : CASMapping → Bool) : List (CASMapping × CASBackend) :=
  s.rows.entries.filterMap fun e =>
    ((s.backends.get? e.2.casBackendID).filter fun b => preds e.2 && !b.deleted).map fun b => (e.2, b)

def findOnePreferringDefault (s : Mappings newHash) (preds : CASMapping → Bool) :
    Option (CASMapping × CASBackend) :=
  ((queryServiceable s preds).insertionSort Preferred).head?

def findByDigestInOrgs (s : Mappings newHash) (digest : String) (orgs : List UUID) (scopes : RBACScopes) :
    Option (CASMapping × CASBackend) :=
  if orgs = [] then none
  else findOnePreferringDefault s fun m => m.digest == digest && orgs.any (orgPredicate scopes m)

def findCASMappingForDownloadByOrg (s : Mappings newHash) (digest : String) (orgs : List UUID)
    (scopes : RBACScopes) : Except GoError (CASMapping × CASBackend) :=
  match validateDigest newHash digest with
  | .error e => .error e
  | .ok _ =>
    if orgs = [] then .error (.validationStr "no organizations provided")
    else match findByDigestInOrgs s digest orgs scopes with
      | none => .error (.notFound "digest not found in any mapping")
      | some found => .ok found

def findCASMappingForDownloadByUser (db : Db) (s : Mappings newHash) (digest userID : String) :
    Except GoError (CASMapping × CASBackend) := do
  let user ← (Tokens.parseUUID userID).mapError (.wrap "invalid UUID")
  let (orgs, scopes) := getOrgsAndRBACInfoForUser db user
  wrapErr "failed to find cas mapping for download" (findCASMappingForDownloadByOrg s digest orgs scopes)

-- The mapping's organisation is one the user has a role in. With a role that is subject to
-- RBAC there it takes a role in the mapping's project or product too.
structure Reachable (db : Db) (user : UUID) (m : CASMapping) : Prop where
  member : ∃ g, db.Holds user g ∧ g.resourceType = .organization ∧ g.resourceID = m.organizationID
  scope : (∀ g, db.Holds user g → g.resourceType = .organization → g.resourceID = m.organizationID →
      g.role.rbacEnabled = false) ∨
    ∃ g, db.Holds user g ∧ g.organizationID = some m.organizationID ∧
      (g.resourceType = .project ∧ m.projectID = some g.resourceID ∨
        g.resourceType = .product ∧ m.productID = some g.resourceID)

structure Downloadable (db : Db) (s : Mappings newHash) (user : UUID) (digest : String)
    (found : CASMapping × CASBackend) : Prop where
  row : ∃ id, s.rows.get? id = some found.1
  digest : found.1.digest = digest
  backend : s.backends.get? found.1.casBackendID = some found.2
  serviceable : found.2.deleted = false
  reachable : Reachable db user found.1

def Restricts (org : UUID) (g : Membership) : Bool :=
  g.resourceType = .organization ∧ g.resourceID = org ∧ g.role.rbacEnabled

variable {memberships ms : List Membership} {found : List UUID × RBACScopes} {org user : UUID} {db : Db}

theorem mem_foldl_addOrg : org ∈ (ms.foldl (addOrg memberships) found).1 ↔
      org ∈ found.1 ∨ ∃ g ∈ ms, g.resourceType = .organization ∧ g.resourceID = org := by
  induction ms generalizing found with
  | nil => simp
  | cons g ms ih =>
    simp only [foldl_cons, ih, addOrg, mem_cons, exists_eq_or_imp]
    split <;> simp_all [eq_comm, or_assoc]

theorem get?_foldl_addOrg : (ms.foldl (addOrg memberships) found).2.get? org =
      if ms.any (Restricts org) then some (scopeIn memberships org) else found.2.get? org := by
  induction ms generalizing found with
  | nil => simp
  | cons g ms ih =>
    rw [foldl_cons, ih, any_cons, addOrg, Restricts]
    cases ms.any (Restricts org) with
    | true => simp
    | false => grind [get?_set]

theorem any_contains_iff (id : Option UUID) (kind : ResourceType) :
    id.any (resourcesWithMembershipInOrg org (db.listAllMembershipsForUser user) kind).contains = true ↔
      ∃ g, db.Holds user g ∧ g.organizationID = some org ∧ g.resourceType = kind ∧ id = some g.resourceID := by
  cases id with
  | none => simp
  | some id =>
    simp only [resourcesWithMembershipInOrg, Option.any_some, contains_iff_mem, mem_map, mem_filter,
      Db.mem_listAllMembershipsForUser, decide_eq_true_iff]
    grind

def visibleTo (db : Db) (user : UUID) (m : CASMapping) : Bool :=
  (getOrgsAndRBACInfoForUser db user).1.any (orgPredicate (getOrgsAndRBACInfoForUser db user).2 m)

theorem visibleTo_iff (m : CASMapping) : visibleTo db user m = true ↔
    m.organizationID ∈ (getOrgsAndRBACInfoForUser db user).1 ∧
      orgPredicate (getOrgsAndRBACInfoForUser db user).2 m m.organizationID = true := by
  rw [visibleTo, any_eq_true]
  constructor
  · rintro ⟨org, hmem, hpred⟩
    have howner : m.organizationID = org := by
      unfold orgPredicate at hpred
      split at hpred <;> simp_all
    exact ⟨howner ▸ hmem, howner ▸ hpred⟩
  · exact fun h => ⟨_, h⟩

theorem visibleTo_iff_reachable (m : CASMapping) : visibleTo db user m = true ↔ Reachable db user m := by
  rw [visibleTo_iff, orgPredicate, getOrgsAndRBACInfoForUser, mem_foldl_addOrg, get?_foldl_addOrg]
  simp only [Db.mem_listAllMembershipsForUser, not_mem_nil, false_or]
  cases hrestricts : (db.listAllMembershipsForUser user).any (Restricts m.organizationID) with
  | true =>
    simp only [if_true, scopeIn, beq_self_eq_true, Bool.true_and, Bool.or_eq_true, any_contains_iff]
    simp only [any_eq_true, Restricts, Db.mem_listAllMembershipsForUser, decide_eq_true_iff] at hrestricts
    grind [Reachable]
  | false =>
    simp only [any_eq_false, Restricts, Db.mem_listAllMembershipsForUser, decide_eq_true_iff] at hrestricts
    simp
    grind [Reachable]

theorem mem_queryServiceable {s : Mappings newHash} {e : CASMapping × CASBackend} :
    e ∈ queryServiceable s (fun m => m.digest == digest && visibleTo db user m) ↔
      Downloadable db s user digest e := by
  simp only [queryServiceable, mem_filterMap, Option.map_eq_some_iff, Option.filter_eq_some_iff,
    Bool.and_eq_true, beq_iff_eq, visibleTo_iff_reachable]
  constructor
  · rintro ⟨⟨id, m⟩, hrow, b, ⟨hbackend, ⟨hdigest, hreach⟩, hlive⟩, rfl⟩
    exact ⟨⟨id, (get?_eq_some_iff ..).mpr hrow⟩, hdigest, hbackend, by simpa using hlive, hreach⟩
  · rintro ⟨⟨id, hrow⟩, hdigest, hbackend, hlive, hreach⟩
    exact ⟨(id, e.1), (get?_eq_some_iff ..).mp hrow, e.2, ⟨hbackend, ⟨hdigest, hreach⟩, by simpa using hlive⟩, rfl⟩

theorem head?_preferred {l : List (CASMapping × CASBackend)} (h : (l.insertionSort Preferred).head? = some e) :
    e ∈ l ∧ ∀ e' ∈ l, e'.2.default = true → e.2.default = true := by
  have htotal : Std.Total Preferred := ⟨fun a b => by unfold Preferred; grind⟩
  have htrans : IsTrans _ Preferred := by
    refine ⟨fun a b c hab hbc => ⟨fun h => hab.1 (hbc.1 h), fun h => ?_⟩⟩
    have hb : a.2.default = b.2.default := Bool.eq_iff_iff.mpr ⟨fun ha => hbc.1 (h ▸ ha), hab.1⟩
    exact (hab.2 hb).trans (hbc.2 (hb ▸ h))
  obtain ⟨rest, hsorted⟩ := head?_eq_some_iff.mp h
  have hpairs := pairwise_insertionSort Preferred l
  simp only [← mem_insertionSort Preferred (l := l), hsorted] at hpairs ⊢
  refine ⟨mem_cons_self, fun e' he' hdefault => ?_⟩
  rcases mem_cons.mp he' with rfl | he'
  · exact hdefault
  · exact ((pairwise_cons.mp hpairs).1 e' he').1 hdefault

-- Without organisations nothing is visible either, so the early returns make no difference.
theorem findCASMappingForDownloadByUser_eq_ok (s : Mappings newHash) (userID : String) (e : CASMapping × CASBackend) :
    findCASMappingForDownloadByUser db s digest userID = .ok e ↔
      ∃ user, UUID.parse userID = some user ∧ newHash digest = .ok () ∧
        findOnePreferringDefault s (fun m => m.digest == digest && visibleTo db user m) = some e := by
  simp only [findCASMappingForDownloadByUser, bind_eq_ok, mapError_eq_ok, Tokens.parseUUID_eq_ok, wrapErr_eq_ok,
    findCASMappingForDownloadByOrg]
  refine exists_congr fun user => and_congr_right fun _ => ?_
  by_cases horgs : (getOrgsAndRBACInfoForUser db user).1 = []
  · have hnone : findOnePreferringDefault s (fun m => m.digest == digest && visibleTo db user m) = none := by
      simp [findOnePreferringDefault, queryServiceable, visibleTo, horgs]
    cases hvalid : validateDigest newHash digest <;> simp [← validateDigest_eq_ok, hvalid, horgs, hnone]
  · rw [← validateDigest_eq_ok]
    cases validateDigest newHash digest with
    | error => simp
    | ok _ =>
      cases hfound : findOnePreferringDefault s (fun m => m.digest == digest && visibleTo db user m) <;>
        simp_all [findByDigestInOrgs, visibleTo]

theorem user_downloads_reachable_mappings (db : Db) (s : Mappings newHash) (digest userID : String) :
    ((∃ e, findCASMappingForDownloadByUser db s digest userID = .ok e) ↔
        ∃ user, UUID.parse userID = some user ∧ ∃ e, Downloadable db s user digest e) ∧
      ∀ e, findCASMappingForDownloadByUser db s digest userID = .ok e →
        ∃ user, UUID.parse userID = some user ∧ Downloadable db s user digest e ∧
          ((∃ e', Downloadable db s user digest e' ∧ e'.2.default = true) → e.2.default = true) := by
  simp only [findCASMappingForDownloadByUser_eq_ok, ← mem_queryServiceable]
  refine ⟨⟨?_, ?_⟩, ?_⟩
  · rintro ⟨e, user, huser, -, hfound⟩
    exact ⟨user, huser, e, (head?_preferred hfound).1⟩
  · rintro ⟨user, huser, e, he⟩
    obtain ⟨id, hrow⟩ := (mem_queryServiceable.mp he).row
    have hvalid := s.validated id e.1 hrow
    rw [(mem_queryServiceable.mp he).digest] at hvalid
    obtain ⟨e', he'⟩ := Option.ne_none_iff_exists'.mp (mt head?_eq_none_iff.mp
      (ne_nil_of_mem ((mem_insertionSort Preferred).mpr he)))
    exact ⟨e', user, huser, hvalid, he'⟩
  · rintro e ⟨user, huser, -, hfound⟩
    obtain ⟨hmem, hpreferred⟩ := head?_preferred hfound
    exact ⟨user, huser, hmem, fun ⟨e', he', hdefault⟩ => hpreferred e' he' hdefault⟩

def aBackend : CASBackend := ⟨.ofByte 9, "cas", .s3, true, false, false, false⟩

def oneBackend : Table := Map.ofList [(.ofByte 5, aBackend)]

def contributor : Membership :=
  ⟨.user, .ofByte 1, .organization, .ofByte 9, .orgContributor, some (.ofByte 9), fun _ => rfl⟩

def projectAdmin : Membership :=
  ⟨.user, .ofByte 1, .project, .ofByte 7, .projectAdmin, some (.ofByte 9), by decide⟩

def contributors : Db :=
  (((Db.empty [.ofByte 1]).create (.ofByte 11) contributor).bind (·.create (.ofByte 12) projectAdmin)).getD
    (.empty [])

def projectMapping : CASMapping := ⟨"sha256:ab", 0, .ofByte 9, some (.ofByte 7), none, .ofByte 5⟩

-- A contributor downloads what was stored for a project they have a role in, and a user
-- without a role in the organisation does not.
theorem project_mapping_downloaded : ∃ s : Mappings fun _ => .ok (),
    (Mappings.noRows oneBackend).create ⟨[], [(.ofByte 9, .ofByte 7)]⟩ (.ofByte 3) 0 "sha256:ab"
        (UUID.ofByte 5).toString ⟨none, some (.ofByte 7), none⟩ = .ok s ∧
      (∃ e, findCASMappingForDownloadByUser contributors s "sha256:ab" (UUID.ofByte 1).toString = .ok e) ∧
      ¬ ∃ e, findCASMappingForDownloadByUser contributors s "sha256:ab" (UUID.ofByte 2).toString = .ok e := by
  let s : Mappings fun _ => .ok () := (Mappings.noRows oneBackend).insert (.ofByte 3) projectMapping rfl
  have hbackend : oneBackend.get? (.ofByte 5) = some aBackend := by decide
  have hcontributor : contributors.Holds (.ofByte 1) contributor :=
    Db.mem_listAllMembershipsForUser.mp (by decide +kernel)
  have hadmin : contributors.Holds (.ofByte 1) projectAdmin :=
    Db.mem_listAllMembershipsForUser.mp (by decide +kernel)
  refine ⟨s, ?_, ?_, ?_⟩
  · have hparse : Tokens.parseUUID (UUID.ofByte 5).toString = .ok (.ofByte 5) := by
      rw [Tokens.parseUUID_eq_ok, UUID.parse_toString]
    rw [Mappings.create, hparse]
    rfl
  · refine (user_downloads_reachable_mappings contributors s _ _).1.mpr
      ⟨.ofByte 1, UUID.parse_toString _, (projectMapping, aBackend), ?_⟩
    exact {
      row := ⟨.ofByte 3, get?_set_self ..⟩
      digest := rfl
      backend := hbackend
      serviceable := rfl
      reachable := ⟨⟨contributor, hcontributor, rfl, rfl⟩, .inr ⟨projectAdmin, hadmin, rfl, .inl ⟨rfl, rfl⟩⟩⟩ }
  · intro hfound
    obtain ⟨user, huser, e, he⟩ := (user_downloads_reachable_mappings contributors s _ _).1.mp hfound
    rw [UUID.parse_toString] at huser
    cases huser
    obtain ⟨g, hg, -⟩ := he.reachable.member
    have hnone : contributors.listAllMembershipsForUser (.ofByte 2) = [] := by decide +kernel
    have hmem := Db.mem_listAllMembershipsForUser.mpr hg
    rw [hnone] at hmem
    cases hmem

end

end Chainloop.Members
