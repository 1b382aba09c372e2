import Chainloop.Go.Map
import Chainloop.Tokens.Claims

namespace Chainloop.Authz

open Go Map

structure RequestToken where
  id : UUID
  projectName : Option String
  scope : Option ResourceType
  scopeID : Option UUID
  projectIDs : List UUID

structure ResourceMembership where
  role : Role
  resourceType : ResourceType
  resourceID : UUID

inductive Caller where
  | user (role : Role) (resources : List ResourceMembership)
  | token (t : RequestToken)

inductive Subject where
  | role (r : Role)
  | apiToken (id : UUID)

-- Casbin looks a role up in the policies it was loaded with, which cannot fail: the branches for
-- an error of a role's lookup are never taken. The policies of a token are in its row.
structure Enforcer where
  casbin : Role → Policy → Bool
  findByID : UUID → Except GoError (Option (List Policy))

-- ServerOperationsMap, which has no operation without a name.
structure Operations where
  entries : Map String (List Policy)
  named : entries.get? "" = none

inductive Refusal where
  | forbidden (message : String)
  | internalServer (message : String)
  | useCase (e : GoError)

def Enforcer.enforce (e : Enforcer) : Subject → Policy → Except GoError Bool
  | .role r, p => .ok (e.casbin r p)
  | .apiToken id, p => do
    match ← e.findByID id with
    | none => .error (.notFound "API token")
    | some policies => return policies.any fun allowed => allowed.resource == p.resource && allowed.action == p.action

def Subject.isAdmin : Subject → Bool
  | .role r => r.isAdmin
  | .apiToken _ => false

namespace RequestToken

def isWide (t : RequestToken) : Bool := t.scope == some .organization || t.scope == some .wholeInstance

def resourceScope (t : RequestToken) : Option (ResourceType × UUID) :=
  match t.scope, t.scopeID with
  | some .project, some id => some (.project, id)
  | some .product, some id => some (.product, id)
  | _, _ => none

def reachesProject (t : RequestToken) (id : UUID) : Bool :=
  t.isWide || match t.resourceScope with
    | none => false
    | some (.project, scopeID) => scopeID == id
    | some _ => t.projectIDs.contains id

def outOfReachMessage (t : RequestToken) : String :=
  match t.resourceScope with
  | none => "operation not allowed: this auth token is not confined to this resource"
  | some (.project, id) => "operation not allowed: This auth token is valid only with the project " ++
      Tokens.quote (t.projectName.getD id.toString)
  | some (kind, id) => "operation not allowed: this auth token is valid only with the projects of the " ++
      kind.text ++ " " ++ Tokens.quote id.toString

end RequestToken

namespace Caller

def subject : Caller → Subject
  | .user role _ => .role role
  | .token t => .apiToken t.id

def rbacEnabled : Caller → Bool
  | .user role _ => role.rbacEnabled
  | .token t => !t.isWide

end Caller

section

variable (e : Enforcer) (op : Policy)

def checkPolicy (subject : Subject) (p : Policy) : Except Refusal Unit :=
  match e.enforce subject p with
  | .error err => .error (.internalServer err.message)
  | .ok false => .error (.forbidden "operation not allowed")
  | .ok true => .ok ()

def checkPolicies (operations : Operations) (subject : Subject) (apiOperation : String) : Except Refusal Unit :=
  match operations.entries.get? apiOperation with
  | none => .error (.forbidden "operation not allowed")
  | some policies => policies.forM (checkPolicy e subject)

def authzMiddleware (operations : Operations) (subject : Subject) (apiOperation : String) : Except Refusal Unit :=
  if apiOperation = "" then .error (.internalServer "could not find API request")
  else if subject.isAdmin then .ok ()
  else checkPolicies e operations subject apiOperation

def enforceAny (message : String) : List Role → Except Refusal Unit
  | [] => .error (.forbidden message)
  | role :: rest =>
    match e.enforce (.role role) op with
    | .error err => .error (.useCase err)
    | .ok true => .ok ()
    | .ok false => enforceAny message rest

def authorizeResource (forceRBAC : Bool) (resourceType : ResourceType) (resourceID : UUID) (caller : Caller) :
    Except Refusal Unit :=
  if !forceRBAC && !caller.rbacEnabled then .ok ()
  else match caller with
    | .token t =>
      if resourceType = .project ∧ t.reachesProject resourceID then .ok ()
      else .error (.forbidden t.outOfReachMessage)
    | .user _ resources =>
      let message := "you do not have permissions to access the " ++ Tokens.quote resourceType.text ++
        " with id " ++ Tokens.quote resourceID.toString
      let found := (resources.filter fun rm => rm.resourceType = resourceType ∧ rm.resourceID = resourceID).map (·.role)
      if found = [] then .error (.forbidden message)
      else enforceAny e op (message ++ ", roles=[" ++ " ".intercalate (found.map Role.text) ++ "]") found

-- The answer for a role is kept, so that each role is enforced once.
def markResource (acc : Map Role Bool × Map UUID Bool) (rm : ResourceMembership) :
    Except GoError (Map Role Bool × Map UUID Bool) := do
  if rm.resourceType ≠ .project then return acc
  let roleGrants ← match acc.1.get? rm.role with
    | some _ => pure acc.1
    | none => (e.enforce (.role rm.role) op).map (acc.1.set rm.role)
  return (roleGrants, if roleGrants.getD rm.role false then acc.2.set rm.resourceID true else acc.2)

def projectsAllowing (caller : Caller) (projects : List UUID) : Except GoError (Map UUID Bool) := do
  let orgAllows ← (if caller.subject.isAdmin then .ok true else e.enforce caller.subject op : Except GoError Bool)
  if !orgAllows then return .empty
  if !caller.rbacEnabled then return projects.foldl (fun allowed p => allowed.set p true) .empty
  match caller with
  | .token t => return projects.foldl (fun allowed p => allowed.set p (t.reachesProject p)) .empty
  | .user _ resources => return (← resources.foldlM (markResource e op) (.empty, .empty)).2

end

variable {e : Enforcer} {op : Policy} {caller : Caller}

theorem enforceAny_eq_ok : enforceAny e op message roles = .ok () ↔ ∃ r ∈ roles, e.casbin r op = true := by
  induction roles with
  | nil => simp [enforceAny]
  | cons r roles ih =>
    cases hr : e.casbin r op <;> simp [enforceAny, Enforcer.enforce, hr, ih]

theorem authzMiddleware_eq_ok (operations : Operations) (h : operations.entries.get? apiOperation = some [op]) :
    authzMiddleware e operations subject apiOperation = .ok () ↔
      subject.isAdmin = true ∨ e.enforce subject op = .ok true := by
  have hname : apiOperation ≠ "" := by
    rintro rfl
    cases operations.named.symm.trans h
  rw [authzMiddleware, if_neg hname]
  cases subject.isAdmin with
  | true => simp
  | false =>
    cases henforce : e.enforce subject op with
    | error err => simp [checkPolicies, h, checkPolicy, henforce, bind, Except.bind]
    | ok passes =>
      cases passes <;> simp [checkPolicies, h, checkPolicy, henforce, bind, Except.bind, pure, Except.pure]

theorem getD_foldl_set {projects : List UUID} (reach : UUID → Bool) (hp : p ∈ projects) (allowed : Map UUID Bool) :
    (projects.foldl (fun allowed p => allowed.set p (reach p)) allowed).getD p false = reach p := by
  induction projects using List.reverseRecOn with
  | nil => cases hp
  | append_singleton projects q ih =>
    rw [List.foldl_concat, getD, get?_set]
    grind [getD]

-- The answers kept for the roles are those of the enforcer.
def Answers (e : Enforcer) (op : Policy) (kept : Map Role Bool) : Prop :=
  ∀ r grants, kept.get? r = some grants → grants = e.casbin r op

theorem getD_mark {rm : ResourceMembership} {kept : Map Role Bool}
    (h : kept.get? rm.role = some (e.casbin rm.role op)) (allowed : Map UUID Bool) :
    (if kept.getD rm.role false then allowed.set rm.resourceID true else allowed).getD p false = true ↔
      allowed.getD p false = true ∨ rm.resourceID = p ∧ e.casbin rm.role op = true := by
  have hrole : kept.getD rm.role false = e.casbin rm.role op := by rw [getD, h, Option.getD_some]
  rw [hrole]
  cases e.casbin rm.role op with
  | false => simp
  | true =>
    simp only [if_true, getD, get?_set]
    grind

theorem markResource_eq_ok (hkept : Answers e op acc.1) : ∃ acc', markResource e op acc rm = .ok acc' ∧
    Answers e op acc'.1 ∧ ∀ p, acc'.2.getD p false = true ↔ acc.2.getD p false = true ∨
      rm.resourceType = .project ∧ rm.resourceID = p ∧ e.casbin rm.role op = true := by
  by_cases hproject : rm.resourceType = .project
  · cases hseen : acc.1.get? rm.role with
    | some grants =>
      refine ⟨(acc.1, if acc.1.getD rm.role false then acc.2.set rm.resourceID true else acc.2),
        by simp [markResource, hproject, hseen]; rfl, hkept, fun p => ?_⟩
      rw [getD_mark (hkept _ _ hseen ▸ hseen)]
      simp [hproject]
    | none =>
      refine ⟨(acc.1.set rm.role (e.casbin rm.role op), _),
        by simp [markResource, hproject, hseen, Enforcer.enforce, Except.map]; rfl, fun r grants h => ?_, fun p => ?_⟩
      · rw [get?_set] at h
        grind [Answers]
      · rw [getD_mark (get?_set_self ..)]
        simp [hproject]
  · exact ⟨acc, by simp [markResource, hproject]; rfl, hkept, by simp [hproject]⟩

theorem foldlM_markResource (resources : List ResourceMembership) (acc : Map Role Bool × Map UUID Bool)
    (hkept : Answers e op acc.1) :
    ∃ acc', resources.foldlM (markResource e op) acc = .ok acc' ∧ ∀ p, acc'.2.getD p false = true ↔
      acc.2.getD p false = true ∨
        ∃ rm ∈ resources, rm.resourceType = .project ∧ rm.resourceID = p ∧ e.casbin rm.role op = true := by
  induction resources generalizing acc with
  | nil => exact ⟨acc, rfl, by simp⟩
  | cons rm resources ih =>
    obtain ⟨acc', hmark, hkept', hallowed⟩ := markResource_eq_ok hkept
    obtain ⟨last, hrun, hlast⟩ := ih acc' hkept'
    refine ⟨last, by rw [List.foldlM_cons, hmark]; exact hrun, fun p => ?_⟩
    rw [hlast, hallowed]
    simp [or_assoc]

theorem authorizeResource_user (hrbac : (Caller.user role resources).rbacEnabled = true) :
    authorizeResource e op false kind target (.user role resources) = .ok () ↔
      ∃ rm ∈ resources, rm.resourceType = kind ∧ rm.resourceID = target ∧ e.casbin rm.role op = true := by
  rw [authorizeResource, if_neg (by simp [hrbac])]
  dsimp only
  split
  case isTrue hfound =>
    rw [List.map_eq_nil_iff, List.filter_eq_nil_iff] at hfound
    simp only [reduceCtorEq, false_iff]
    rintro ⟨rm, hrm, hkind, hid, -⟩
    exact hfound rm hrm (by simp [hkind, hid])
  case isFalse =>
    rw [enforceAny_eq_ok]
    simp [and_assoc]

theorem projectsAllowing_iff (horg : caller.subject.isAdmin = true ∨ e.enforce caller.subject op = .ok true)
    (hp : p ∈ projects) :
    (∃ allowed, projectsAllowing e op caller projects = .ok allowed ∧ allowed.getD p false = true) ↔
      authorizeResource e op false .project p caller = .ok () := by
  have hallows : (if caller.subject.isAdmin then .ok true else e.enforce caller.subject op) = .ok true := by
    rcases horg with h | h <;> simp [h]
  unfold projectsAllowing
  rw [hallows]
  cases hrbac : caller.rbacEnabled with
  | false =>
    simp [authorizeResource, hrbac, bind, Except.bind, pure, Except.pure, getD_foldl_set (fun _ => true) hp]
  | true =>
    cases caller with
    | token t =>
      simp [authorizeResource, hrbac, bind, Except.bind, pure, Except.pure, getD_foldl_set t.reachesProject hp]
    | user role resources =>
      obtain ⟨acc, hrun, hacc⟩ := foldlM_markResource resources (.empty, .empty) (by simp [Answers] : Answers e op .empty)
      rw [authorizeResource_user hrbac]
      simp [bind, Except.bind, pure, Except.pure, hrun, hacc, show empty.getD p false = false from rfl]

theorem listing_tells_truth (e : Enforcer) (operations : Operations) (apiOperation : String) (op : Policy)
    (hop : operations.entries.get? apiOperation = some [op]) (caller : Caller) (projects : List UUID)
    (p : UUID) (hp : p ∈ projects) :
    (∃ allowed, projectsAllowing e op caller projects = .ok allowed ∧ allowed.getD p false = true) ↔
      authzMiddleware e operations caller.subject apiOperation = .ok () ∧
        authorizeResource e op false .project p caller = .ok () := by
  rw [authzMiddleware_eq_ok operations hop]
  by_cases horg : caller.subject.isAdmin = true ∨ e.enforce caller.subject op = .ok true
  · rw [projectsAllowing_iff horg hp, and_iff_right horg]
  · refine iff_of_false ?_ fun h => horg h.1
    rintro ⟨allowed, h, hallowed⟩
    rw [not_or] at horg
    unfold projectsAllowing at h
    rw [if_neg horg.1] at h
    cases henforce : e.enforce caller.subject op with
    | error err => simp [henforce, bind, Except.bind] at h
    | ok allows =>
      obtain rfl : allows = false := by
        cases allows
        · rfl
        · exact absurd henforce horg.2
      obtain rfl : empty = allowed := by simpa [henforce, bind, Except.bind, pure, Except.pure] using h
      simp [getD] at hallowed

theorem listing_tells_truth_of_contributor :
    let e : Enforcer := ⟨fun r _ => r == .orgContributor || r == .projectAdmin, fun _ => .ok none⟩
    let op : Policy := ⟨"workflow", "create"⟩
    let caller := Caller.user .orgContributor [⟨.projectViewer, .project, .nil⟩, ⟨.projectAdmin, .project, .nil⟩]
    (∃ allowed, projectsAllowing e op caller [.nil] = .ok allowed ∧ allowed.getD .nil false = true) ∧
      ((∃ allowed, projectsAllowing e op caller [.nil] = .ok allowed ∧ allowed.getD .nil false = true) ↔
        authzMiddleware e ⟨.ofList [("/Create", [op])], rfl⟩ caller.subject "/Create" = .ok () ∧
          authorizeResource e op false .project .nil caller = .ok ()) :=
  ⟨⟨_, rfl, rfl⟩, listing_tells_truth _ _ _ _ rfl _ _ _ (List.mem_singleton_self _)⟩

end Chainloop.Authz
