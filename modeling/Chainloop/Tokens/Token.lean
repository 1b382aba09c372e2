import Mathlib.Data.List.Destutter
import Mathlib.Data.List.Sort
import Chainloop.Go.Map
import Chainloop.Tokens.Claims

namespace Chainloop.Tokens

open Go Authz

def orgLevelTokenPolicies : List Authz.Policy :=
  [⟨"api_token", "create"⟩, ⟨"api_token", "list"⟩, ⟨"api_token", "delete"⟩,
   ⟨"integration_registered", "create"⟩, ⟨"integration_registered", "list"⟩, ⟨"integration_registered", "read"⟩]

def defaultAuthzPolicies : List Authz.Policy :=
  [⟨"workflow_run", "list"⟩, ⟨"workflow_run", "read"⟩,
   ⟨"workflow", "read"⟩, ⟨"workflow", "list"⟩, ⟨"workflow", "create"⟩,
   ⟨"workflow_contract", "list"⟩, ⟨"workflow_contract", "read"⟩, ⟨"workflow_contract", "update"⟩,
   ⟨"workflow_contract", "create"⟩,
   ⟨"cas_artifact", "read"⟩, ⟨"referrer", "read"⟩, ⟨"organization", "read"⟩,
   ⟨"integration_available", "read"⟩, ⟨"integration_available", "list"⟩, ⟨"integration_attached", "list"⟩,
   ⟨"integration_attached", "create"⟩, ⟨"cas_artifact", "create"⟩]

def isOrgLevelTokenPolicy : Option Authz.Policy → Bool
  | none => false
  | some p => orgLevelTokenPolicies.contains p

-- A token as pkg/biz has it. The nil UUID stands for no organisation.
structure APIToken where
  id : UUID
  name : String
  organizationID : UUID
  project : Option Named
  workflow : Option Named
  scope : Option ResourceType
  scopeID : Option UUID
  projectIDs : Option (List UUID)
  policies : List (Option Authz.Policy)
  isSystem : Bool
  expiresAt : Option Int
deriving DecidableEq

def errAPITokenClaimsMismatch : GoError := .new "API token could not be verified"

def mismatch (context : String) : GoError := errAPITokenClaimsMismatch.wrap context

def sameClaimedID (row : Option UUID) (claim : String) : Bool := claim = idText row

namespace APIToken

def organization (t : APIToken) : Option UUID := if t.organizationID = .nil then none else some t.organizationID

def verifyRow (t : APIToken) (claims : CustomClaims) : Except GoError Unit :=
  match claims.getScope with
  | .error e =>
    .error ⟨"API token scope claims: " ++ e.message ++ ": " ++ errAPITokenClaimsMismatch.message, e.kinds⟩
  | .ok (kind, id) =>
    if t.scope ≠ some kind ∨ t.scopeID ≠ id then
      .error (mismatch "API token scope mismatch")
    else if claims.orgID ≠ idText t.organization then
      .error (mismatch "API token organization mismatch")
    else if sameClaimedID (t.project.map (·.id)) claims.projectID = false then
      .error (mismatch "API token project mismatch")
    else if sameClaimedID (t.workflow.map (·.id)) claims.workflowID = false then
      .error (mismatch "API token workflow mismatch")
    else
      .ok ()

end APIToken

def verifyClaims : Option APIToken → Option CustomClaims → Except GoError Unit
  | none, _ => .error (.new "API token not found")
  | some _, none => .error (.new "API token has no claims")
  | some t, some claims => t.verifyRow claims

def validateTokenShape (scope : Option ResourceType) (scopeID orgID projectID : Option UUID)
    (projectIDs : Option (List UUID)) : Except GoError Unit :=
  if ¬ (scope = some .product ↔ projectIDs.isSome) then
    .error (.validationStr "only a product-scoped token carries a project list, and it always carries one")
  else
    match scope with
    | none => if scopeID.isSome then .error (.validationStr "a scope id needs a scope kind") else .ok ()
    | some kind =>
      let same (a b : Option UUID) : Bool := a.isSome ∧ a = b
      let coherent : Bool := match kind with
        | .organization => projectID.isNone ∧ same scopeID orgID
        | .project => same scopeID projectID
        | .wholeInstance => scopeID.isNone ∧ orgID.isNone ∧ projectID.isNone
        | .product => scopeID.isSome ∧ orgID.isSome ∧ projectID.isNone
        | .group => false
      if coherent = false then
        .error (.validationStr ("a " ++ quote kind.text ++ " scope does not agree with the token it is on"))
      else .ok ()

def newTokenScope (orgID projectID : Option UUID) : ResourceType × Option UUID :=
  match projectID, orgID with
  | some project, _ => (.project, some project)
  | none, some org => (.organization, some org)
  | none, none => (.wholeInstance, none)

-- CanonicalProjectIDs: sorted by their bytes and without repetitions.
def canonicalProjectIDs (ids : List UUID) : List UUID :=
  (ids.insertionSort fun a b => a.bytes ≤ b.bytes).destutter (· ≠ ·)

structure Organization where
  name : String
  deleted : Bool
deriving DecidableEq

structure Project where
  name : String
  organizationID : UUID
  deleted : Bool
deriving DecidableEq

structure Workflow where
  name : String
  projectID : UUID
deriving DecidableEq

-- The tables that tokens refer to. Organisations get their ids from uuid.New.
structure Catalog where
  organizations : Map UUID Organization
  projects : Map UUID Project
  workflows : Map UUID Workflow
  identified : ∀ id ∈ organizations.keys, id ≠ .nil

def Catalog.findOrganization (catalog : Catalog) (id : UUID) : Except GoError Organization :=
  match (catalog.organizations.get? id).filter fun org => org.deleted = false with
  | none => .error (.notFound "organization")
  | some org => .ok org

structure Row where
  name : String
  organizationID : Option UUID
  projectID : Option UUID
  workflowID : Option UUID
  scope : Option ResourceType
  scopeID : Option UUID
  projectIDs : Option (List UUID)
  policies : List (Option Authz.Policy)
  isSystem : Bool
  expiresAt : Option Int
  revoked : Bool
deriving DecidableEq

namespace Row

def Refers (row : Row) (catalog : Catalog) : Prop :=
  (∀ id ∈ row.organizationID, id ∈ catalog.organizations.keys) ∧
    (∀ id ∈ row.projectID, id ∈ catalog.projects.keys) ∧ ∀ id ∈ row.workflowID, id ∈ catalog.workflows.keys

instance (row : Row) (catalog : Catalog) : Decidable (row.Refers catalog) :=
  inferInstanceAs (Decidable (_ ∧ _ ∧ _))

-- The partial unique indexes over the names of tokens that are not revoked. An index over a
-- column that is NULL tells the rows apart.
def Clashes (row other : Row) : Prop :=
  row.revoked = false ∧ other.revoked = false ∧ row.name = other.name ∧
    ((row.organizationID.isSome ∧ row.organizationID = other.organizationID ∧ row.projectID = none ∧
        other.projectID = none ∧ row.scope ≠ some .product ∧ other.scope ≠ some .product) ∨
      (row.scopeID.isSome ∧ row.scopeID = other.scopeID ∧ row.scope = some .product ∧ other.scope = some .product) ∨
      (row.projectID.isSome ∧ row.projectID = other.projectID) ∨
      (row.organizationID = none ∧ other.organizationID = none))

instance (row other : Row) : Decidable (row.Clashes other) := inferInstanceAs (Decidable (_ ∧ _ ∧ _ ∧ _))

-- entAPITokenToBiz: the ids of project and workflow are those of the rows they lead to.
def toBiz (row : Row) (catalog : Catalog) (id : UUID) : APIToken where
  id := id
  name := row.name
  organizationID := row.organizationID.getD .nil
  project := row.projectID.bind fun p => (catalog.projects.get? p).map fun project => ⟨p, project.name⟩
  workflow := row.workflowID.bind fun w => (catalog.workflows.get? w).map fun workflow => ⟨w, workflow.name⟩
  scope := row.scope
  scopeID := row.scopeID
  projectIDs := row.projectIDs
  policies := row.policies
  isSystem := row.isSystem
  expiresAt := row.expiresAt

end Row

structure Db where
  catalog : Catalog
  tokens : Map UUID Row
  references : ∀ id row, tokens.get? id = some row → row.Refers catalog

namespace Db

def findByID (db : Db) (id : UUID) : Option APIToken :=
  (db.tokens.get? id).map fun row => row.toBiz db.catalog id

def liveProjectsInOrg (db : Db) (org : Option UUID) (ids : List UUID) : Except GoError (List UUID) :=
  let canonical := canonicalProjectIDs ids
  if canonical = [] then
    .ok canonical
  else
    match org with
    | none => .error (.validationStr "a token without an organization reaches no project")
    | some org =>
      let live := db.catalog.projects.entries.filter fun e =>
        e.1 ∈ canonical ∧ e.2.organizationID = org ∧ e.2.deleted = false
      if live.length ≠ canonical.length then
        .error (.validationStr "every project a token reaches must be a live project of its organization")
      else .ok canonical

def alreadyExists : GoError := .new "duplicated: ent: constraint failed"

def insert (db : Db) (id : UUID) (row : Row) : Except GoError Db :=
  if h : id ∉ db.tokens.keys ∧ row.Refers db.catalog ∧ ∀ e ∈ db.tokens.entries, ¬ row.Clashes e.2 then
    .ok { db with
      tokens := db.tokens.set id row
      references := by
        intro k other hother
        rw [Map.get?_set] at hother
        split at hother
        · cases hother
          exact h.2.1
        · exact db.references k other hother }
  else
    .error alreadyExists

def storedProjectIDs (db : Db) (row : Row) : Except GoError (Option (List UUID)) :=
  match row.projectIDs with
  | none => .ok none
  | some ids => some <$> db.liveProjectsInOrg row.organizationID ids

def repoCreate (db : Db) (id : UUID) (row : Row) : Except GoError Db := do
  validateTokenShape row.scope row.scopeID row.organizationID row.projectID row.projectIDs
  let projectIDs ← db.storedProjectIDs row
  db.insert id { row with projectIDs := projectIDs }

end Db

structure WorkflowOption where
  workflow : Named
  projectID : UUID
deriving DecidableEq

-- apiTokenOptions. The scope and its id are set by one option.
structure Options where
  project : Option Named
  workflow : Option WorkflowOption
  scope : Option (ResourceType × Option UUID)
  projectIDs : Option (List UUID)
  policies : Option (List (Option Authz.Policy))
  isSystem : Bool
deriving DecidableEq

namespace Options

def workflowID (options : Options) : Except GoError (Option UUID) :=
  match options.workflow, options.project with
  | none, _ => .ok none
  | some _, none => .error (.validationStr "workflow scope requires a project scope")
  | some w, some project =>
    if w.projectID ≠ project.id then
      .error (.validationStr "workflow does not belong to the requested project")
    else .ok (some w.workflow.id)

def tokenPolicies (options : Options) (kind : ResourceType) : Except GoError (List (Option Authz.Policy)) :=
  let policies := options.policies.getD (defaultAuthzPolicies.map some)
  if kind = .product ∧ policies = [] then
    .error (.validationStr "a product-scoped token needs at least one policy")
  else if kind = .product ∧ none ∈ policies then
    .error (.validationStr "a product-scoped token cannot carry a nil policy")
  else if kind = .product ∧ policies.any isOrgLevelTokenPolicy then
    .error (.validationStr "a product-scoped token cannot carry organization-level policies")
  else if kind = .organization then
    .ok (policies ++ orgLevelTokenPolicies.map some)
  else
    .ok policies

end Options

namespace Db

def resolveOrg (db : Db) : Option String → Except GoError (Option Named)
  | none => .ok none
  | some text =>
    if text = "" then .ok none
    else do
      let id ← (parseUUID text).mapError fun e => .new ("invalid UUID: " ++ e.message)
      let org ← wrapErr "finding organization" (db.catalog.findOrganization id)
      .ok (some ⟨id, org.name⟩)

section

variable (validateIsDNS1123 : String → Except GoError Unit)

def validateName (name : String) : Except GoError Unit :=
  if name = "" then .error (.validationStr "name is required")
  else (validateIsDNS1123 name).mapError .validation

def newRow (org : Option Named) (name : String) (expiresAt : Option Int) (options : Options) :
    Except GoError Row := do
  let orgID := org.map (·.id)
  let projectID := options.project.map (·.id)
  if projectID.isSome ∧ orgID = none then
    .error (.validationStr "a project-scoped token requires an organization")
  else do
    let workflowID ← options.workflowID
    let (kind, scopeID) := options.scope.getD (newTokenScope orgID projectID)
    validateTokenShape (some kind) scopeID orgID projectID options.projectIDs
    let policies ← options.tokenPolicies kind
    .ok ⟨name, orgID, projectID, workflowID, some kind, scopeID, options.projectIDs, policies, options.isSystem,
      expiresAt, false⟩

def newJWTOptions (org : Option Named) (name : String) (options : Options) (row : Row) (token : APIToken) :
    GenerateJWTOptions where
  org := org.map fun org => ⟨token.organizationID, org.name⟩
  keyID := token.id
  keyName := name
  project := options.project
  workflowID := options.workflow.map (·.workflow.id)
  workflowName := options.workflow.map (·.workflow.name)
  expiresAt := row.expiresAt
  scope := row.scope
  scopeID := row.scopeID

-- APITokenUseCase.Create. The row stays when the JWT cannot be signed.
def create (db : Db) (id : UUID) (now : Int) (name : String) (expiresIn : Option Int) (orgID : Option String)
    (options : Options) : Except GoError (Db × Except GoError CustomClaims) := do
  let org ← db.resolveOrg orgID
  validateName validateIsDNS1123 name
  let row ← newRow org name (expiresIn.map (now + ·)) options
  let created ← (db.repoCreate id row).mapError fun e =>
    if e = alreadyExists then .new "duplicated: name already taken" else e.wrap "storing token"
  match created.findByID id with
  | none => .error (.new "storing token")
  | some token =>
    .ok (created, wrapErr "generating jwt" (newJWTOptions org name options row token).generateJWT)

end

def updateOneID (db : Db) (id : UUID) (f : Row → Row) (h : ∀ row catalog, row.Refers catalog → (f row).Refers catalog) :
    Db :=
  { db with
    tokens := db.tokens.mapValues fun k row => if k = id then f row else row
    references := by
      intro k row hrow
      rw [Map.get?_mapValues, Option.map_eq_some_iff] at hrow
      obtain ⟨was, hwas, rfl⟩ := hrow
      have hrefers := db.references k was hwas
      split
      · exact h was db.catalog hrefers
      · exact hrefers }

def updateExpiration (db : Db) (id : UUID) (expiresAt : Int) : Db :=
  db.updateOneID id (fun row => { row with expiresAt := some expiresAt }) fun _ _ hrefers => hrefers

def revoke (db : Db) (id : UUID) : Db :=
  db.updateOneID id (fun row => { row with revoked := true }) fun _ _ hrefers => hrefers

def signOptions (token : APIToken) (org : Option Named) (expiresAt : Int) : GenerateJWTOptions where
  org := org
  keyID := token.id
  keyName := token.name
  project := token.project
  workflowID := token.workflow.map (·.id)
  workflowName := token.workflow.map (·.name)
  expiresAt := some expiresAt
  scope := token.scope
  scopeID := token.scopeID

def tokenOrg (db : Db) (token : APIToken) : Except GoError (Option Named) :=
  match token.organization with
  | none => .ok none
  | some id => do
    let org ← wrapErr "finding organization" (db.catalog.findOrganization id)
    .ok (some ⟨id, org.name⟩)

-- RegenerateJWT. A token that does not exist is a nil pointer, which is dereferenced.
def regenerateJWT (db : Db) (id : UUID) (now expiresIn : Int) : Except GoError (Db × CustomClaims) :=
  if expiresIn = 0 then
    .error (.new "expiresAt is mandatory")
  else
    match db.findByID id with
    | none => .error (.new "runtime error: invalid memory address or nil pointer dereference")
    | some token =>
      if token.scope = none then
        .error (.validationStr "the token records no scope")
      else do
        validateTokenShape token.scope token.scopeID token.organization (token.project.map (·.id)) token.projectIDs
        let org ← db.tokenOrg token
        let claims ← wrapErr "generating jwt" (signOptions token org (now + expiresIn)).generateJWT
        .ok (db.updateExpiration id (now + expiresIn), claims)

-- Organisations, projects and workflows come and are renamed or marked as deleted. Their rows
-- stay.
def Grows (db : Db) (catalog : Catalog) : Prop :=
  db.catalog.organizations.keys ⊆ catalog.organizations.keys ∧ db.catalog.projects.keys ⊆ catalog.projects.keys ∧
    db.catalog.workflows.keys ⊆ catalog.workflows.keys

instance (db : Db) (catalog : Catalog) : Decidable (db.Grows catalog) := inferInstanceAs (Decidable (_ ∧ _ ∧ _))

def withCatalog (db : Db) (catalog : Catalog) (h : db.Grows catalog) : Db :=
  { db with
    catalog := catalog
    references := by
      intro id row hrow
      obtain ⟨horg, hproject, hworkflow⟩ := db.references id row hrow
      exact ⟨fun o ho => h.1 (horg o ho), fun p hp => h.2.1 (hproject p hp), fun w hw => h.2.2 (hworkflow w hw)⟩ }

end Db

structure System where
  db : Db
  handedOut : List (UUID × CustomClaims)

inductive Event where
  | create (id : UUID) (now : Int) (name : String) (expiresIn : Option Int) (orgID : Option String)
      (options : Options)
  | regenerate (id : UUID) (now expiresIn : Int)
  | revoke (id : UUID)
  | catalog (catalog : Catalog)

section

variable (validateIsDNS1123 : String → Except GoError Unit)

def System.step (s : System) : Event → Option System
  | .create id now name expiresIn orgID options =>
    match s.db.create validateIsDNS1123 id now name expiresIn orgID options with
    | .error _ => some s
    | .ok (db, .error _) => some { s with db := db }
    | .ok (db, .ok claims) => some ⟨db, (id, claims) :: s.handedOut⟩
  | .regenerate id now expiresIn =>
    match s.db.regenerateJWT id now expiresIn with
    | .error _ => some s
    | .ok (db, claims) => some ⟨db, (id, claims) :: s.handedOut⟩
  | .revoke id => some { s with db := s.db.revoke id }
  | .catalog catalog =>
    if h : s.db.Grows catalog then some { s with db := s.db.withCatalog catalog h } else none

end

end Chainloop.Tokens
