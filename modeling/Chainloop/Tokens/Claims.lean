import Chainloop.Authz
import Chainloop.Go.Uuid

namespace Chainloop.Tokens

open Go Authz

structure CustomClaims where
  orgID : String
  orgName : String
  keyName : String
  projectID : String
  projectName : String
  workflowID : String
  workflowName : String
  scope : String
  scopeID : String
  id : String
  expiresAt : Option Int
deriving DecidableEq

def quote (s : String) : String := "\"" ++ s ++ "\""

def parseUUID (s : String) : Except GoError UUID :=
  match UUID.parse s with
  | none => .error (.new "invalid UUID")
  | some id => .ok id

theorem parseUUID_eq_ok {id : UUID} : parseUUID s = .ok id ↔ UUID.parse s = some id := by
  unfold parseUUID
  split <;> simp [*]

-- The text of an optional id: a claim that is not set is empty.
def idText (id : Option UUID) : String := (id.map UUID.toString).getD ""

@[simp] theorem idText_none : idText none = "" := rfl

@[simp] theorem idText_some (id : UUID) : idText (some id) = id.toString := rfl

theorem idText_eq_empty {id : Option UUID} : idText id = "" ↔ id = none := by
  cases id <;> simp

namespace CustomClaims

def hasScopeClaims (c : CustomClaims) : Bool := c.scope ≠ "" ∧ c.scope ≠ scopeInstanceAdmin

def legacyScope (c : CustomClaims) : Except GoError (ResourceType × Option UUID) :=
  if c.scope = scopeInstanceAdmin then
    .ok (.wholeInstance, none)
  else if c.projectID ≠ "" then do
    let id ← wrapErr "invalid project claim" (parseUUID c.projectID)
    .ok (.project, some id)
  else if c.orgID ≠ "" then do
    let id ← wrapErr "invalid organization claim" (parseUUID c.orgID)
    .ok (.organization, some id)
  else
    .error (.new "the claims name no scope")

-- The scope with the id that the claim of it must give.
def scopeOf (c : CustomClaims) (kind : ResourceType) : Except GoError (ResourceType × Option UUID) := do
  let id ← wrapErr "invalid scope_id claim" (parseUUID c.scopeID)
  .ok (kind, some id)

def namedScope (c : CustomClaims) : Except GoError (ResourceType × Option UUID) :=
  if c.hasScopeClaims = false then
    c.legacyScope
  else if c.scope = ResourceType.wholeInstance.text then
    if c.scopeID ≠ "" then .error (.new "an instance scope names no resource") else .ok (.wholeInstance, none)
  else if c.scope = ResourceType.organization.text then
    c.scopeOf .organization
  else if c.scope = ResourceType.project.text then
    c.scopeOf .project
  else if c.scope = ResourceType.product.text then
    c.scopeOf .product
  else
    .error (.new ("unknown scope claim " ++ quote c.scope))

def validateScope (c : CustomClaims) (kind : ResourceType) (id : Option UUID) : Except GoError Unit :=
  if c.workflowID ≠ "" ∧ c.projectID = "" then
    .error (.new "a workflow claim needs a project claim")
  else
    match kind with
    | .wholeInstance =>
      if c.orgID ≠ "" ∨ c.projectID ≠ "" then
        .error (.new "an instance scope names no organization or project")
      else .ok ()
    | .organization =>
      if c.orgID ≠ idText id ∨ c.projectID ≠ "" then
        .error (.new "an organization scope names its own organization and no project")
      else .ok ()
    | .project =>
      if c.orgID = "" ∨ c.projectID ≠ idText id then
        .error (.new "a project scope names its organization and its own project")
      else .ok ()
    | .product =>
      if c.orgID = "" ∨ c.projectID ≠ "" then
        .error (.new "a product scope names its organization and no project")
      else .ok ()
    | .group => .ok ()

def getScope (c : CustomClaims) : Except GoError (ResourceType × Option UUID) := do
  let (kind, id) ← c.namedScope
  c.validateScope kind id
  .ok (kind, id)

theorem getScope_named {c : CustomClaims} {kind : ResourceType} {id : Option UUID}
    (h : c.getScope = .ok (kind, id)) : c.namedScope = .ok (kind, id) := by
  obtain ⟨⟨kind', id'⟩, hnamed, hrest⟩ := bind_eq_ok.mp h
  obtain ⟨-, -, hok⟩ := bind_eq_ok.mp hrest
  cases hok
  exact hnamed

end CustomClaims

structure Named where
  id : UUID
  name : String
deriving DecidableEq

-- The names of the organisation and of the project are set whenever their ids are.
structure GenerateJWTOptions where
  org : Option Named
  keyID : UUID
  keyName : String
  project : Option Named
  workflowID : Option UUID
  workflowName : Option String
  expiresAt : Option Int
  scope : Option ResourceType
  scopeID : Option UUID
deriving DecidableEq

namespace GenerateJWTOptions

def claims (opts : GenerateJWTOptions) (kind : ResourceType) : CustomClaims where
  orgID := idText (opts.org.map (·.id))
  orgName := (opts.org.map (·.name)).getD ""
  keyName := opts.keyName
  projectID := idText (opts.project.map (·.id))
  projectName := (opts.project.map (·.name)).getD ""
  workflowID := idText opts.workflowID
  workflowName := if opts.workflowID.isSome then opts.workflowName.getD "" else ""
  scope := kind.text
  scopeID := idText opts.scopeID
  id := opts.keyID.toString
  expiresAt := opts.expiresAt

def generateJWT (opts : GenerateJWTOptions) : Except GoError CustomClaims :=
  if opts.keyID = .nil then
    .error (.new "keyID is required")
  else if opts.keyName = "" then
    .error (.new "keyName is required")
  else if opts.workflowID.isSome ∧ opts.workflowName = none then
    .error (.new "workflowName is required when workflowID is set")
  else
    match opts.scope with
    | none => .error (.new "scope is required")
    | some kind =>
      if kind = .group then
        .error (.new ("invalid scope " ++ quote kind.text))
      else do
        let _ ← wrapErr "inconsistent token scope" (opts.claims kind).getScope
        .ok (opts.claims kind)

variable {opts : GenerateJWTOptions} {read : ResourceType × Option UUID}

theorem scopeOf_claims {kind kind' : ResourceType}
    (h : (opts.claims kind).scopeOf kind' = .ok read) : read = (kind', opts.scopeID) := by
  obtain ⟨id, hid, hread⟩ := bind_eq_ok.mp h
  rw [wrapErr_eq_ok, parseUUID_eq_ok] at hid
  have hscope : opts.scopeID = some id := by
    cases hopt : opts.scopeID with
    | none =>
      rw [claims, hopt] at hid
      cases hid
    | some signed => simpa [claims, hopt] using hid
  cases hread
  rw [hscope]

theorem namedScope_claims {kind : ResourceType}
    (hgroup : kind ≠ .group) (h : (opts.claims kind).namedScope = .ok read) : read = (kind, opts.scopeID) := by
  have hsigned : (opts.claims kind).hasScopeClaims = true := by
    cases kind <;> simp [CustomClaims.hasScopeClaims, claims, ResourceType.text, scopeInstanceAdmin]
  rw [CustomClaims.namedScope, hsigned, if_neg (by decide)] at h
  have htext : (opts.claims kind).scope = kind.text := rfl
  rw [htext] at h
  cases kind with
  | wholeInstance =>
    rw [if_pos rfl, guard_eq_ok, not_not] at h
    have hnone : opts.scopeID = none := idText_eq_empty.mp h.1
    rw [hnone]
    exact (Except.ok.inj h.2).symm
  | organization | project | product =>
    exact scopeOf_claims h
  | group => exact absurd rfl hgroup

theorem generateJWT_eq_ok {claims : CustomClaims}
    (h : opts.generateJWT = .ok claims) :
    ∃ kind, opts.scope = some kind ∧ claims = opts.claims kind ∧ claims.getScope = .ok (kind, opts.scopeID) := by
  rw [generateJWT, guard_eq_ok, guard_eq_ok, guard_eq_ok] at h
  obtain ⟨-, -, -, hrest⟩ := h
  split at hrest
  · cases hrest
  · rename_i kind hkind
    rw [guard_eq_ok] at hrest
    obtain ⟨hgroup, hrest⟩ := hrest
    obtain ⟨⟨kind', id⟩, hscope, hok⟩ := bind_eq_ok.mp hrest
    cases hok
    rw [wrapErr_eq_ok] at hscope
    have hread := namedScope_claims hgroup (CustomClaims.getScope_named hscope)
    exact ⟨kind, hkind, rfl, hread ▸ hscope⟩

end GenerateJWTOptions

end Chainloop.Tokens
