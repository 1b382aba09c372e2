import Chainloop.Go.Map
import Chainloop.Go.Uuid

namespace Chainloop.Backends

open Go

inductive Provider where
  | azureBlob
  | oci
  | inline
  | s3
  | s3AccessPoint
deriving DecidableEq

structure CASBackend where
  organizationID : UUID
  name : String
  provider : Provider
  default : Bool
  fallback : Bool
  managed : Bool
  deleted : Bool
deriving DecidableEq

abbrev Table := Map UUID CASBackend

structure Flags where
  default : Option Bool
  fallback : Option Bool
deriving DecidableEq

namespace Flags

def Both (flags : Flags) : Prop := flags.default = some true ∧ flags.fallback = some true

instance (flags : Flags) : Decidable flags.Both := inferInstanceAs (Decidable (_ ∧ _))

def clear (flags : Flags) (org : UUID) (row : CASBackend) : CASBackend :=
  if row.organizationID = org then
    { row with
      default := row.default && flags.default ≠ some true
      fallback := row.fallback && flags.fallback ≠ some true }
  else row

-- The chain of updates on the row itself: the last one of a column counts.
def setDefault (flags : Flags) (row : CASBackend) : CASBackend :=
  match flags.default with
  | none => row
  | some true => { row with default := true, fallback := false }
  | some false => { row with default := false }

def setFallback (flags : Flags) (row : CASBackend) : CASBackend :=
  match flags.fallback with
  | none => row
  | some true => { row with fallback := true, default := false }
  | some false => { row with fallback := false }

end Flags

namespace Table

def alreadyExists : GoError := .new "duplicated: ent: constraint failed"

-- CASBackendRepo.Create, with the id that uuid.New draws. A nil flag is left false.
def repoCreate (db : Table) (id org : UUID) (name : String) (provider : Provider) (flags : Flags) :
    Except GoError Table :=
  if flags.Both then
    .error (.new "a backend cannot be both default and fallback")
  else if id ∈ db.keys ∨ ∃ e ∈ db.entries, e.2.name = name ∧ e.2.organizationID = org ∧ e.2.deleted = false then
    .error alreadyExists
  else
    .ok ((db.mapValues fun _ row => flags.clear org row).set id
      ⟨org, name, provider, flags.default.getD false, flags.fallback.getD false, false, false⟩)

def repoUpdate (db : Table) (org id : UUID) (flags : Flags) : Except GoError Table :=
  if id ∈ db.keys then
    .ok (db.mapValues fun k row =>
      if k = id then flags.setFallback (flags.setDefault (flags.clear org row)) else flags.clear org row)
  else
    .error (.new "ent: cas_backend not found")

def repoSoftDelete (db : Table) (id : UUID) : Except GoError Table :=
  if id ∈ db.keys then
    .ok (db.mapValues fun k row => if k = id then { row with deleted := true } else row)
  else
    .error (.new "ent: cas_backend not found")

def findOnly (db : Table) (org : UUID) (p : CASBackend → Bool) : Except GoError (Option UUID) :=
  match db.entries.filter fun e => e.2.organizationID = org ∧ e.2.deleted = false ∧ p e.2 with
  | [] => .ok none
  | [e] => .ok (some e.1)
  | _ => .error (.new "ent: cas_backend not singular")

def findByIDInOrg (db : Table) (org id : UUID) : Option CASBackend :=
  (db.get? id).filter fun row => row.organizationID = org ∧ row.deleted = false

def firstCandidate (exclude : Option UUID) : List (Except GoError (Option UUID)) → Except GoError (Option UUID)
  | [] => .ok none
  | .error e :: _ => .error e
  | .ok none :: rest => firstCandidate exclude rest
  | .ok (some id) :: rest => if exclude = some id then firstCandidate exclude rest else .ok (some id)

def findPromotionCandidate (db : Table) (org : UUID) (exclude : Option UUID) : Except GoError (Option UUID) :=
  firstCandidate exclude
    [db.findOnly org (·.fallback), db.findOnly org (·.managed), db.findOnly org (·.provider = .inline)]

-- The promotion passes no organisation, so that it clears no flag of another backend.
def promoteNextAvailableBackend (db : Table) (org : UUID) (exclude : Option UUID) : Except GoError Table := do
  match ← db.findPromotionCandidate org exclude with
  | none => .ok db
  | some id => db.repoUpdate .nil id ⟨some true, none⟩

end Table

def minCASBackendMaxBytes : Int := 10 * 1024 * 1024

inductive Operation where
  | create (id org : UUID) (name : String) (provider : Provider) (default fallback : Bool)
      (maxBytes : Option Int) (saved : Except GoError Unit)
  | update (org id : UUID) (flags : Flags) (maxBytes : Option Int) (saved : Except GoError Unit)
  | softDelete (org id : UUID)

namespace Table

def createInlineBackend (db : Table) (id org : UUID) : Except GoError Table :=
  db.repoCreate id org "default-inline" .inline ⟨some true, none⟩

section

variable (validateIsDNS1123 : String → Except GoError Unit)

-- CASBackendUseCase.Create behind the service, which has no provider for inline backends.
-- `saved` is the result of storing the credentials.
def create (db : Table) (id org : UUID) (name : String) (provider : Provider) (default fallback : Bool)
    (maxBytes : Option Int) (saved : Except GoError Unit) : Except GoError Table :=
  if provider = .inline then
    .error (.new "invalid CAS backend")
  else if name = "" then
    .error (.validationStr "organization and name are required")
  else if default = true ∧ fallback = true then
    .error (.validationStr "a backend cannot be both default and fallback")
  else do
    (validateIsDNS1123 name).mapError .validation
    if ∃ n ∈ maxBytes, n < minCASBackendMaxBytes then
      .error (.validationStr "max_bytes must be at least 10M")
    else do
      wrapErr "storing the credentials" saved
      (db.repoCreate id org name provider ⟨some default, some fallback⟩).mapError fun e =>
        if e = alreadyExists then .new "duplicated: name already taken"
        else e.wrap "failed to create CAS backend"

def update (db : Table) (org id : UUID) (flags : Flags) (maxBytes : Option Int)
    (saved : Except GoError Unit) : Except GoError Table :=
  match db.findByIDInOrg org id with
  | none => .error (.notFound "CAS Backend")
  | some before =>
    if flags.Both then
      .error (.validationStr "a backend cannot be both default and fallback")
    else if maxBytes.isSome ∧ before.provider = .inline then
      .error (.validationStr "inline backends cannot have their max_bytes updated")
    else if before.managed = true then
      .error (.validationStr "managed CAS backends cannot be modified")
    else if ∃ n ∈ maxBytes, n < minCASBackendMaxBytes then
      .error (.validationStr "max_bytes must be at least 10M")
    else do
      wrapErr "storing the credentials" saved
      let updated ← db.repoUpdate org id flags
      if before.default = true ∧ (updated.findByIDInOrg org id).any (fun after => after.default = false) then
        wrapErr "promoting next available backend to default"
          (updated.promoteNextAvailableBackend org (some id))
      else
        .ok updated

def softDelete (db : Table) (org id : UUID) : Except GoError Table :=
  match db.findByIDInOrg org id with
  | none => .error (.notFound "CAS Backend")
  | some backend =>
    if backend.provider = .inline then
      .error (.validationStr "can't delete the inline CAS backend")
    else if backend.managed = true then
      .error (.validationStr "can't delete a managed CAS backend")
    else do
      let deleted ← db.repoSoftDelete id
      if backend.default = true then
        wrapErr "promoting next available backend to default"
          (deleted.promoteNextAvailableBackend org none)
      else
        .ok deleted

def apply (db : Table) : Operation → Except GoError Table
  | .create id org name provider default fallback maxBytes saved =>
    db.create validateIsDNS1123 id org name provider default fallback maxBytes saved
  | .update org id flags maxBytes saved => db.update org id flags maxBytes saved
  | .softDelete org id => db.softDelete org id

def step (db : Table) (op : Operation) : Option Table := (db.apply validateIsDNS1123 op).toOption

end

end Table

end Chainloop.Backends
