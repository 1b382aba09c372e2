import Chainloop.Runs.Table
import Chainloop.Steps.RowLock
import Chainloop.Steps.Schedule
import Chainloop.Text.Base64

namespace Chainloop.Runs.RemoteState

open Go RowLock Text

inductive SaveError where
  | notFound (entity : String)
  | conflict (stored base : String)
  | failed (e : GoError)
deriving DecidableEq

-- What comes back to a client: the digest of the state it has read or saved, which is the
-- given one of the states the run has had, or an error.
inductive Answer where
  | read (version : Nat) (digest : String)
  | saved (version : Nat) (digest : String)
  | failed (e : SaveError)
deriving DecidableEq

inductive Progress where
  | begun
  | compared
  | updated
deriving DecidableEq

inductive Stage where
  | idle
  | saving (progress : Progress) (state : Bytes) (baseDigest : String)
  | answered (answer : Answer)
deriving DecidableEq

structure Client where
  updateCheckSum : String
  -- which of the states of the run it has last read or written
  base : Option Nat
  stage : Stage
deriving DecidableEq

-- A transaction goes by the number of its client.
structure System where
  db : Db Nat UUID WorkflowRun
  clients : Nat → Client
  -- the states the run has had, the stored one last
  history : List Bytes
  -- what encrypt has returned so far
  encrypted : List Bytes

-- The statements and messages of Read and Write, by the client they belong to. A request or
-- an answer can get lost, and a statement can fail.
inductive Event where
  | read (c : Nat)
  | save (c : Nat) (state : Bytes)
  | compare (c : Nat)
  | update (c : Nat)
  | commit (c : Nat)
  | fail (c : Nat) (e : GoError)
  | deliver (c : Nat)
  | lose (c : Nat)

def System.set (s : System) (c : Nat) (client : Client) : System :=
  { s with clients := Function.update s.clients c client }

def System.answer (s : System) (c : Nat) (answer : Answer) : System :=
  s.set c { s.clients c with stage := .answered answer }

def System.abort (s : System) (c : Nat) (e : SaveError) : System :=
  { s.answer c (.failed e) with db := s.db.rollback c }

section Model

variable (sha256Hex : String → String) (run : UUID)

def digest (data : Bytes) : String :=
  sha256Hex ("\"" ++ String.ofList (Base64.encode data) ++ "\"")

def System.stored (s : System) : Option Bytes := (s.db.committed run).bind (·.attestationState)

def start (rows : UUID → Option WorkflowRun) : System :=
  let stored := ((rows run).bind (·.attestationState)).toList
  ⟨Db.ofRows rows, fun _ => ⟨"", none, .idle⟩, stored, stored⟩

def System.read (s : System) (c : Nat) : System :=
  match s.stored run with
  | none => s.answer c (.failed (.notFound "attestation state"))
  | some state => s.answer c (.read (s.history.length - 1) (digest sha256Hex state))

def System.compare (s : System) (c : Nat) (state : Bytes) (baseDigest : String) : Option System :=
  if baseDigest ≠ "" then
    (s.db.lock c run).map fun db =>
      let s := { s with db := db }
      match (db.read c run).bind (·.attestationState) with
      | none => s.abort c (.notFound "attestation state")
      | some stored =>
        if baseDigest ≠ digest sha256Hex stored then
          s.abort c (.conflict (digest sha256Hex stored) baseDigest)
        else s.set c { s.clients c with stage := .saving .compared state baseDigest }
  else some (s.set c { s.clients c with stage := .saving .compared state baseDigest })

def System.update (s : System) (c : Nat) (state : Bytes) (baseDigest : String) : Option System :=
  match s.db.read c run with
  | none => some (s.abort c (.notFound "workflow run"))
  | some row =>
    (s.db.write c run { row with attestationState := some state }).map fun db =>
      { s.set c { s.clients c with stage := .saving .updated state baseDigest } with db := db }

def System.commit (s : System) (c : Nat) (state : Bytes) : System :=
  { s.answer c (.saved s.history.length (digest sha256Hex state)) with
    db := s.db.commit c
    history := s.history ++ [state] }

-- The end of Remote.Read and of Remote.Write. An answer without a digest to a Write keeps
-- the checksum.
def Client.deliver (client : Client) : Answer → Client
  | .read version digest => ⟨digest, some version, .idle⟩
  | .saved version digest =>
    if digest ≠ "" then ⟨digest, some version, .idle⟩ else { client with stage := .idle }
  | .failed _ => { client with stage := .idle }

def System.step (s : System) : Event → Option System
  | .read c =>
    match (s.clients c).stage with
    | .idle => some (s.read sha256Hex run c)
    | _ => none
  | .save c state =>
    -- the clients write with a checksum, and encrypt never returns the same bytes again
    match (s.clients c).stage with
    | .idle =>
      if (s.clients c).updateCheckSum ≠ "" ∧ state ∉ s.encrypted then
        some { s.set c { s.clients c with
            stage := .saving .begun state (s.clients c).updateCheckSum } with
          encrypted := state :: s.encrypted }
      else none
    | _ => none
  | .compare c =>
    match (s.clients c).stage with
    | .saving .begun state baseDigest => s.compare sha256Hex run c state baseDigest
    | _ => none
  | .update c =>
    match (s.clients c).stage with
    | .saving .compared state baseDigest => s.update run c state baseDigest
    | _ => none
  | .commit c =>
    match (s.clients c).stage with
    | .saving .updated state _ => some (s.commit sha256Hex c state)
    | _ => none
  | .fail c e =>
    match (s.clients c).stage with
    | .saving _ _ _ => some (s.abort c (.failed e))
    | _ => none
  | .deliver c =>
    match (s.clients c).stage with
    | .answered answer => some (s.set c ((s.clients c).deliver answer))
    | _ => none
  | .lose c =>
    match (s.clients c).stage with
    | .answered _ => some (s.set c { s.clients c with stage := .idle })
    | _ => none

end Model

end Chainloop.Runs.RemoteState
