import Chainloop.Go.Errors
import Chainloop.Go.Strings
import Chainloop.Schema

namespace Chainloop.Cas

open Go

structure CASResource where
  digest : String
  fileName : String
deriving DecidableEq

structure WriteRequest where
  resource : Option CASResource
  data : Bytes
  finishWrite : Bool
deriving DecidableEq

-- What the handler gets when it asks for the next message. A context that is done is a
-- failure too. A stream that has run out is at its end.
inductive Recv where
  | message (req : WriteRequest)
  | eof
  | failed (e : GoError)
deriving DecidableEq

inductive RecvError where
  | eof
  | failed (e : GoError)
  | resourceName
deriving DecidableEq

def RecvError.toGoError : RecvError → GoError
  | .eof => .new "EOF"
  | .failed e => e
  | .resourceName => .new "resourceName must be set"

def getWriteRequest : Recv → Except RecvError (CASResource × WriteRequest)
  | .eof => .error .eof
  | .failed e => .error (.failed e)
  | .message req =>
    match req.resource with
    | none => .error .resourceName
    | some resource => .ok (resource, req)

inductive UploadError where
  | stream (e : GoError)
  | sizeExceeded (want : Nat) (max : Int)
  | staging (e : GoError)
  | digestMismatch (got want : String)
  | backendUpload (e : GoError)
deriving DecidableEq

-- The staging volume: the calls that fail on it, and the writes that do, by the size that
-- the file would have.
structure Disk where
  create : Option GoError
  unlink : Option GoError
  write : Nat → Option GoError
  sizing : Option GoError
  rewinding : Option GoError

def failing (context : String) : Option GoError → Except UploadError Unit
  | none => .ok ()
  | some e => .error (.staging (e.wrap context))

def checkUploadSize (total : Nat) (maxSize : Int) : Except UploadError Unit :=
  if maxSize ≠ 0 ∧ (total : Int) > maxSize then .error (.sizeExceeded total maxSize) else .ok ()

def spillWrite (disk : Disk) (maxSize : Int) (content data : Bytes) : Except UploadError Bytes :=
  if data = [] then .ok content
  else do
    checkUploadSize (content.length + data.length) maxSize
    failing "writing to staging file" (disk.write (content.length + data.length))
    return content ++ data

def spillLoop (disk : Disk) (maxSize : Int) : List Recv → Bytes → Except UploadError Bytes
  | [], content => .ok content
  | r :: rest, content =>
    match getWriteRequest r with
    | .error .eof => .ok content
    | .error e => .error (.stream e.toGoError)
    | .ok (_, req) => do
      let content ← spillWrite disk maxSize content req.data
      if req.finishWrite then return content
      spillLoop disk maxSize rest content

def spillStream (disk : Disk) (maxSize : Int) (firstData : Bytes) (rest : List Recv) :
    Except UploadError Bytes := do
  let content ← spillWrite disk maxSize [] firstData
  spillLoop disk maxSize rest content

def stageAndVerify (sha256Hex : Bytes → String) (stagingDir : String) (disk : Disk)
    (wantDigest : String) (fill : Except UploadError Bytes) : Except UploadError (Bytes × Nat) := do
  if stagingDir = "" then throw (.staging (.new "no staging directory configured"))
  failing "creating staging file" disk.create
  failing "unlinking staging file" disk.unlink
  let content ← fill
  if sha256Hex content ≠ wantDigest then
    throw (.digestMismatch (sha256Hex content) wantDigest)
  failing "sizing staging file" disk.sizing
  failing "rewinding staging file" disk.rewinding
  return (content, content.length)

inductive Role where
  | downloader
  | uploader
deriving DecidableEq

def Role.name : Role → String
  | .downloader => "downloader"
  | .uploader => "uploader"

structure Claims where
  role : Role
  storedSecretID : String
  backendType : String
  maxBytes : Int
  orgID : String
  digest : String
deriving DecidableEq

def Claims.checkRole (c : Claims) (r : Role) : Except GoError Unit :=
  if c.role ≠ r then .error (.new ("invalid role, got=" ++ c.role.name ++ ", want=" ++ r.name))
  else .ok ()

-- The digest is normalized by `parseDigest`.
def Claims.checkDigest (parseDigest : String → Except GoError String) (c : Claims)
    (digest : String) : Except GoError Unit :=
  if c.digest = "" then .ok ()
  else do
    let requested ← wrapErr "invalid digest" (parseDigest digest)
    if requested ≠ c.digest then throw (.new "token not authorized for this digest")
    return ()

inductive Status where
  | unauthorized (message : String)
  | badRequest (message : String)
  | forbidden (message : String)
  | notFound (message : String)
  | invalidArgument (message : String)
  | resourceExhausted (message : String)
  | internal
deriving DecidableEq

-- The end of a call: a response with a committed size, no response and no error, or an
-- error.
inductive Reply where
  | response (committedSize : Nat)
  | canceled
  | status (s : Status)
deriving DecidableEq

structure Upload where
  resource : CASResource
  content : Bytes
  succeeded : Bool
deriving DecidableEq

structure Outcome where
  uploads : List Upload
  reply : Reply
  known : Option (String × Nat)
deriving DecidableEq

def Outcome.refused (s : Status) : Outcome := ⟨[], .status s, none⟩

inductive LoadError where
  | notFound (e : GoError)
  | other (e : GoError)
deriving DecidableEq

structure Attempt where
  load : Except LoadError Bool
  exist : String → Except GoError Bool

-- The answer of one round, or none when a reused client failed and is loaded again.
def attemptExists (round : Nat) (a : Attempt) (digest : String) : Except Status (Option Bool) :=
  match a.load with
  | .error (.notFound e) => .error (.notFound e.message)
  | .error (.other _) => .error .internal
  | .ok cached =>
    match a.exist digest with
    | .ok found => .ok (some found)
    | .error _ => if !cached || round > 0 then .error .internal else .ok none

def backendExists (attempt : Nat → Attempt) (digest : String) : Except Status Bool := do
  match ← attemptExists 0 (attempt 0) digest with
  | some found => return found
  | none =>
    match ← attemptExists 1 (attempt 1) digest with
    | some found => return found
    | none => throw .internal

structure Call where
  info : Except GoError Claims
  sha256Hex : Bytes → String
  parseDigest : String → Except GoError String
  existence : Option (String → Except GoError (Option Nat))
  attempt : Nat → Attempt
  audits : Bool
  describe : String → Except GoError Nat
  stagingDir : String
  disk : Disk
  upload : CASResource → Bytes → Except GoError Unit

namespace Call

def existenceKey (c : Call) (info : Claims) (digest : String) : String :=
  if c.existence.isNone || info.orgID = "" then ""
  else "/".intercalate [info.orgID, info.backendType, c.sha256Hex (bytes info.storedSecretID), digest]

-- A cache that fails is a miss.
def lookupExistence (c : Call) (key : String) : Option Nat :=
  if key = "" then none
  else match c.existence with
    | none => none
    | some get => (get key).toOption.join

def storeExistence (key : String) (size : Nat) : Option (String × Nat) :=
  if key = "" then none else some (key, size)

def spillVerifyUpload (c : Call) (resource : CASResource) (data : Bytes) (rest : List Recv)
    (maxBytes : Int) : List Upload × Except UploadError Nat :=
  match stageAndVerify c.sha256Hex c.stagingDir c.disk resource.digest
      (spillStream c.disk maxBytes data rest) with
  | .error e => ([], .error e)
  | .ok (content, size) =>
    match c.upload resource content with
    | .error e => ([⟨resource, content, false⟩], .error (.backendUpload e))
    | .ok () => ([⟨resource, content, true⟩], .ok size)

def sizeExceeded (want : Nat) (max : Int) : String :=
  "max size of upload exceeded: want=" ++ toString want ++ ", max=" ++ toString max

def mismatch (got want : String) : String :=
  "uploaded content does not match the declared digest: got=" ++ got ++ ", want=" ++ want

def classify : UploadError → Reply
  | .digestMismatch got want => .status (.invalidArgument (mismatch got want))
  | .backendUpload _ => .status .internal
  | .sizeExceeded want max => .status (.resourceExhausted (sizeExceeded want max))
  | .stream e => if e.is .clientDisconnect then .canceled else .status .internal
  | .staging e => if e.is .clientDisconnect then .canceled else .status .internal

-- The blob is in the backend. A size is only kept when it is known.
def skipped (c : Call) (key digest : String) : Outcome :=
  ⟨[], .response 0, if key ≠ "" || c.audits then
    (c.describe digest).toOption.bind (storeExistence key) else none⟩

def finish (key : String) : List Upload × Except UploadError Nat → Outcome
  | (uploads, .error e) => ⟨uploads, classify e, none⟩
  | (uploads, .ok size) => ⟨uploads, .response size, storeExistence key size⟩

def accept (c : Call) (stream : List Recv) :
    Except Outcome (Claims × CASResource × WriteRequest × List Recv × String) := do
  let info ← c.info.mapError fun e => .refused (.unauthorized e.message)
  (info.checkRole .uploader).mapError fun e => Outcome.refused (.unauthorized e.message)
  let (resource, req) ← (getWriteRequest (stream.headD .eof)).mapError
    fun e => .refused (.badRequest e.toGoError.message)
  (info.checkDigest c.parseDigest resource.digest).mapError
    fun e => Outcome.refused (.forbidden e.message)
  let key := c.existenceKey info resource.digest
  if (c.lookupExistence key).isSome then throw ⟨[], .response 0, none⟩
  let found ← (backendExists c.attempt resource.digest).mapError .refused
  if found then throw (c.skipped key resource.digest)
  return (info, resource, req, stream.tail, key)

def write (c : Call) (stream : List Recv) : Outcome :=
  match c.accept stream with
  | .error outcome => outcome
  | .ok (info, resource, req, rest, key) =>
    finish key (c.spillVerifyUpload resource req.data rest info.maxBytes)

end Call

end Chainloop.Cas
