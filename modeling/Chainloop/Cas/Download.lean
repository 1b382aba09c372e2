import Chainloop.Cas.Write

namespace Chainloop.Cas

open Go

-- What a backend does with the writer of a download: it ends, or it writes and goes on with
-- what Write returned, the number of bytes and the error.
inductive Fetch where
  | done
  | failed (e : GoError)
  | write (data : Bytes) (next : Nat → Option GoError → Fetch)

structure FileInfo where
  fileName : String
  size : Nat
deriving DecidableEq

structure Backend where
  describe : String → Except LoadError FileInfo
  download : String → Fetch

-- The staging volume of a download. A write that fails, by its number, stores some bytes
-- all the same, and a read that fails comes after some bytes.
structure Volume extends Disk where
  store : Nat → Option (Nat × GoError)
  readBack : Option (Nat × GoError)

structure Staged where
  file : Bytes
  hashed : Bytes
  writes : Nat
deriving DecidableEq

-- The file comes first: the hasher gets nothing of a write that fails there.
def Staged.write (store : Nat → Option (Nat × GoError)) (s : Staged) (data : Bytes) :
    Staged × Nat × Option GoError :=
  match store s.writes with
  | none => (⟨s.file ++ data, s.hashed ++ data, s.writes + 1⟩, data.length, none)
  | some (n, e) => (⟨s.file ++ data.take n, s.hashed, s.writes + 1⟩, min n data.length, some e)

def Fetch.fill (store : Nat → Option (Nat × GoError)) : Fetch → Staged → Except GoError Staged
  | .done, s => .ok s
  | .failed e, _ => .error e
  | .write data next, s =>
    match s.write store data with
    | (s, n, err) => (next n err).fill store s

-- What io.Copy gets out of the staging file, and the error that it ends with.
def Volume.read (v : Volume) (file : Bytes) : Bytes × Option GoError :=
  match v.readBack with
  | none => (file, none)
  | some (n, e) => (file.take n, some e)

structure DownloadCall where
  info : Except GoError Claims
  sha256Hex : Bytes → String
  parseDigest : String → Except GoError String
  load : Except LoadError Backend
  stagingDir : String
  volume : Volume

-- The gate is the one of the uploads, with the sum of what has reached the hasher.
def DownloadCall.stageDownload (c : DownloadCall) (digest : String) (fetch : Fetch) :
    Except UploadError (Bytes × Nat) :=
  match fetch.fill c.volume.store ⟨[], [], 0⟩ with
  | .error e => stageAndVerify c.sha256Hex c.stagingDir c.volume.toDisk digest (.error (.stream e))
  | .ok s => stageAndVerify (fun _ => c.sha256Hex s.hashed) c.stagingDir c.volume.toDisk digest
      (.ok s.file)

def storedMismatch (got want : String) : String :=
  "stored content does not match the requested digest: got=" ++ got ++ ", want=" ++ want

def UploadError.isClientDisconnect : UploadError → Bool
  | .stream e => e.is .clientDisconnect
  | .staging e => e.is .clientDisconnect
  | .backendUpload e => e.is .clientDisconnect
  | .sizeExceeded _ _ => false
  | .digestMismatch _ _ => false

section Read

-- The failure of a Send. A connection that is unavailable is gone.
inductive SendError where
  | unavailable (e : GoError)
  | other (e : GoError)
deriving DecidableEq

def SendError.toGoError : SendError → GoError
  | .unavailable e => ⟨"context canceled\n" ++ e.message, .clientDisconnect :: e.kinds⟩
  | .other e => e

def stagedChunkSize : Nat := 512 * 1024

def pieces (size : Nat) : Nat → Bytes → List Bytes
  | 0, _ => []
  | _ + 1, [] => []
  | fuel + 1, b :: content => (b :: content).take size :: pieces size fuel ((b :: content).drop size)

def sendPieces (send : Nat → Option SendError) : Nat → List Bytes → List Bytes × Option SendError
  | _, [] => ([], none)
  | i, piece :: rest =>
    match send i with
    | some e => ([], some e)
    | none =>
      match sendPieces send (i + 1) rest with
      | (sent, err) => (piece :: sent, err)

def copyStaged (send : Nat → Option SendError) (v : Volume) (file : Bytes) :
    List Bytes × Option GoError :=
  let (content, readErr) := v.read file
  match sendPieces send 0 (pieces stagedChunkSize content.length content) with
  | (sent, some e) => (sent, some e.toGoError)
  | (sent, none) => (sent, readErr)

inductive ReadReply where
  | finished
  | canceled
  | dataLoss (message : String)
  | status (s : Status)
deriving DecidableEq

def downloadError : UploadError → ReadReply
  | .digestMismatch got want => .dataLoss (storedMismatch got want)
  | e => if e.isClientDisconnect then .canceled else .status .internal

def LoadError.status : LoadError → Status
  | .notFound e => .notFound e.message
  | .other _ => .internal

namespace DownloadCall

def acceptRead (c : DownloadCall) (resourceName : String) : Except Status Backend := do
  let info ← c.info.mapError fun e => .unauthorized e.message
  (info.checkRole .downloader).mapError fun e => Status.unauthorized e.message
  if resourceName = "" then throw (.badRequest "empty resource name")
  (info.checkDigest c.parseDigest resourceName).mapError fun e => Status.forbidden e.message
  c.load.mapError LoadError.status

def read (c : DownloadCall) (resourceName : String) (send : Nat → Option SendError) :
    List Bytes × ReadReply :=
  match c.acceptRead resourceName with
  | .error status => ([], .status status)
  | .ok backend =>
    match c.stageDownload resourceName (backend.download resourceName) with
    | .error e => ([], downloadError e)
    | .ok (file, _) =>
      match copyStaged send c.volume file with
      | (sent, some e) => (sent, downloadError (.stream e))
      | (sent, none) => (sent, .finished)

end DownloadCall

end Read

section Http

structure Header where
  contentDisposition : Option String
  contentLength : Option Nat
  etag : Option String
  cacheControl : Option String
deriving DecidableEq

-- The response of net/http. The connection may take so many bytes of the body and fail for
-- good.
structure ResponseWriter where
  status : Option Nat
  header : Header
  body : Bytes
  connection : Option (Nat × GoError)
deriving DecidableEq

namespace ResponseWriter

def fresh (connection : Option (Nat × GoError)) : ResponseWriter :=
  ⟨none, ⟨none, none, none, none⟩, [], connection⟩

def writeHeader (w : ResponseWriter) (code : Nat) : ResponseWriter :=
  { w with status := some (w.status.getD code) }

-- A body does not grow over the declared length.
def write (w : ResponseWriter) (data : Bytes) : ResponseWriter × Option GoError :=
  if w.header.contentLength.any (· < w.body.length + data.length) then
    (w.writeHeader 200, some (.new "http: wrote more than the declared Content-Length"))
  else match w.connection with
    | none => ({ w.writeHeader 200 with body := w.body ++ data }, none)
    | some (n, e) =>
      ({ w.writeHeader 200 with body := w.body ++ data.take (n - w.body.length) },
        if w.body.length + data.length ≤ n then none else some e)

-- http.Error. Where a status has been written, only the text has an effect.
def error (w : ResponseWriter) (text : String) (code : Nat) : ResponseWriter :=
  if w.status.isSome then (w.write (bytes (text ++ "\n"))).1
  else (({ w with header := { w.header with contentLength := none } }.writeHeader code).write
    (bytes (text ++ "\n"))).1

def setCacheHeaders (w : ResponseWriter) (etag : String) : ResponseWriter :=
  { w with header := { w.header with etag := some etag, cacheControl := some "private, no-cache" } }

-- io.Copy, which writes nothing of an empty file. The sizes of its writes make no
-- difference to the body.
def copy (w : ResponseWriter) (v : Volume) (file : Bytes) : ResponseWriter × Option GoError :=
  let (content, readErr) := v.read file
  if content = [] then (w, readErr)
  else match w.write content with
    | (w, some e) => (w, some e)
    | (w, none) => (w, readErr)

-- What the client takes for the content that it asked for. The body of another status is
-- the text of an error.
def content (w : ResponseWriter) : Bytes := if w.status = some 200 then w.body else []

end ResponseWriter

structure Hash where
  algorithm : String
  hex : String
deriving DecidableEq

def Hash.toString (h : Hash) : String := h.algorithm ++ ":" ++ h.hex

structure Request where
  digest : Option String
  ifNoneMatch : String
  filename : String
  canceled : Bool
deriving DecidableEq

def kratosError (code : Nat) (reason message : String) : String :=
  "error: code = " ++ ToString.toString code ++ " reason = " ++ reason ++ " message = " ++ message
    ++ " metadata = map[] cause = <nil>"

def maskedErr : String := kratosError 500 "internal error" "server error"

def etagMatches (ifNoneMatch etag : String) : Bool :=
  (splitString "," ifNoneMatch).any fun candidate =>
    trimSpace candidate = "*" || trimStart (trimSpace candidate) "W/" = etag

def LoadError.http (notFound : String) : LoadError → Nat × String
  | .notFound _ => (404, notFound)
  | .other _ => (500, maskedErr)

def writeDownloadError (r : Request) (w : ResponseWriter) : UploadError → ResponseWriter
  | .digestMismatch got want => w.error (storedMismatch got want) 500
  | e => if r.canceled || e.isClientDisconnect then w else w.error maskedErr 500

def afterCopy (r : Request) : ResponseWriter × Option GoError → ResponseWriter
  | (w, some e) => writeDownloadError r w (.stream e)
  | (w, none) => w

namespace DownloadCall

def acceptHTTP (newHash : String → Except GoError Hash) (c : DownloadCall) (r : Request) :
    Except (Nat × String) (Hash × Backend × FileInfo) := do
  let auth ← c.info.mapError fun e => (401, kratosError 401 "cas" e.message)
  let digest ← r.digest.elim (.error (400, "missing digest")) .ok
  let wantChecksum ← (newHash digest).mapError fun _ => (400, "invalid digest")
  (auth.checkRole .downloader).mapError fun e => (401, e.message)
  (auth.checkDigest c.parseDigest wantChecksum.toString).mapError fun e => (403, e.message)
  let b ← c.load.mapError (LoadError.http "backend not found")
  let info ← (b.describe wantChecksum.hex).mapError (LoadError.http "artifact not found")
  return (wantChecksum, b, info)

def announce (r : Request) (info : FileInfo) (etag : String) (size : Nat) (w : ResponseWriter) :
    ResponseWriter :=
  let filename := if r.filename = "" then info.fileName else r.filename
  ResponseWriter.setCacheHeaders { w with header := { w.header with
    contentDisposition := some ("attachment; filename=" ++ filename)
    contentLength := some size } } etag

def serveHTTP (newHash : String → Except GoError Hash) (c : DownloadCall) (r : Request)
    (w : ResponseWriter) : ResponseWriter :=
  match c.acceptHTTP newHash r with
  | .error (code, text) => w.error text code
  | .ok (wantChecksum, b, info) =>
    let etag := "\"" ++ wantChecksum.toString ++ "\""
    if etagMatches r.ifNoneMatch etag then (w.setCacheHeaders etag).writeHeader 304
    else match c.stageDownload wantChecksum.hex (b.download wantChecksum.hex) with
      | .error e => writeDownloadError r w e
      | .ok (file, size) => afterCopy r ((announce r info etag size w).copy c.volume file)

end DownloadCall

end Http

end Chainloop.Cas
