import Chainloop.Cas.Download

namespace Chainloop.Cas

open Go List Nat

-- What the calls of Read give. The last one has io.EOF or another error, and may have data too.
inductive Reads where
  | more (data : Bytes) (rest : Reads)
  | eof (data : Bytes)
  | failed (data : Bytes) (err : GoError)

namespace Reads

def content : Reads → Bytes
  | more data rest => data ++ rest.content
  | eof data => data
  | failed data _ => data

-- The last call has io.EOF and no data.
def EndsBare : Reads → Prop
  | more _ rest => rest.EndsBare
  | eof data => data = []
  | failed _ _ => False

end Reads

inductive SendReply where
  | ok
  | eof
  | failed (err : GoError)

-- The replies to the call, to each of its messages and to its end, and the error of the
-- stream's context in front of each message.
structure UploadServer where
  write : Except GoError Unit
  done : Nat → Option GoError
  send : Nat → SendReply
  closeAndRecv : Except GoError Unit

structure UpDownStatus where
  filename : String
  digest : String
  processedBytes : Nat
deriving DecidableEq

def encodeResource (newHash : String → Except GoError Hash) (fileName digest : String) :
    Except GoError CASResource := do
  if fileName = "" then throw (.new "file name is empty")
  let h ← wrapErr "decoding digest" (newHash digest)
  return ⟨h.hex, fileName⟩

-- The messages sent, and the bytes processed. After an io.EOF of Send the error is in the
-- reply to the whole call.
def uploadLoop (server : UploadServer) (resource : CASResource) :
    Reads → List WriteRequest → Nat → List WriteRequest × Except GoError Nat
  | .eof _, sent, total =>
    let sent' := sent ++ [⟨some resource, [], true⟩]
    match server.send sent.length with
    | .failed err => (sent', .error
        { err with message := "sending the finished upload message " ++ err.message })
    | _ => (sent', .ok total)
  | .failed _ err, sent, _ => (sent, .error (err.wrap "reading content"))
  | .more data rest, sent, total =>
    match server.done sent.length with
    | some err => (sent, .error err)
    | none =>
      let sent' := sent ++ [⟨some resource, data, false⟩]
      match server.send sent.length with
      | .ok => uploadLoop server resource rest sent' (total + data.length)
      | .eof => (sent', .ok total)
      | .failed err => (sent', .error err)

def upload (newHash : String → Except GoError Hash) (server : UploadServer) (r : Reads)
    (filename digest : String) : List WriteRequest × Except GoError UpDownStatus :=
  match newHash digest with
  | .error err => ([], .error (err.wrap "decoding digest"))
  | .ok h =>
    match encodeResource newHash filename h.toString, server.write with
    | .error err, _ => ([], .error (err.wrap "encoding resource name"))
    | .ok _, .error err => ([], .error (err.wrap "creating the gRPC client"))
    | .ok resource, .ok () =>
      let (sent, total) := uploadLoop server resource r [] 0
      (sent, do
        let total ← total
        server.closeAndRecv
        return ⟨filename, h.toString, total⟩)

def UploadServer.accepting : UploadServer := ⟨.ok (), fun _ => none, fun _ => .ok, .ok ()⟩

-- The messages have the whole content, then comes the one that finishes, and the status
-- counts the bytes.
def SendsWhole (content : Bytes) (result : List WriteRequest × Except GoError UpDownStatus) : Prop :=
  ∃ messages finish status, result = (messages ++ [finish], .ok status) ∧
    (∀ m ∈ messages, m.finishWrite = false) ∧ messages.flatMap WriteRequest.data = content ∧
      finish.finishWrite = true ∧ finish.data = [] ∧ status.processedBytes = content.length

variable {r : Reads} (resource : CASResource)

theorem uploadLoop_of_endsBare (h : r.EndsBare) (sent : List WriteRequest) (total : Nat) :
    ∃ messages, uploadLoop .accepting resource r sent total =
        (sent ++ messages ++ [⟨some resource, [], true⟩], .ok (total + r.content.length)) ∧
      (∀ m ∈ messages, m.finishWrite = false) ∧
        messages.flatMap WriteRequest.data = r.content := by
  induction r generalizing sent total with
  | eof data =>
    cases h
    exact ⟨[], by simp [uploadLoop, UploadServer.accepting, Reads.content]⟩
  | failed data err => cases h
  | more data rest ih =>
    obtain ⟨messages, hloop, hdata, hcontent⟩ :=
      ih h (sent ++ [⟨some resource, data, false⟩]) (total + data.length)
    refine ⟨⟨some resource, data, false⟩ :: messages, ?_, ?_, ?_⟩
    · refine hloop.trans ?_
      simp [Reads.content, add_assoc]
    · simpa using hdata
    · simp [hcontent, Reads.content]

theorem endsBare_of_uploadLoop {sent : List WriteRequest}
    (h : (uploadLoop .accepting resource r sent total).2 = .ok (total + r.content.length)) :
    r.EndsBare := by
  induction r generalizing sent total with
  | eof data =>
    have hlength : total = total + data.length := Except.ok.inj h
    exact length_eq_zero_iff.mp (by omega)
  | failed data err => cases h
  | more data rest ih =>
    rw [Reads.content, length_append, ← add_assoc] at h
    exact ih h

variable {resource}

theorem upload_accepting {newHash : String → Except GoError Hash} (hhash : newHash digest = .ok h)
    (hresource : encodeResource newHash filename h.toString = .ok resource) :
    upload newHash .accepting r filename digest = ((uploadLoop .accepting resource r [] 0).1,
      (⟨filename, h.toString, ·⟩) <$> (uploadLoop .accepting resource r [] 0).2) := by
  rw [upload, hhash]
  simp only [hresource]
  rfl

theorem upload_sends_whole_iff (newHash : String → Except GoError Hash) (r : Reads)
    (filename digest : String) :
    SendsWhole r.content (upload newHash .accepting r filename digest) ↔
      (∃ h resource, newHash digest = .ok h ∧
        encodeResource newHash filename h.toString = .ok resource) ∧ r.EndsBare := by
  constructor
  · rintro ⟨messages, finish, status, hresult, -, -, -, -, htotal⟩
    cases hhash : newHash digest with
    | error err => simp [upload, hhash] at hresult
    | ok h =>
      cases hresource : encodeResource newHash filename h.toString with
      | error err => simp [upload, hhash, hresource] at hresult
      | ok resource =>
        refine ⟨⟨h, resource, rfl, hresource⟩, ?_⟩
        rw [upload_accepting hhash hresource] at hresult
        obtain ⟨total, hloop, rfl⟩ := map_eq_ok.mp (Prod.mk.inj hresult).2
        exact endsBare_of_uploadLoop resource (by rw [hloop, ← htotal, zero_add])
  · rintro ⟨⟨h, resource, hhash, hresource⟩, hbare⟩
    obtain ⟨messages, hloop, hdata, hcontent⟩ := uploadLoop_of_endsBare resource hbare [] 0
    rw [upload_accepting hhash hresource, hloop, nil_append, zero_add]
    exact ⟨messages, _, _, rfl, hdata, hcontent, rfl, rfl, rfl⟩

theorem data_with_eof_not_sent :
    ¬ SendsWhole (Reads.eof [97]).content
      (upload (fun _ => .ok ⟨"sha256", "00"⟩) .accepting (.eof [97]) "a" "sha256:00") := by
  rintro ⟨messages, finish, status, h, -, -, -, -, htotal⟩
  cases (Prod.mk.inj h).2
  cases htotal

end Chainloop.Cas
