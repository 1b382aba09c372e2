import Chainloop.Cas.Write

namespace Chainloop.Cas

open Go Option
open List hiding tail

variable {req : WriteRequest} {c : Call}

-- The data of the messages up to the first one that finishes the write, or up to the end
-- of the stream. A stream that fails before has none.
def declared : List Recv → Option Bytes
  | [] => some []
  | .eof :: _ => some []
  | .failed _ :: _ => none
  | .message req :: rest =>
    if req.resource.isNone then none
    else if req.finishWrite then some req.data
    else (declared rest).map (req.data ++ ·)

def declare (digest : String) : List Recv → List Recv
  | .message req :: rest =>
    .message { req with resource := req.resource.map fun r => { r with digest := digest } } :: rest
  | stream => stream

def Within (limit : Int) (content : Bytes) : Prop := limit ≠ 0 → (content.length : Int) ≤ limit

structure Integrity (sha256Hex : Bytes → String) (limit : Int) (digest : String)
    (stream : List Recv) (out : Outcome) : Prop where
  once : out.uploads.length ≤ 1
  verified : ∀ u ∈ out.uploads, declared stream = some u.content ∧ u.resource.digest = digest ∧
    sha256Hex u.content = digest ∧ Within limit u.content
  reported : ∀ u ∈ out.uploads, u.succeeded = true → out.reply = .response u.content.length
  committed : ∀ n, out.reply = .response n →
    (∃ u ∈ out.uploads, u.succeeded = true ∧ n = u.content.length) ∨ (out.uploads = [] ∧ n = 0)

section Spill

variable {disk : Disk} {maxSize : Int}

theorem spillWrite_ok (h : spillWrite disk maxSize content data = .ok result) :
    result = content ++ data ∧ (data ≠ [] → Within maxSize result) := by
  unfold spillWrite at h
  split at h
  next hempty =>
    cases h
    exact ⟨by rw [hempty, append_nil], fun hdata => absurd hempty hdata⟩
  next hdata =>
    obtain ⟨_, hsize, h⟩ := bind_eq_ok.mp h
    obtain ⟨_, _, h⟩ := bind_eq_ok.mp h
    cases h
    refine ⟨rfl, fun _ hlimit => ?_⟩
    unfold checkUploadSize at hsize
    split at hsize
    · cases hsize
    next hfits =>
      rw [length_append]
      by_contra hexceeds
      exact hfits ⟨hlimit, by omega⟩

theorem getWriteRequest_none (h : req.resource = none) :
    getWriteRequest (.message req) = .error .resourceName := by
  simp [getWriteRequest, h]

theorem getWriteRequest_some (h : req.resource = some resource) :
    getWriteRequest (.message req) = .ok (resource, req) := by
  simp [getWriteRequest, h]

theorem spillLoop_ok (h : spillLoop disk maxSize rest content = .ok result) :
    ∃ tail, declared rest = some tail ∧ result = content ++ tail ∧
      (tail ≠ [] → Within maxSize result) := by
  induction rest generalizing content with
  | nil =>
    cases h
    exact ⟨[], rfl, (append_nil _).symm, fun hne => absurd rfl hne⟩
  | cons r rest ih =>
    cases r with
    | eof =>
      cases h
      exact ⟨[], rfl, (append_nil _).symm, fun hne => absurd rfl hne⟩
    | failed e => cases h
    | message req =>
      cases hresource : req.resource with
      | none =>
        rw [spillLoop, getWriteRequest_none hresource] at h
        cases h
      | some resource =>
        rw [spillLoop, getWriteRequest_some hresource] at h
        obtain ⟨next, hnext, h⟩ := bind_eq_ok.mp h
        obtain ⟨rfl, hwithin⟩ := spillWrite_ok hnext
        split_ifs at h with hfinish
        · cases h
          exact ⟨req.data, by simp [declared, hresource, hfinish], rfl, hwithin⟩
        · obtain ⟨tail, htail, rfl, hfits⟩ := ih h
          refine ⟨req.data ++ tail, by simp [declared, hresource, hfinish, htail],
            append_assoc .., fun hne => ?_⟩
          by_cases hempty : tail = []
          · rw [hempty, append_nil] at hne ⊢
            exact hwithin hne
          · exact hfits hempty

theorem spillStream_ok (h : spillStream disk maxSize data rest = .ok result) :
    ∃ tail, declared rest = some tail ∧ result = data ++ tail ∧
      (result ≠ [] → Within maxSize result) := by
  obtain ⟨content, hfirst, hloop⟩ := bind_eq_ok.mp h
  obtain ⟨rfl, hwithin⟩ := spillWrite_ok hfirst
  obtain ⟨tail, htail, rfl, hfits⟩ := spillLoop_ok hloop
  refine ⟨tail, htail, rfl, fun hne => ?_⟩
  by_cases hempty : tail = []
  · rw [hempty, append_nil] at hne ⊢
    exact hwithin hne
  · exact hfits hempty

end Spill

theorem stageAndVerify_ok {content : Bytes}
    (h : stageAndVerify sha256Hex stagingDir disk want fill = .ok (content, size)) :
    fill = .ok content ∧ sha256Hex content = want ∧ size = content.length := by
  unfold stageAndVerify at h
  split at h
  · cases h
  · obtain ⟨_, _, h⟩ := bind_eq_ok.mp h
    obtain ⟨_, _, h⟩ := bind_eq_ok.mp h
    obtain ⟨content', hfill, h⟩ := bind_eq_ok.mp h
    split at h
    · cases h
    next hhash =>
      obtain ⟨_, _, h⟩ := bind_eq_ok.mp h
      obtain ⟨_, _, h⟩ := bind_eq_ok.mp h
      cases h
      exact ⟨hfill, not_not.mp hhash, rfl⟩

theorem accept_error : ∀ out, c.accept stream = .error out →
    out.uploads = [] ∧ ∀ n, out.reply = .response n → n = 0 := by
  have hrefused : ∀ s, (Outcome.refused s).uploads = [] ∧
      ∀ n, (Outcome.refused s).reply = .response n → n = 0 :=
    fun s => ⟨rfl, fun n hn => by cases hn⟩
  refine errors_of_bind (errors_of_mapError fun e => hrefused _) fun info _ => ?_
  refine errors_of_bind (errors_of_mapError fun e => hrefused _) fun _ _ => ?_
  refine errors_of_bind (errors_of_mapError fun e => hrefused _) fun ⟨resource, req⟩ _ => ?_
  refine errors_of_bind (errors_of_mapError fun e => hrefused _) fun _ _ => ?_
  intro out h
  simp only at h
  split at h
  · cases h
    exact ⟨rfl, fun n hn => (Reply.response.inj hn).symm⟩
  rcases bind_eq_error.mp h with h | ⟨found, _, h⟩
  · obtain ⟨status, _, rfl⟩ := mapError_eq_error.mp h
    exact hrefused status
  split at h
  · cases h
    exact ⟨rfl, fun n hn => (Reply.response.inj hn).symm⟩
  · cases h

theorem accept_ok (h : c.accept stream = .ok (info, resource, req, rest, key)) :
    c.info = .ok info ∧ stream = .message req :: rest ∧ req.resource = some resource := by
  obtain ⟨info', hinfo, h⟩ := bind_eq_ok.mp h
  obtain ⟨_, _, h⟩ := bind_eq_ok.mp h
  obtain ⟨⟨resource', req'⟩, hrequest, h⟩ := bind_eq_ok.mp h
  obtain ⟨_, _, h⟩ := bind_eq_ok.mp h
  simp only at h
  split at h
  · cases h
  obtain ⟨found, _, h⟩ := bind_eq_ok.mp h
  split at h
  · cases h
  cases h
  refine ⟨mapError_eq_ok.mp hinfo, ?_⟩
  cases stream with
  | nil => cases hrequest
  | cons r rest =>
    cases r with
    | eof => cases hrequest
    | failed e => cases hrequest
    | message req' =>
      cases hresource : req'.resource with
      | none =>
        rw [headD_cons, getWriteRequest_none hresource] at hrequest
        cases hrequest
      | some resource' =>
        rw [headD_cons, getWriteRequest_some hresource] at hrequest
        cases hrequest
        exact ⟨rfl, hresource⟩

theorem classify_ne_response (e : UploadError) (n : Nat) : Call.classify e ≠ .response n := by
  cases e with
  | stream e => by_cases h : e.is .clientDisconnect = true <;> simp [Call.classify, h]
  | staging e => by_cases h : e.is .clientDisconnect = true <;> simp [Call.classify, h]
  | _ => simp [Call.classify]

theorem spillVerifyUpload_cases (c : Call) (resource : CASResource) (data : Bytes) (rest : List Recv)
    (limit : Int) :
    (∃ e, c.spillVerifyUpload resource data rest limit = ([], .error e)) ∨
      ∃ content, spillStream c.disk limit data rest = .ok content ∧
        c.sha256Hex content = resource.digest ∧
        (c.spillVerifyUpload resource data rest limit
            = ([⟨resource, content, true⟩], .ok content.length) ∨
          ∃ e, c.spillVerifyUpload resource data rest limit
            = ([⟨resource, content, false⟩], .error (.backendUpload e))) := by
  unfold Call.spillVerifyUpload
  cases hstaged : stageAndVerify c.sha256Hex c.stagingDir c.disk resource.digest
      (spillStream c.disk limit data rest) with
  | error e => exact .inl ⟨e, rfl⟩
  | ok staged =>
    obtain ⟨content, size⟩ := staged
    obtain ⟨hfill, hhash, rfl⟩ := stageAndVerify_ok hstaged
    refine .inr ⟨content, hfill, hhash, ?_⟩
    cases hupload : c.upload resource content with
    | error e => exact .inr ⟨e, by simp [hupload]⟩
    | ok u => exact .inl (by simp [hupload])

-- What goes wrong: the first message finishes the write and more data that fits follows,
-- or a negative limit meets a stream without data.
def Violates (limit : Int) : List Recv → Prop
  | .message req :: rest => req.resource.isSome = true ∧ ∃ tail, declared rest = some tail ∧
      ((req.finishWrite = true ∧ tail ≠ [] ∧ Within limit (req.data ++ tail)) ∨
        (req.data ++ tail = [] ∧ limit < 0))
  | _ => False

theorem violates_declare : Violates limit (declare digest stream) ↔ Violates limit stream := by
  match stream with
  | [] => exact Iff.rfl
  | .eof :: _ => exact Iff.rfl
  | .failed _ :: _ => exact Iff.rfl
  | .message req :: rest => simp [declare, Violates]

theorem staged_declared (hresource : req.resource.isSome = true)
    (h : spillStream disk limit req.data rest = .ok content)
    (hkeeps : ¬ Violates limit (.message req :: rest)) :
    declared (.message req :: rest) = some content ∧ Within limit content := by
  obtain ⟨tail, htail, rfl, hwithin⟩ := spillStream_ok h
  have hsome : req.resource.isNone = false := by
    rw [← not_isSome, hresource]
    rfl
  constructor
  · rw [declared, hsome]
    by_cases hfinish : req.finishWrite = true
    · have hempty : tail = [] := by
        by_contra hne
        exact hkeeps ⟨hresource, tail, htail, .inl ⟨hfinish, hne, hwithin (by simp [hne])⟩⟩
      simp [hfinish, hempty]
    · simp [hfinish, htail]
  · by_cases hempty : req.data ++ tail = []
    · intro hlimit
      have hpos : ¬ limit < 0 := fun hneg => hkeeps ⟨hresource, tail, htail, .inr ⟨hempty, hneg⟩⟩
      rw [hempty, length_nil]
      omega
    · exact hwithin hempty

variable {resource : CASResource}

theorem declare_cons
    (h : declare digest stream = .message req :: rest) (hresource : req.resource = some resource) :
    resource.digest = digest := by
  match stream, h with
  | .message req' :: rest', h =>
    cases h
    obtain ⟨r, _, rfl⟩ := map_eq_some_iff.mp hresource
    rfl

theorem integrity_of_not_violates (hlimit : ∀ info, c.info = .ok info → info.maxBytes = limit)
    (hkeeps : ¬ Violates limit (declare digest stream)) :
    Integrity c.sha256Hex limit digest (declare digest stream) (c.write (declare digest stream)) := by
  unfold Call.write
  cases haccept : c.accept (declare digest stream) with
  | error out =>
    obtain ⟨hnone, hzero⟩ := accept_error _ haccept
    refine ⟨?_, ?_, ?_, fun n hn => .inr ⟨hnone, hzero n hn⟩⟩
    · simp [hnone]
    · simp [hnone]
    · simp [hnone]
  | ok accepted =>
    obtain ⟨info, resource, req, rest, key⟩ := accepted
    obtain ⟨hinfo, hstream, hresource⟩ := accept_ok haccept
    have hdigest := declare_cons hstream hresource
    rw [hstream] at hkeeps ⊢
    simp only
    rw [hlimit info hinfo]
    rcases spillVerifyUpload_cases c resource req.data rest limit with
      ⟨e, hfailed⟩ | ⟨content, hspill, hhash, hupload⟩
    · rw [hfailed]
      exact ⟨by simp [Call.finish], by simp [Call.finish], by simp [Call.finish],
        fun n hn => absurd hn (classify_ne_response e n)⟩
    · obtain ⟨hdeclared, hwithin⟩ := staged_declared (by rw [hresource]; rfl) hspill hkeeps
      rw [hdigest] at hhash
      rcases hupload with hok | ⟨e, hfailed⟩
      · rw [hok]
        refine ⟨Nat.le_refl 1, fun u hu => ?_, fun u hu _ => ?_, fun n hn => .inl ?_⟩
        · rw [mem_singleton.mp hu]
          exact ⟨hdeclared, hdigest, hhash, hwithin⟩
        · rw [mem_singleton.mp hu]
          rfl
        · exact ⟨_, mem_singleton_self _, rfl, (Reply.response.inj hn).symm⟩
      · rw [hfailed]
        refine ⟨Nat.le_refl 1, fun u hu => ?_, fun u hu hsucceeded => ?_,
          fun n hn => absurd hn (classify_ne_response (.backendUpload e) n)⟩
        · rw [mem_singleton.mp hu]
          exact ⟨hdeclared, hdigest, hhash, hwithin⟩
        · rw [mem_singleton.mp hu] at hsucceeded
          cases hsucceeded

def goodDisk : Disk := ⟨none, none, fun _ => none, none, none⟩

def openCall (sha256Hex : Bytes → String) (limit : Int) : Call where
  info := .ok ⟨.uploader, "secret", "OCI", limit, "", ""⟩
  sha256Hex := sha256Hex
  parseDigest := .ok
  existence := none
  attempt := fun _ => ⟨.ok false, fun _ => .ok false⟩
  audits := false
  describe := fun _ => .ok 0
  stagingDir := "/staging"
  disk := goodDisk
  upload := fun _ _ => .ok ()

theorem spillWrite_fits (h : data ≠ [] → Within limit (content ++ data)) :
    spillWrite goodDisk limit content data = .ok (content ++ data) := by
  unfold spillWrite
  by_cases hempty : data = []
  · rw [if_pos hempty, hempty, append_nil]
  · have hfits : ¬ (limit ≠ 0 ∧ ((content.length + data.length : Nat) : Int) > limit) := by
      rintro ⟨hlimit, hexceeds⟩
      have hwithin := h hempty hlimit
      rw [length_append] at hwithin
      omega
    rw [if_neg hempty, checkUploadSize, if_neg hfits]
    rfl

theorem within_append_left (h : Within limit (content ++ data)) : Within limit content := by
  intro hlimit
  have hall := h hlimit
  rw [length_append] at hall
  omega

theorem spillLoop_fits (hdeclared : declared rest = some tail)
    (h : tail ≠ [] → Within limit (content ++ tail)) :
    spillLoop goodDisk limit rest content = .ok (content ++ tail) := by
  induction rest generalizing content tail with
  | nil =>
    cases hdeclared
    rw [append_nil]
    rfl
  | cons r rest ih =>
    cases r with
    | eof =>
      cases hdeclared
      rw [append_nil]
      rfl
    | failed e => cases hdeclared
    | message req =>
      unfold declared at hdeclared
      cases hresource : req.resource with
      | none => simp [hresource] at hdeclared
      | some resource =>
        simp only [hresource] at hdeclared
        rw [spillLoop, getWriteRequest_some hresource]
        by_cases hfinish : req.finishWrite = true
        · rw [if_pos hfinish] at hdeclared
          cases hdeclared
          change (spillWrite goodDisk limit content req.data >>= _) = _
          rw [spillWrite_fits h]
          simp [bind, Except.bind, hfinish, pure, Except.pure]
        · rw [if_neg hfinish] at hdeclared
          obtain ⟨tail', htail', rfl⟩ := map_eq_some_iff.mp hdeclared
          have hfirst : req.data ≠ [] → Within limit (content ++ req.data) := by
            intro hne
            have hall := h (by simp [hne])
            rw [← append_assoc] at hall
            exact within_append_left hall
          have hrest : tail' ≠ [] → Within limit (content ++ req.data ++ tail') := by
            intro hne
            rw [append_assoc]
            exact h (by simp [hne])
          have hnext := ih htail' hrest
          change (spillWrite goodDisk limit content req.data >>= _) = _
          rw [spillWrite_fits hfirst]
          simpa [bind, Except.bind, hfinish] using hnext

theorem openCall_write (hresource : req.resource = some resource)
    (hdigest : resource.digest = sha256Hex (req.data ++ tail))
    (hdeclared : declared rest = some tail)
    (hfits : req.data ++ tail ≠ [] → Within limit (req.data ++ tail)) :
    ((openCall sha256Hex limit).write (.message req :: rest)).uploads
      = [⟨resource, req.data ++ tail, true⟩] := by
  have hspill : spillStream goodDisk limit req.data rest = .ok (req.data ++ tail) := by
    have hfirst : req.data ≠ [] → Within limit ([] ++ req.data) := fun hne =>
      within_append_left (hfits (by simp [hne]))
    unfold spillStream
    rw [spillWrite_fits hfirst]
    exact spillLoop_fits hdeclared fun hne => hfits (by simp [hne])
  have haccept : (openCall sha256Hex limit).accept (.message req :: rest)
      = .ok (⟨.uploader, "secret", "OCI", limit, "", ""⟩, resource, req, rest, "") := by
    unfold Call.accept
    rw [headD_cons, getWriteRequest_some hresource]
    rfl
  have hstaged : stageAndVerify sha256Hex "/staging" goodDisk resource.digest
      (.ok (req.data ++ tail)) = .ok (req.data ++ tail, (req.data ++ tail).length) := by
    unfold stageAndVerify
    simp [hdigest, failing, goodDisk, bind, Except.bind, pure, Except.pure]
  have hupload : (openCall sha256Hex limit).spillVerifyUpload resource req.data rest limit
      = ([⟨resource, req.data ++ tail, true⟩], .ok (req.data ++ tail).length) := by
    unfold Call.spillVerifyUpload
    rw [← hspill] at hstaged
    erw [hstaged]
    rfl
  unfold Call.write
  rw [haccept]
  exact congrArg (fun result => (Call.finish "" result).uploads) hupload

theorem write_integrity_iff (sha256Hex : Bytes → String) (limit : Int) (stream : List Recv) :
    (∀ (c : Call) (digest : String), c.sha256Hex = sha256Hex →
      (∀ info, c.info = .ok info → info.maxBytes = limit) →
        Integrity sha256Hex limit digest (declare digest stream) (c.write (declare digest stream))) ↔
      ¬ Violates limit stream := by
  constructor
  · intro h hviolates
    match stream, hviolates with
    | .message req :: rest, ⟨hresource, tail, htail, hbad⟩ =>
      obtain ⟨resource, hresource⟩ := isSome_iff_exists.mp hresource
      have hfits : req.data ++ tail ≠ [] → Within limit (req.data ++ tail) := by
        intro hne
        rcases hbad with ⟨_, _, hwithin⟩ | ⟨hempty, _⟩
        · exact hwithin
        · exact absurd hempty hne
      let digest := sha256Hex (req.data ++ tail)
      let first : WriteRequest := { req with resource := some { resource with digest := digest } }
      have huploads : ((openCall sha256Hex limit).write (.message first :: rest)).uploads
          = [⟨{ resource with digest := digest }, req.data ++ tail, true⟩] :=
        openCall_write rfl rfl htail hfits
      have hstream : declare digest (.message req :: rest) = .message first :: rest := by
        simp [declare, hresource, first]
      have hintegrity := h (openCall sha256Hex limit) digest rfl (fun info hinfo => by cases hinfo; rfl)
      rw [hstream] at hintegrity
      obtain ⟨hdeclared, _, _, hwithin⟩ := hintegrity.verified _ (by
        rw [huploads]
        exact mem_singleton_self _)
      rcases hbad with ⟨hfinish, hne, _⟩ | ⟨hempty, hneg⟩
      · simp [declared, hfinish, first] at hdeclared
        exact hne hdeclared
      · have hle := hwithin (by omega)
        omega
  · intro hkeeps c digest hsha hlimit
    subst hsha
    exact integrity_of_not_violates hlimit (fun h => hkeeps (violates_declare.mp h))

def byteDigest (content : Bytes) : String := ",".intercalate (content.map toString)

def chunk (data : Bytes) (finishWrite : Bool) : Recv :=
  .message ⟨some ⟨"1,2", "file"⟩, data, finishWrite⟩

theorem write_integrity_two_chunks :
    ((openCall byteDigest 2).write [chunk [1] false, chunk [2] true]).uploads
        = [⟨⟨"1,2", "file"⟩, [1, 2], true⟩] ∧
      Integrity byteDigest 2 "1,2" [chunk [1] false, chunk [2] true]
        ((openCall byteDigest 2).write [chunk [1] false, chunk [2] true]) := by
  have hkeeps : ¬ Violates 2 [chunk [1] false, chunk [2] true] := by
    rintro ⟨_, tail, _, ⟨hfinish, _⟩ | ⟨_, hneg⟩⟩
    · cases hfinish
    · omega
  exact ⟨by decide +kernel, (write_integrity_iff byteDigest 2 [chunk [1] false, chunk [2] true]).mpr
    hkeeps (openCall byteDigest 2) "1,2" rfl (fun info hinfo => by cases hinfo; rfl)⟩

theorem first_finish_is_ignored :
    ((openCall byteDigest 0).write [chunk [1] true, chunk [2] false]).uploads
        = [⟨⟨"1,2", "file"⟩, [1, 2], true⟩] ∧
      declared [chunk [1] true, chunk [2] false] = some [1] ∧
      ¬ Integrity byteDigest 0 "1,2" [chunk [1] true, chunk [2] false]
        ((openCall byteDigest 0).write [chunk [1] true, chunk [2] false]) := by
  have huploads : ((openCall byteDigest 0).write [chunk [1] true, chunk [2] false]).uploads
      = [⟨⟨"1,2", "file"⟩, [1, 2], true⟩] := by decide +kernel
  refine ⟨huploads, rfl, fun h => ?_⟩
  have hdeclared := (h.verified _ (by rw [huploads]; exact mem_singleton_self _)).1
  exact absurd hdeclared (by decide)

def keep (blobs : Map String Bytes) (out : Outcome) : Map String Bytes :=
  out.uploads.foldl (fun m u => if u.succeeded then m.set u.resource.digest u.content else m) blobs

theorem uploads_verified (c : Call) (stream : List Recv) :
    ∀ u ∈ (c.write stream).uploads, c.sha256Hex u.content = u.resource.digest := by
  intro u hu
  unfold Call.write at hu
  split at hu
  next out haccept =>
    rw [(accept_error _ haccept).1] at hu
    cases hu
  next info resource req rest key _ =>
    rcases spillVerifyUpload_cases c resource req.data rest info.maxBytes with
      ⟨e, hfailed⟩ | ⟨content, _, hhash, hok | ⟨e, hfailed⟩⟩
    · rw [hfailed] at hu
      cases hu
    · rw [hok] at hu
      rw [mem_singleton.mp hu]
      exact hhash
    · rw [hfailed] at hu
      rw [mem_singleton.mp hu]
      exact hhash

variable {blobs : Map String Bytes}

theorem keep_verified {sha256Hex : Bytes → String} {out : Outcome}
    (hout : ∀ u ∈ out.uploads, sha256Hex u.content = u.resource.digest)
    (h : ∀ e ∈ blobs.entries, sha256Hex e.2 = e.1) :
    ∀ e ∈ (keep blobs out).entries, sha256Hex e.2 = e.1 := by
  unfold keep
  generalize out.uploads = uploads at hout ⊢
  induction uploads generalizing blobs with
  | nil => exact h
  | cons u rest ih =>
    rw [foldl_cons]
    refine ih ?_ (fun u' hu' => hout u' (mem_cons_of_mem _ hu'))
    split
    · intro e he
      rcases (Map.mem_set_entries ..).mp he with rfl | ⟨_, he⟩
      · exact hout u mem_cons_self
      · exact h e he
    · exact h

theorem blobs_verified_along_writes {calls : List (Call × List Recv)}
    (hsha : ∀ call ∈ calls, call.1.sha256Hex = sha256Hex)
    (h : ∀ e ∈ blobs.entries, sha256Hex e.2 = e.1) :
    ∀ e ∈ (calls.foldl (fun blobs call => keep blobs (call.1.write call.2)) blobs).entries,
      sha256Hex e.2 = e.1 := by
  induction calls generalizing blobs with
  | nil => exact h
  | cons call rest ih =>
    refine ih (fun call' hcall' => hsha call' (mem_cons_of_mem _ hcall')) (keep_verified ?_ h)
    rw [← hsha call mem_cons_self]
    exact uploads_verified call.1 call.2

theorem two_chunks_verified :
    let blobs := [(openCall byteDigest 2, [chunk [1] false, chunk [2] true])].foldl
      (fun blobs call => keep blobs (call.1.write call.2)) .empty
    blobs.entries = [("1,2", [1, 2])] ∧ ∀ e ∈ blobs.entries, byteDigest e.2 = e.1 :=
  ⟨by decide +kernel, blobs_verified_along_writes (by simp [openCall]) (by simp [Map.empty])⟩

end Chainloop.Cas
