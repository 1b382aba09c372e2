import Chainloop.Cas.Download
import Chainloop.Cas.Integrity

namespace Chainloop.Cas

open Go List Except

namespace Fetch

variable {store : Nat → Option (Nat × GoError)}

def delivered (store : Nat → Option (Nat × GoError)) : Fetch → Nat → Except GoError Bytes
  | .done, _ => .ok []
  | .failed e, _ => .error e
  | .write data next, i =>
    match store i with
    | none => (data ++ ·) <$> (next data.length none).delivered store (i + 1)
    | some (n, e) => (next (min n data.length) (some e)).delivered store (i + 1)

-- One of the writes fails and stores something all the same.
def Parts (store : Nat → Option (Nat × GoError)) : Fetch → Nat → Prop
  | .done, _ => False
  | .failed _, _ => False
  | .write data next, i =>
    match store i with
    | none => (next data.length none).Parts store (i + 1)
    | some (n, e) => data.take n ≠ [] ∨ (next (min n data.length) (some e)).Parts store (i + 1)

theorem fill_hashed (store : Nat → Option (Nat × GoError)) (fetch : Fetch) (s : Staged) :
    Staged.hashed <$> fetch.fill store s = (s.hashed ++ ·) <$> fetch.delivered store s.writes := by
  induction fetch generalizing s with
  | done => exact congrArg ok (append_nil _).symm
  | failed e => rfl
  | write data next ih =>
    rw [fill, delivered, Staged.write]
    cases store s.writes with
    | none =>
      rw [ih, Functor.map_map]
      simp
    | some failure => exact ih _ _ _

theorem fill_file {fetch : Fetch} {s t : Staged} {content : Bytes} (hfill : fetch.fill store s = .ok t)
    (hcontent : fetch.delivered store s.writes = .ok content) :
    (¬ fetch.Parts store s.writes → t.file = s.file ++ content) ∧
      (fetch.Parts store s.writes → s.file.length + content.length < t.file.length) := by
  induction fetch generalizing s content with
  | done =>
    cases hfill
    cases hcontent
    exact ⟨fun _ => (append_nil _).symm, fun h => h.elim⟩
  | failed e => cases hfill
  | write data next ih =>
    rw [fill, Staged.write] at hfill
    rw [delivered] at hcontent
    rw [Parts]
    cases hstore : store s.writes with
    | none =>
      rw [hstore] at hfill hcontent
      obtain ⟨rest, hrest, rfl⟩ := map_eq_ok.mp hcontent
      obtain ⟨hsame, hmore⟩ := ih _ _ hfill hrest
      refine ⟨fun h => ?_, fun h => ?_⟩
      · rw [hsame h, append_assoc]
      · have hlt := hmore h
        simp only [length_append] at hlt ⊢
        omega
    | some failure =>
      obtain ⟨n, e⟩ := failure
      rw [hstore] at hfill hcontent
      obtain ⟨hsame, hmore⟩ := ih _ _ hfill hcontent
      simp only [length_append] at hmore
      refine ⟨fun h => ?_, fun h => ?_⟩
      · obtain ⟨hnothing, hrest⟩ := not_or.mp h
        rw [hsame hrest, not_not.mp hnothing, append_nil]
      · by_cases hrest : (next (min n data.length) (some e)).Parts store (s.writes + 1)
        · have hlt := hmore hrest
          omega
        · have hpos := length_pos_iff.mpr (h.resolve_right hrest)
          rw [hsame hrest, length_append, length_append]
          omega

end Fetch

namespace DownloadCall

variable {c c' : DownloadCall} {b : Backend} {digest : String} {content : Bytes}

structure Gives (c : DownloadCall) (b : Backend) (digest : String) (content : Bytes) : Prop where
  load : c.load = .ok b
  delivered : (b.download digest).delivered c.volume.store 0 = .ok content
  hash : c.sha256Hex content = digest

structure Like (c c' : DownloadCall) : Prop where
  sha256Hex : c'.sha256Hex = c.sha256Hex
  load : c'.load = c.load
  store : c'.volume.store = c.volume.store

theorem Like.gives (h : c.Like c') : c'.Gives b digest content ↔ c.Gives b digest content := by
  constructor
  · rintro ⟨hload, hdelivered, hhash⟩
    exact ⟨h.load ▸ hload, h.store ▸ hdelivered, h.sha256Hex ▸ hhash⟩
  · rintro ⟨hload, hdelivered, hhash⟩
    exact ⟨h.load.trans hload, h.store.symm ▸ hdelivered, h.sha256Hex.symm ▸ hhash⟩

theorem Gives.unique (h : c.Gives b digest content) (h' : c.Gives b' digest content') :
    content' = content := by
  cases h.load.symm.trans h'.load
  exact ok.inj (h'.delivered.symm.trans h.delivered)

end DownloadCall

-- What is sent for a digest. Each byte is of a content that the backend has handed over and
-- that has the digest. Where its content has another one, or none is complete, no byte is.
structure Released (c : DownloadCall) (digest : String) (sent : Bytes) : Prop where
  verified : sent ≠ [] → ∃ b content, c.Gives b digest content ∧ sent <+: content
  withheld : (∀ b content, ¬ c.Gives b digest content) → sent = []

namespace DownloadCall

variable {c : DownloadCall} {b : Backend} {digest : String} {file : Bytes} {size : Nat}

theorem stageDownload_ok (hload : c.load = .ok b)
    (h : c.stageDownload digest (b.download digest) = .ok (file, size)) :
    ∃ content, c.Gives b digest content ∧ size = file.length ∧
      (¬ (b.download digest).Parts c.volume.store 0 → file = content) ∧
      ((b.download digest).Parts c.volume.store 0 → content.length < file.length) := by
  unfold stageDownload at h
  cases hfill : (b.download digest).fill c.volume.store ⟨[], [], 0⟩ with rw [hfill] at h
  | error e =>
    exact absurd (stageAndVerify_ok h).1 (fun hok => by cases hok)
  | ok t =>
    obtain ⟨hfile, hhash, hsize⟩ := stageAndVerify_ok h
    cases hfile
    have hcontent : (b.download digest).delivered c.volume.store 0 = .ok t.hashed := by
      have hhashed := Fetch.fill_hashed c.volume.store (b.download digest) ⟨[], [], 0⟩
      rw [hfill] at hhashed
      obtain ⟨content, hcontent, heq⟩ := map_eq_ok.mp hhashed.symm
      rw [hcontent, ← heq, nil_append]
    obtain ⟨hsame, hmore⟩ := Fetch.fill_file hfill hcontent
    refine ⟨t.hashed, ⟨hload, hcontent, hhash⟩, hsize, hsame, fun hparts => ?_⟩
    have hlt := hmore hparts
    simpa using hlt

-- Bytes that come out of the staging file of a verified download, from its start.
def FromStaged (c : DownloadCall) (digest : String) (sent : Bytes) : Prop :=
  sent = [] ∨ ∃ b file size, c.load = .ok b ∧
    c.stageDownload digest (b.download digest) = .ok (file, size) ∧ sent <+: file

theorem FromStaged.released (h : c.FromStaged digest sent)
    (hwhole : ∀ b content, c.Gives b digest content →
      ¬ (b.download digest).Parts c.volume.store 0) : Released c digest sent := by
  rcases h with rfl | ⟨b, file, size, hload, hstaged, hsent⟩
  · exact ⟨fun hne => absurd rfl hne, fun _ => rfl⟩
  · obtain ⟨content, hgives, -, hsame, -⟩ := stageDownload_ok hload hstaged
    obtain rfl := hsame (hwhole b content hgives)
    exact ⟨fun _ => ⟨b, file, hgives, hsent⟩, fun hnone => absurd hgives (hnone b file)⟩

end DownloadCall

section Read

theorem pieces_flatten (hsize : 0 < size) {content : Bytes} (h : content.length ≤ fuel) :
    (pieces size fuel content).flatten = content := by
  induction fuel generalizing content with
  | zero =>
    rw [eq_nil_of_length_eq_zero (Nat.le_zero.mp h)]
    rfl
  | succ fuel ih =>
    cases content with
    | nil => rfl
    | cons b content =>
      have hrest : ((b :: content).drop size).length ≤ fuel := by
        rw [length_drop]
        omega
      rw [pieces, flatten_cons, ih hrest, take_append_drop]

theorem sendPieces_isPrefix (send : Nat → Option SendError) (i : Nat) (ps : List Bytes) :
    (sendPieces send i ps).1 <+: ps := by
  induction ps generalizing i with
  | nil => exact nil_prefix
  | cons piece rest ih =>
    rw [sendPieces]
    cases send i with
    | some e => exact nil_prefix
    | none => exact (prefix_cons_inj piece).mpr (ih (i + 1))

theorem Volume.read_isPrefix (v : Volume) (file : Bytes) : (v.read file).1 <+: file := by
  unfold Volume.read
  cases v.readBack with
  | none => exact prefix_rfl
  | some failure => exact take_prefix _ _

theorem copyStaged_isPrefix (send : Nat → Option SendError) (v : Volume) (file : Bytes) :
    (copyStaged send v file).1.flatten <+: file := by
  have hpieces : (pieces stagedChunkSize (v.read file).1.length (v.read file).1).flatten
      = (v.read file).1 := pieces_flatten (by decide) (Nat.le_refl _)
  have hsent : (copyStaged send v file).1 = (sendPieces send 0
      (pieces stagedChunkSize (v.read file).1.length (v.read file).1)).1 := by
    unfold copyStaged
    simp only
    split <;> rename_i heq <;> rw [heq]
  obtain ⟨rest, hrest⟩ := sendPieces_isPrefix send 0
    (pieces stagedChunkSize (v.read file).1.length (v.read file).1)
  have hread : (copyStaged send v file).1.flatten <+: (v.read file).1 := by
    refine ⟨rest.flatten, ?_⟩
    rw [hsent, ← flatten_append, hrest, hpieces]
  exact hread.trans (v.read_isPrefix file)

theorem DownloadCall.acceptRead_ok {c : DownloadCall} (h : c.acceptRead resourceName = .ok b) :
    c.load = .ok b := by
  obtain ⟨info, _, h⟩ := bind_eq_ok.mp h
  obtain ⟨_, _, h⟩ := bind_eq_ok.mp h
  obtain ⟨_, h⟩ := guard_eq_ok.mp h
  obtain ⟨_, _, h⟩ := bind_eq_ok.mp h
  exact mapError_eq_ok.mp h

theorem DownloadCall.read_fromStaged (c : DownloadCall) (resourceName : String)
    (send : Nat → Option SendError) :
    c.FromStaged resourceName (c.read resourceName send).1.flatten := by
  unfold DownloadCall.read
  cases haccept : c.acceptRead resourceName with
  | error status => exact .inl rfl
  | ok b =>
    simp only
    cases hstaged : c.stageDownload resourceName (b.download resourceName) with
    | error e => exact .inl rfl
    | ok staged =>
      obtain ⟨file, size⟩ := staged
      refine .inr ⟨b, file, size, acceptRead_ok haccept, hstaged, ?_⟩
      have hsent := copyStaged_isPrefix send c.volume file
      simp only
      split <;> rename_i heq <;> rwa [heq] at hsent

end Read

section Http

namespace ResponseWriter

variable {w : ResponseWriter}

-- What Write does: it refuses what exceeds the declared length, and else writes all that
-- the connection takes.
inductive Writes (w : ResponseWriter) (data : Bytes) : ResponseWriter × Option GoError → Prop where
  | refused (e : GoError) (hexceeds : ∃ n, w.header.contentLength = some n ∧ n < w.body.length + data.length) :
      Writes w data (w.writeHeader 200, some e)
  | whole (hfits : ∀ n, w.header.contentLength = some n → w.body.length + data.length ≤ n)
      (hroom : ∀ n e, w.connection = some (n, e) → w.body.length + data.length ≤ n) :
      Writes w data ({ w.writeHeader 200 with body := w.body ++ data }, none)
  | cut (n : Nat) (e : GoError) (hfits : ∀ n, w.header.contentLength = some n → w.body.length + data.length ≤ n)
      (hconnection : w.connection = some (n, e)) (hshort : n < w.body.length + data.length) :
      Writes w data ({ w.writeHeader 200 with body := w.body ++ data.take (n - w.body.length) }, some e)

theorem write_writes (w : ResponseWriter) (data : Bytes) : w.Writes data (w.write data) := by
  unfold write
  split
  · rename_i hexceeds
    obtain ⟨n, hn, hlt⟩ := (Option.any_eq_true ..).mp hexceeds
    exact .refused _ ⟨n, hn, of_decide_eq_true hlt⟩
  · rename_i hfits
    have hfits (n) : w.header.contentLength = some n → w.body.length + data.length ≤ n := by
      intro hn
      rw [hn] at hfits
      simpa using hfits
    cases hconnection : w.connection with
    | none => exact .whole hfits fun n e h => by rw [hconnection] at h; cases h
    | some failure =>
      obtain ⟨n, e⟩ := failure
      by_cases hroom : w.body.length + data.length ≤ n
      · have hall : data.take (n - w.body.length) = data := take_of_length_le (by omega)
        simp only [hall, if_pos hroom]
        refine .whole hfits fun m e' h => ?_
        rw [hconnection] at h
        cases h
        exact hroom
      · simp only [if_neg hroom]
        exact .cut n e hfits hconnection (by omega)

theorem Writes.status (h : w.Writes data out) : out.1.status = some (w.status.getD 200) := by
  cases h <;> rfl

theorem Writes.body_of_lost (h : w.Writes data out) (hlost : w.connection = some (n, e))
    (hfull : n ≤ w.body.length) : out.1.body = w.body := by
  cases h with
  | refused => rfl
  | whole _ hroom =>
    have hle := hroom n e hlost
    have hnil : data = [] := eq_nil_of_length_eq_zero (by omega)
    rw [hnil]
    exact append_nil _
  | cut m _ _ hconnection =>
    cases hlost.symm.trans hconnection
    have hnone : w.body ++ data.take (n - w.body.length) = w.body := by
      rw [Nat.sub_eq_zero_of_le hfull, take_zero, append_nil]
    exact hnone

theorem write_of_fits (data : Bytes) (hopen : w.connection = none)
    (hfits : ∀ n, w.header.contentLength = some n → w.body.length + data.length ≤ n) :
    w.write data = ({ w.writeHeader 200 with body := w.body ++ data }, none) := by
  have hwrites := w.write_writes data
  generalize w.write data = out at hwrites ⊢
  cases hwrites with
  | refused e hexceeds =>
    obtain ⟨n, hn, hlt⟩ := hexceeds
    exact absurd (hfits n hn) (Nat.not_le.mpr hlt)
  | whole => rfl
  | cut n e _ hconnection =>
    rw [hopen] at hconnection
    cases hconnection

theorem content_isPrefix (w : ResponseWriter) : w.content <+: w.body := by
  unfold content
  split
  · exact prefix_rfl
  · exact nil_prefix

theorem content_of_status (h : w.status ≠ some 200) : w.content = [] := if_neg h

theorem error_of_started (hstarted : w.status.isSome = true) :
    w.error text code = (w.write (bytes (text ++ "\n"))).1 := if_pos hstarted

theorem error_content (hfirst : w.status = none) (hcode : code ≠ 200) :
    (w.error text code).content = [] := by
  apply content_of_status
  unfold error
  rw [hfirst]
  simp only [Option.isSome_none, Bool.false_eq_true, if_false]
  rw [(write_writes _ _).status]
  simpa [writeHeader] using hcode

end ResponseWriter

def errorText : Bytes := bytes (maskedErr ++ "\n")

-- The copy of the content ends after some bytes with an error, whose text fits behind them
-- and is not what the content goes on with. A client that went away gets no text.
def Garbles (readBack : Option (Nat × GoError)) (content : Bytes) : Prop :=
  ∃ n e, readBack = some (n, e) ∧ e.is .clientDisconnect = false ∧ 0 < n ∧
    n + errorText.length ≤ content.length ∧ ¬ errorText <+: content.drop n

section Copy

variable {w : ResponseWriter} {r : Request} {file : Bytes}

theorem writeDownloadError_eq (r : Request) (w : ResponseWriter) (e : UploadError) :
    writeDownloadError r w e = w ∨ ∃ text, writeDownloadError r w e = w.error text 500 := by
  unfold writeDownloadError
  split
  · exact .inr ⟨_, rfl⟩
  · split
    · exact .inl rfl
    · exact .inr ⟨_, rfl⟩

theorem writeDownloadError_content (hfirst : w.status = none) (e : UploadError) :
    (writeDownloadError r w e).content = [] := by
  rcases writeDownloadError_eq r w e with heq | ⟨text, heq⟩
  · rw [heq]
    exact ResponseWriter.content_of_status (by simp [hfirst])
  · rw [heq]
    exact ResponseWriter.error_content hfirst (by decide)

theorem writeDownloadError_of_lost (hlost : w.connection = some (n, e)) (hfull : n ≤ w.body.length)
    (hstarted : w.status.isSome = true) (err : UploadError) :
    (writeDownloadError r w err).body = w.body := by
  rcases writeDownloadError_eq r w err with heq | ⟨text, heq⟩
  · rw [heq]
  · rw [heq, ResponseWriter.error_of_started hstarted]
    exact (w.write_writes _).body_of_lost hlost hfull

theorem writeDownloadError_of_read (hgarbles : ¬ Garbles (some (n, e)) file)
    (hbody : w.body = file.take n) (hne : w.body ≠ []) (hstarted : w.status.isSome = true)
    (hlength : w.header.contentLength = some file.length) :
    (writeDownloadError r w (.stream e)).body <+: file := by
  have hkept : w.body <+: file := hbody ▸ take_prefix n file
  change (if r.canceled || e.is .clientDisconnect then w else w.error maskedErr 500).body <+: file
  split
  · exact hkept
  · rename_i hexplained
    rw [ResponseWriter.error_of_started hstarted]
    have hpart (part) : part <+: errorText → w.body.length + errorText.length ≤ file.length →
        w.body ++ part <+: file := by
      intro hpart hfits
      have hpos : 0 < errorText.length := by decide +kernel
      have hn : w.body.length = n := by
        rw [hbody, length_take] at hfits ⊢
        omega
      have hgoesOn : errorText <+: file.drop n := by
        by_contra hother
        have hbefore := length_pos_iff.mpr hne
        refine hgarbles ⟨n, e, rfl, ?_, by omega, by omega, hother⟩
        simp only [Bool.or_eq_true, not_or, Bool.not_eq_true] at hexplained
        exact hexplained.2
      obtain ⟨rest, hrest⟩ := hpart.trans hgoesOn
      refine ⟨rest, ?_⟩
      rw [hbody, append_assoc, hrest, take_append_drop]
    have hwrites := w.write_writes errorText
    change (w.write errorText).1.body <+: file
    generalize w.write errorText = out at hwrites ⊢
    cases hwrites with
    | refused => exact hkept
    | whole hfits => exact hpart errorText prefix_rfl (hfits _ hlength)
    | cut m e' hfits =>
      have hfront := take_prefix (m - w.body.length) errorText
      exact hpart _ hfront (hfits _ hlength)

theorem copied_isPrefix {v : Volume} (r : Request) (hgarbles : ¬ Garbles v.readBack file)
    (hfirst : w.status = none) (hbody : w.body = [])
    (hlength : w.header.contentLength = some file.length) :
    (afterCopy r (w.copy v file)).content <+: file := by
  unfold ResponseWriter.copy
  rcases hcontent : v.read file with ⟨content, readErr⟩
  have hread : content <+: file := by
    have hstart := v.read_isPrefix file
    rw [hcontent] at hstart
    exact hstart
  simp only
  split_ifs with hempty
  · cases readErr with simp only [afterCopy]
    | none =>
      rw [ResponseWriter.content_of_status (by simp [hfirst])]
      exact nil_prefix
    | some e =>
      rw [writeDownloadError_content hfirst]
      exact nil_prefix
  · have hwrites := w.write_writes content
    generalize w.write content = out at hwrites ⊢
    cases hwrites with
    | refused e hexceeds =>
      obtain ⟨n, hn, hlt⟩ := hexceeds
      rw [hlength] at hn
      cases hn
      have hle := hread.length_le
      rw [hbody, length_nil] at hlt
      omega
    | whole hfits hroom =>
      rw [hbody]
      cases readErr with
      | none => exact (ResponseWriter.content_isPrefix _).trans hread
      | some e =>
        refine (ResponseWriter.content_isPrefix _).trans ?_
        unfold Volume.read at hcontent
        split at hcontent
        · cases hcontent
        · rename_i n e' hback
          cases hcontent
          rw [hback] at hgarbles
          exact writeDownloadError_of_read hgarbles rfl hempty rfl hlength
    | cut n e hfits hconnection hshort =>
      refine (ResponseWriter.content_isPrefix _).trans ?_
      rw [hbody, length_nil, Nat.sub_zero, nil_append]
      have hfull : n ≤ (content.take n).length := by
        rw [hbody, length_nil] at hshort
        rw [length_take]
        omega
      have hbody' := writeDownloadError_of_lost (r := r)
        (w := { w.writeHeader 200 with body := content.take n }) hconnection hfull rfl (.stream e)
      simp only [afterCopy]
      rw [hbody']
      have hfront := take_prefix n content
      exact hfront.trans hread

theorem copied_content {v : Volume} {e : GoError} (hread : v.readBack = some (n, e))
    (hwaits : r.canceled = false) (he : e.is .clientDisconnect = false) (hn : 0 < n)
    (hfits : n + errorText.length ≤ file.length) (hopen : w.connection = none)
    (hfirst : w.status = none) (hbody : w.body = [])
    (hlength : w.header.contentLength = some file.length) :
    (afterCopy r (w.copy v file)).content = file.take n ++ errorText := by
  have htake : (file.take n).length = n := by
    rw [length_take]
    omega
  have hne : file.take n ≠ [] := by
    rw [← length_pos_iff, htake]
    exact hn
  have hcopy : ∃ w', w.copy v file = (w', some e) ∧ w'.connection = none ∧ w'.header = w.header ∧
      w'.body = file.take n ∧ w'.status = some 200 := by
    have hwrite := ResponseWriter.write_of_fits (file.take n) hopen fun m hm => by
      cases hlength.symm.trans hm
      rw [hbody, length_nil]
      omega
    rw [hbody, nil_append] at hwrite
    refine ⟨{ w.writeHeader 200 with body := file.take n }, ?_, hopen, rfl, rfl, ?_⟩
    · simp only [ResponseWriter.copy, Volume.read, hread, if_neg hne, hwrite]
    · simp [ResponseWriter.writeHeader, hfirst]
  obtain ⟨w', hcopy, hopen', hheader, hbody', hstatus⟩ := hcopy
  have hexplained : afterCopy r (w', some e) = w'.error maskedErr 500 := by
    change (if r.canceled || e.is .clientDisconnect then w' else w'.error maskedErr 500) = _
    rw [hwaits, he]
    rfl
  rw [hcopy, hexplained, ResponseWriter.error_of_started (by rw [hstatus]; rfl),
    ResponseWriter.write_of_fits _ hopen', hbody']
  · simp [ResponseWriter.content, ResponseWriter.writeHeader, hstatus, errorText]
  · intro m hm
    rw [hheader, hlength] at hm
    cases hm
    rw [hbody', htake]
    exact hfits

end Copy

namespace DownloadCall

variable {newHash : String → Except GoError Hash} {c : DownloadCall} {r : Request}

theorem acceptHTTP_error : ∀ err, c.acceptHTTP newHash r = .error err → err.1 ≠ 200 := by
  have hload (notFound : String) (e : LoadError) : (e.http notFound).1 ≠ 200 := by
    cases e with
    | notFound e => simp [LoadError.http]
    | other e => simp [LoadError.http]
  have hdigest (err) : r.digest.elim (.error (400, "missing digest")) ok = .error err →
      err.1 ≠ 200 := by
    intro h
    cases hdigest : r.digest with rw [hdigest] at h
    | none =>
      cases h
      decide
    | some digest =>
      cases h
  refine errors_of_bind (errors_of_mapError fun e => by simp) fun auth _ => ?_
  refine errors_of_bind hdigest fun digest _ => ?_
  refine errors_of_bind (errors_of_mapError fun e => by simp) fun wantChecksum _ => ?_
  refine errors_of_bind (errors_of_mapError fun e => by simp) fun _ _ => ?_
  refine errors_of_bind (errors_of_mapError fun e => by simp) fun _ _ => ?_
  refine errors_of_bind (errors_of_mapError (hload _)) fun b _ => ?_
  refine errors_of_bind (errors_of_mapError (hload _)) fun info _ => ?_
  intro err h
  cases h

theorem acceptHTTP_ok {want : Hash} {b : Backend} {info : FileInfo}
    (h : c.acceptHTTP newHash r = .ok (want, b, info)) :
    c.load = .ok b ∧ b.describe want.hex = .ok info ∧
      ∃ digest, r.digest = some digest ∧ newHash digest = .ok want := by
  obtain ⟨auth, _, h⟩ := bind_eq_ok.mp h
  obtain ⟨digest, hdigest, h⟩ := bind_eq_ok.mp h
  obtain ⟨want', hwant, h⟩ := bind_eq_ok.mp h
  obtain ⟨_, _, h⟩ := bind_eq_ok.mp h
  obtain ⟨_, _, h⟩ := bind_eq_ok.mp h
  obtain ⟨b', hload, h⟩ := bind_eq_ok.mp h
  obtain ⟨info', hinfo, h⟩ := bind_eq_ok.mp h
  cases h
  refine ⟨mapError_eq_ok.mp hload, mapError_eq_ok.mp hinfo, digest, ?_, mapError_eq_ok.mp hwant⟩
  cases hrequest : r.digest with rw [hrequest] at hdigest
  | none =>
    cases hdigest
  | some digest' =>
    cases hdigest
    rfl

def requested (newHash : String → Except GoError Hash) (r : Request) : Option Hash :=
  r.digest.bind fun digest => (newHash digest).toOption

theorem serveHTTP_fromStaged (newHash : String → Except GoError Hash) (r : Request)
    (connection : Option (Nat × GoError))
    (hgarbles : ∀ b digest info file size, c.load = .ok b → b.describe digest = .ok info →
      c.stageDownload digest (b.download digest) = .ok (file, size) → ¬ Garbles c.volume.readBack file) :
    (c.serveHTTP newHash r (.fresh connection)).content = [] ∨
      ∃ want, requested newHash r = some want ∧
        c.FromStaged want.hex (c.serveHTTP newHash r (.fresh connection)).content := by
  unfold serveHTTP
  rcases haccept : c.acceptHTTP newHash r with ⟨code, text⟩ | ⟨want, b, info⟩
  · exact .inl (ResponseWriter.error_content rfl (acceptHTTP_error _ haccept))
  · simp only
    obtain ⟨hload, hinfo, digest, hdigest, hwant⟩ := acceptHTTP_ok haccept
    split
    · refine .inl (ResponseWriter.content_of_status ?_)
      simp [ResponseWriter.writeHeader, ResponseWriter.setCacheHeaders, ResponseWriter.fresh]
    rcases hstaged : c.stageDownload want.hex (b.download want.hex) with e | ⟨file, size⟩
    · exact .inl (writeDownloadError_content rfl e)
    · refine .inr ⟨want, ?_, .inr ⟨b, file, size, hload, hstaged, ?_⟩⟩
      · rw [requested, hdigest]
        simp [hwant, Except.toOption]
      · obtain ⟨-, -, rfl, -, -⟩ := stageDownload_ok hload hstaged
        exact copied_isPrefix r (hgarbles b want.hex info file _ hload hinfo hstaged) rfl rfl rfl

end DownloadCall

end Http

section Exact

namespace DownloadCall

variable {c : DownloadCall} {b : Backend} {digest : String} {content : Bytes}

def granted (c : DownloadCall) (readBack : Option (Nat × GoError)) : DownloadCall :=
  { c with
    info := .ok ⟨.downloader, "secret", "OCI", 0, "", ""⟩
    stagingDir := "/staging"
    volume := ⟨goodDisk, c.volume.store, readBack⟩ }

theorem granted_like (c : DownloadCall) (readBack : Option (Nat × GoError)) :
    c.Like (c.granted readBack) := ⟨rfl, rfl, rfl⟩

theorem Gives.staged (h : c.Gives b digest content) (readBack : Option (Nat × GoError)) :
    ∃ file, (c.granted readBack).stageDownload digest (b.download digest) = .ok (file, file.length) ∧
      (¬ (b.download digest).Parts c.volume.store 0 → file = content) ∧
      ((b.download digest).Parts c.volume.store 0 → content.length < file.length) := by
  have hhashed := Fetch.fill_hashed c.volume.store (b.download digest) ⟨[], [], 0⟩
  rw [h.delivered] at hhashed
  obtain ⟨t, hfill, heq⟩ := map_eq_ok.mp hhashed
  have hhash : c.sha256Hex t.hashed = digest := heq ▸ h.hash
  have hstaged : (c.granted readBack).stageDownload digest (b.download digest)
      = .ok (t.file, t.file.length) := by
    unfold stageDownload
    simp only [granted, hfill]
    unfold stageAndVerify
    simp [hhash, failing, goodDisk, bind, Except.bind, pure, Except.pure]
  have hload : (c.granted readBack).load = .ok b := h.load
  obtain ⟨content', hgives, -, hsame, hmore⟩ := stageDownload_ok hload hstaged
  obtain rfl := h.unique ((granted_like c readBack).gives.mp hgives)
  exact ⟨t.file, hstaged, hsame, hmore⟩

theorem granted_acceptRead (hload : c.load = .ok b) (hdigest : digest ≠ "")
    (readBack : Option (Nat × GoError)) : (c.granted readBack).acceptRead digest = .ok b := by
  simp [acceptRead, granted, hload, hdigest, Claims.checkRole, Claims.checkDigest, Except.mapError,
    bind, Except.bind]

theorem granted_read (h : c.Gives b digest content) (hdigest : digest ≠ "")
    (hstaged : (c.granted none).stageDownload digest (b.download digest) = .ok (file, size)) :
    ((c.granted none).read digest fun _ => none).1.flatten = file := by
  have hsend (i ps) : sendPieces (fun _ => none) i ps = (ps, none) := by
    induction ps generalizing i with
    | nil => rfl
    | cons piece rest ih => rw [sendPieces, ih]
  have hcopy : copyStaged (fun _ => none) (c.granted none).volume file =
      (pieces stagedChunkSize file.length file, none) := by
    simp [copyStaged, hsend, granted, Volume.read]
  unfold DownloadCall.read
  rw [granted_acceptRead h.load hdigest]
  simp only [hstaged, hcopy]
  exact pieces_flatten (by decide) (Nat.le_refl _)

def getRequest (digest : String) : Request := ⟨some ("sha256:" ++ digest), "", "", false⟩

theorem etagMatches_empty (etag : String) (hetag : etag ≠ "") : etagMatches "" etag = false := by
  have hsplit : splitString "," "" = [""] := by decide +kernel
  have htrim : trimSpace "" = "" := by decide +kernel
  have hstart : trimStart "" "W/" = "" := by decide +kernel
  simp [etagMatches, hsplit, htrim, hstart, hetag.symm]

variable {newHash : String → Except GoError Hash}

theorem granted_serveHTTP (h : c.Gives b digest content)
    (hwhole : ¬ (b.download digest).Parts c.volume.store 0) {info : FileInfo}
    (hinfo : b.describe digest = .ok info) (hnew : newHash ("sha256:" ++ digest) = .ok ⟨"sha256", digest⟩)
    (readBack : Option (Nat × GoError)) :
    ∃ etag, (c.granted readBack).serveHTTP newHash (getRequest digest) (.fresh none) =
      afterCopy (getRequest digest) ((announce (getRequest digest) info etag content.length
        (.fresh none)).copy (c.granted readBack).volume content) := by
  have haccept : (c.granted readBack).acceptHTTP newHash (getRequest digest)
      = .ok (⟨"sha256", digest⟩, b, info) := by
    simp [acceptHTTP, granted, getRequest, hnew, h.load, hinfo, Claims.checkRole, Claims.checkDigest,
      Except.mapError, bind, Except.bind, pure, Except.pure]
  obtain ⟨file, hstaged, hsame, -⟩ := h.staged readBack
  obtain rfl := hsame hwhole
  have hetag : etagMatches (getRequest digest).ifNoneMatch
      ("\"" ++ Hash.toString ⟨"sha256", digest⟩ ++ "\"") = false := etagMatches_empty _ (by simp)
  refine ⟨"\"" ++ Hash.toString ⟨"sha256", digest⟩ ++ "\"", ?_⟩
  unfold serveHTTP
  simp only [haccept, hetag, hstaged, Bool.false_eq_true, if_false]

-- What the digests of the requests are: the hashes in hexadecimal, behind the name of the
-- algorithm.
structure Sha256 (sha256Hex : Bytes → String) (newHash : String → Except GoError Hash) : Prop where
  nonempty : ∀ content, sha256Hex content ≠ ""
  parses : ∀ content, newHash ("sha256:" ++ sha256Hex content) = .ok ⟨"sha256", sha256Hex content⟩

theorem not_parts_of_released (h : c.Gives b digest content) (hdigest : digest ≠ "")
    (hreleased : Released (c.granted none) digest ((c.granted none).read digest fun _ => none).1.flatten) :
    ¬ (b.download digest).Parts c.volume.store 0 := by
  intro hparts
  obtain ⟨file, hstaged, -, hmore⟩ := h.staged none
  have hlt := hmore hparts
  rw [granted_read h hdigest hstaged] at hreleased
  have hne : file ≠ [] := by
    rw [← length_pos_iff]
    omega
  obtain ⟨b', content', hgives, hstart⟩ := hreleased.verified hne
  obtain rfl := h.unique ((granted_like c none).gives.mp hgives)
  exact absurd hstart.length_le (Nat.not_le.mpr hlt)

theorem not_garbles_of_released (h : c.Gives b digest content)
    (hwhole : ¬ (b.download digest).Parts c.volume.store 0) {info : FileInfo}
    (hinfo : b.describe digest = .ok info) (hnew : newHash ("sha256:" ++ digest) = .ok ⟨"sha256", digest⟩)
    {readBack : Option (Nat × GoError)} (hreleased : Released (c.granted readBack) digest
      ((c.granted readBack).serveHTTP newHash (getRequest digest) (.fresh none)).content) :
    ¬ Garbles readBack content := by
  rintro ⟨n, e, rfl, he, hn, hfits, hother⟩
  have hpos : 0 < errorText.length := by decide +kernel
  obtain ⟨etag, hserved⟩ := granted_serveHTTP h hwhole hinfo hnew (some (n, e))
  rw [hserved, copied_content rfl rfl he hn hfits rfl rfl rfl rfl] at hreleased
  have hne : content.take n ++ errorText ≠ [] := by
    rw [← length_pos_iff, length_append]
    omega
  obtain ⟨b', content', hgives, hstart⟩ := hreleased.verified hne
  obtain rfl := h.unique ((granted_like c _).gives.mp hgives)
  refine hother ((prefix_append_right_inj (content'.take n)).mp ?_)
  rw [take_append_drop]
  exact hstart

end DownloadCall

end Exact

-- Both handlers keep to what is released, whatever the token, the request, the connection and
-- the rest of the volume are, exactly if the writes that fail on the way to a content with its
-- digest store nothing and no error of reading it back gets into a body. How the file is read
-- back makes no difference to the one that sends messages.
theorem client_gets_requested_content {newHash : String → Except GoError Hash} (c : DownloadCall)
    (hsha : DownloadCall.Sha256 c.sha256Hex newHash) :
    ((∀ c', c.Like c' → ∀ resourceName send,
        Released c' resourceName (c'.read resourceName send).1.flatten) ∧
      ∀ c', c.Like c' → c'.volume.readBack = c.volume.readBack → ∀ r connection,
        (∀ want, DownloadCall.requested newHash r = some want →
          Released c' want.hex (c'.serveHTTP newHash r (.fresh connection)).content) ∧
        (DownloadCall.requested newHash r = none →
          (c'.serveHTTP newHash r (.fresh connection)).content = [])) ↔
      ∀ b digest content, c.Gives b digest content → ¬ (b.download digest).Parts c.volume.store 0 ∧
        ∀ info, b.describe digest = .ok info → ¬ Garbles c.volume.readBack content := by
  constructor
  · rintro ⟨hread, hhttp⟩ b digest content hgives
    have hdigest : digest ≠ "" := hgives.hash ▸ hsha.nonempty content
    have hnew : newHash ("sha256:" ++ digest) = .ok ⟨"sha256", digest⟩ := by
      rw [← hgives.hash]
      exact hsha.parses content
    have hwhole := DownloadCall.not_parts_of_released hgives hdigest
      (hread (c.granted none) (c.granted_like none) digest fun _ => none)
    refine ⟨hwhole, fun info hinfo => ?_⟩
    have hanswered := hhttp (c.granted c.volume.readBack) (c.granted_like _) rfl
      (DownloadCall.getRequest digest) none
    refine DownloadCall.not_garbles_of_released hgives hwhole hinfo hnew
      (hanswered.1 ⟨"sha256", digest⟩ ?_)
    simp [DownloadCall.requested, DownloadCall.getRequest, hnew, Except.toOption]
  · intro hcond
    have hwhole (c') : c.Like c' → ∀ digest b content, c'.Gives b digest content →
        ¬ (b.download digest).Parts c'.volume.store 0 := by
      intro hlike digest b content hgives
      rw [hlike.store]
      exact (hcond b digest content (hlike.gives.mp hgives)).1
    refine ⟨fun c' hlike resourceName send => ?_, fun c' hlike hback r connection => ?_⟩
    · exact (c'.read_fromStaged resourceName send).released (hwhole c' hlike resourceName)
    · have hgarbles (b digest info file size) : c'.load = .ok b → b.describe digest = .ok info →
          c'.stageDownload digest (b.download digest) = .ok (file, size) →
            ¬ Garbles c'.volume.readBack file := by
        intro hload hinfo hstaged
        obtain ⟨content, hgives, -, hsame, -⟩ := DownloadCall.stageDownload_ok hload hstaged
        obtain rfl := hsame (hwhole c' hlike digest b content hgives)
        rw [hback]
        exact (hcond b digest file (hlike.gives.mp hgives)).2 info hinfo
      rcases DownloadCall.serveHTTP_fromStaged newHash r connection hgarbles with
        hnone | ⟨want, hwant, hstaged⟩
      · refine ⟨fun want _ => ?_, fun _ => hnone⟩
        exact DownloadCall.FromStaged.released (.inl hnone) (hwhole c' hlike want.hex)
      · refine ⟨fun want' hwant' => ?_, fun hnone => ?_⟩
        · rw [hwant] at hwant'
          cases hwant'
          exact hstaged.released (hwhole c' hlike want.hex)
        · rw [hwant] at hnone
          cases hnone

def onlyOf (content : Bytes) (b : Bytes) : String := if b = content then "d" else "other"

def parseSha256 (digest : String) : Except GoError Hash :=
  if startsWith digest "sha256:" then .ok ⟨"sha256", trimStart digest "sha256:"⟩
  else .error (.new "cannot parse hash")

theorem onlyOf_sha256 (content : Bytes) : DownloadCall.Sha256 (onlyOf content) parseSha256 := by
  have hparses : parseSha256 ("sha256:" ++ "d") = .ok ⟨"sha256", "d"⟩ ∧
      parseSha256 ("sha256:" ++ "other") = .ok ⟨"sha256", "other"⟩ := ⟨rfl, rfl⟩
  refine ⟨fun b => ?_, fun b => ?_⟩
  · unfold onlyOf
    split <;> decide
  · unfold onlyOf
    split
    · exact hparses.1
    · exact hparses.2

def downloadOf (content : Bytes) (fetch : Fetch) (volume : Volume) : DownloadCall where
  info := .ok ⟨.downloader, "secret", "OCI", 0, "", ""⟩
  sha256Hex := onlyOf content
  parseDigest := .ok
  load := .ok ⟨fun _ => .ok ⟨"file", content.length⟩, fun _ => fetch⟩
  stagingDir := "/staging"
  volume := volume

def copying : List Bytes → Fetch
  | [] => .done
  | chunk :: rest => .write chunk fun _ err => err.elim (copying rest) .failed

def chunked : DownloadCall :=
  downloadOf [7, 8, 9] (copying [[7, 8], [9]]) ⟨goodDisk, fun _ => none, none⟩

theorem chunks_sent_to_client : (chunked.read "d" (fun _ => none) = ([[7, 8, 9]], .finished) ∧
      Released chunked "d" (chunked.read "d" fun _ => none).1.flatten) ∧
    (chunked.serveHTTP parseSha256 (DownloadCall.getRequest "d") (.fresh none)).content = [7, 8, 9] ∧
      Released chunked "d"
        (chunked.serveHTTP parseSha256 (DownloadCall.getRequest "d") (.fresh none)).content := by
  have hsafe : ∀ b digest content, chunked.Gives b digest content →
      ¬ (b.download digest).Parts chunked.volume.store 0 ∧
      ∀ info, b.describe digest = .ok info → ¬ Garbles chunked.volume.readBack content := by
    rintro b digest content ⟨hload, -, -⟩
    cases hload
    refine ⟨fun hparts => hparts, fun info _ => ?_⟩
    rintro ⟨n, e, hback, -⟩
    cases hback
  obtain ⟨hread, hhttp⟩ :=
    (client_gets_requested_content chunked (onlyOf_sha256 [7, 8, 9])).mpr hsafe
  exact ⟨⟨by decide +kernel, hread chunked ⟨rfl, rfl, rfl⟩ "d" _⟩, by decide +kernel,
    (hhttp chunked ⟨rfl, rfl, rfl⟩ rfl (DownloadCall.getRequest "d") none).1 ⟨"sha256", "d"⟩ rfl⟩

def retrying (content : Bytes) : Fetch :=
  .write content fun _ err => if err.isNone then .done else .write content fun _ _ => .done

def retried : DownloadCall :=
  downloadOf [7, 8] (retrying [7, 8])
    ⟨goodDisk, fun i => if i = 0 then some (1, .new "no space left on device") else none, none⟩

def unreadable : DownloadCall :=
  downloadOf (List.replicate 200 7) (copying [List.replicate 200 7])
    ⟨goodDisk, fun _ => none, some (10, .new "input/output error")⟩

-- A write that failed halfway and is made again is twice in the file and once in the hash.
-- A file that can be read no further leaves the text of an error in the body.
theorem other_bytes_sent : (retried.read "d" (fun _ => none) = ([[7, 7, 8]], .finished) ∧
      (retried.serveHTTP parseSha256 (DownloadCall.getRequest "d") (.fresh none)).content = [7, 7, 8] ∧
      ∀ content, retried.sha256Hex content = "d" → ¬ [7, 7, 8] <+: content) ∧
    ((unreadable.serveHTTP parseSha256 (DownloadCall.getRequest "d") (.fresh none)).content
        = replicate 10 7 ++ errorText ∧
      ∀ content, unreadable.sha256Hex content = "d" →
        ¬ replicate 10 7 ++ errorText <+: content) := by
  have honly : ∀ {content b : Bytes}, onlyOf content b = "d" → b = content := by
    intro content b h
    by_contra hne
    simp [onlyOf, hne] at h
  refine ⟨⟨by decide +kernel, by decide +kernel, fun content hdigest => ?_⟩, by decide +kernel,
    fun content hdigest => ?_⟩
  · rw [honly hdigest]
    decide
  · rw [honly hdigest]
    decide +kernel

end Chainloop.Cas
