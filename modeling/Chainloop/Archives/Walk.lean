import Chainloop.Go.Lockstep
import Chainloop.Go.Stream
import Chainloop.Go.Strings

namespace Chainloop.Archives

open Go Nat

inductive Format where
  | none | zip | tar | tarGz
deriving DecidableEq

-- DetectBytes: the magic bytes of the containers.
def detectBytes (data : List UInt8) : Format :=
  if [0x50, 0x4b, 0x03, 0x04].isPrefixOf data || [0x50, 0x4b, 0x05, 0x06].isPrefixOf data then .zip
  else if [0x1f, 0x8b].isPrefixOf data then .tarGz
  else if 262 ≤ data.length && (data.drop 257).take 5 == [0x75, 0x73, 0x74, 0x61, 0x72] then .tar
  else .none

def magicPeek : Nat := 512

def detectFile (content : List UInt8) : Format := detectBytes (content.take magicPeek)

theorem detectFile_eq (content : List UInt8) : detectFile content = detectBytes content := by
  have hmagicAt (magic : List UInt8) : magic.length ≤ magicPeek →
      magic.isPrefixOf (content.take magicPeek) = magic.isPrefixOf content := by
    intro hmagic
    rw [Bool.eq_iff_iff, List.isPrefixOf_iff_prefix, List.isPrefixOf_iff_prefix, List.prefix_take_iff]
    exact and_iff_left hmagic
  have hmarker : ((content.take magicPeek).drop 257).take 5 = (content.drop 257).take 5 := by
    rw [List.drop_take, List.take_take]
    rfl
  have hlength : decide (262 ≤ (content.take magicPeek).length) = decide (262 ≤ content.length) := by
    rw [List.length_take, decide_eq_decide]
    unfold magicPeek
    omega
  unfold detectFile detectBytes
  rw [hmagicAt _ (by decide), hmagicAt _ (by decide), hmagicAt _ (by decide), hmarker, hlength]

structure Limits where
  maxEntries : Nat
  maxTotalSize : Nat
deriving DecidableEq

def errTooManyEntries : GoError := .new "archive exceeds the maximum number of entries"

def errArchiveTooLarge : GoError :=
  ⟨"archive exceeds the maximum uncompressed size", [.archiveTooLarge]⟩

def errUnsafeEntry : GoError := .new "unsafe entry path in archive"

-- path.Clean of a rooted path, element by element.
def cleanRooted (elements : List String) : List String :=
  elements.foldl (fun kept e =>
    if e = "" ∨ e = "." then kept else if e = ".." then kept.dropLast else kept ++ [e]) []

def hasWindowsDriveLetter (name : String) : Bool :=
  match name.toList with
  | c :: ':' :: _ => c.isAlpha
  | _ => false

def safePath (name : String) : Bool :=
  let normalized := replaceAll "\\" "/" name
  if startsWith normalized "/" || hasWindowsDriveLetter normalized then false
  else (cleanRooted (splitString "/" ("/root/" ++ normalized))).head? == some "root"

-- capReader: the bytes up to the bound, then an error instead of the byte behind it.
def capped (max : Nat) (s : Stream) : Stream :=
  if s.bytes.length ≤ max then s else ⟨s.bytes.take max, .failed errArchiveTooLarge⟩

structure ZipFile where
  name : String
  isDir : Bool
  symlink : Bool
  uncompressedSize : Nat
  content : Except GoError Stream

structure TarEntry where
  name : String
  regular : Bool
  size : Nat
  body : Stream
deriving DecidableEq

structure TarListing where
  entries : List TarEntry
  ending : Ending
deriving DecidableEq

-- The readers of the standard library as functions of the bytes they read.
structure Std where
  gzip : List UInt8 → Except GoError Stream
  zip : List UInt8 → Except GoError (List ZipFile)
  tar : Stream → TarListing

abbrev Visit (α : Type) := α → String → Stream → Except GoError (α × Nat)

structure Guard (α : Type) where
  value : α
  total : Nat
  count : Nat

section Walk

variable {α : Type} (limits : Limits) (visit : Visit α)

def consider (g : Guard α) (name : String) : Except GoError (Guard α) :=
  if safePath name = false then .error (.wrap errUnsafeEntry.message (.new ("\"" ++ name ++ "\"")))
  else if limits.maxEntries < g.count + 1 then .error errTooManyEntries
  else .ok { g with count := g.count + 1 }

def visitEntry (g : Guard α) (name : String) (body : Stream) : Except GoError (Guard α) :=
  (fun r => { g with value := r.1, total := g.total + r.2 }) <$>
    wrapErr ("processing entry \"" ++ name ++ "\"") (visit g.value name body)

-- Directories, symlinks and empty entries are counted and skipped.
def walkZipEntry (g : Guard α) (f : ZipFile) : Except GoError (Guard α) := do
  let g ← consider limits g f.name
  if f.isDir || f.symlink || f.uncompressedSize == 0 then return g
  let body ← wrapErr ("opening entry \"" ++ f.name ++ "\"") f.content
  visitEntry visit g f.name (capped (limits.maxTotalSize - g.total) body)

def walkZipEntries (files : List ZipFile) (init : α) : Except GoError α :=
  Guard.value <$> files.foldlM (walkZipEntry limits visit) ⟨init, 0, 0⟩

def TarEntry.qualifies (e : TarEntry) : Bool := e.regular && e.size != 0

def walkTarEntry (g : Guard α) (e : TarEntry) : Except GoError (Guard α) := do
  let g ← consider limits g e.name
  if e.qualifies then visitEntry visit g e.name e.body else return g

def walkTarEntries (listing : TarListing) (init : α) : Except GoError α := do
  let g ← listing.entries.foldlM (walkTarEntry limits visit) ⟨init, 0, 0⟩
  match listing.ending with
  | .eof => return g.value
  | .failed err => throw (if err.is .archiveTooLarge then err else err.wrap "reading tar")

-- A tar is one stream, and the bound holds for all of it.
def walkTarStream (std : Std) (src : Stream) (init : α) : Except GoError α :=
  walkTarEntries limits visit (std.tar (capped limits.maxTotalSize src)) init

def walk (std : Std) (data : List UInt8) (format : Format) (init : α) : Except GoError α :=
  match format with
  | .zip => do
    let files ← wrapErr "opening zip" (std.zip data)
    walkZipEntries limits visit files init
  | .tar => walkTarStream limits visit std (.ofBytes data) init
  | .tarGz => do
    let src ← wrapErr "opening gzip" (std.gzip data)
    walkTarStream limits visit std src init
  | .none => .error (.new "unsupported archive format")

end Walk

theorem capped_of_le {max : Nat} {s : Stream} (h : s.bytes.length ≤ max) : capped max s = s := if_pos h

theorem readAll_capped {max : Nat} (h : (capped max s).readAll = .ok data) : s = .ofBytes data := by
  unfold capped at h
  split_ifs at h
  · exact Stream.readAll_eq_ok_iff.mp h
  · cases h

section Spec

variable {α : Type} {limits : Limits} {visit : Visit α}

theorem consider_eq_ok_iff {g : Guard α} : consider limits g name = .ok g' ↔
      safePath name = true ∧ g.count < limits.maxEntries ∧ { g with count := g.count + 1 } = g' := by
  unfold consider
  split_ifs with hsafe hcount
  · simp [hsafe]
  · simp only [false_iff, not_and]
    omega
  · simp only [Bool.not_eq_false] at hsafe
    simp only [hsafe, Except.ok.injEq, true_and]
    exact (and_iff_right (by omega)).symm

def visitTar (visit : Visit α) (a : α) (e : TarEntry) : Except GoError α :=
  if e.qualifies then Prod.fst <$> visit a e.name e.body else .ok a

theorem walkTarEntry_eq_ok_iff {g : Guard α} {e : TarEntry} :
    (∃ total, walkTarEntry limits visit g e = .ok ⟨v, total, n⟩) ↔
      safePath e.name = true ∧ g.count < limits.maxEntries ∧ n = g.count + 1 ∧
        visitTar visit g.value e = .ok v := by
  unfold walkTarEntry visitTar visitEntry
  simp only [bind_eq_ok, consider_eq_ok_iff]
  cases e.qualifies with
  | false =>
    constructor
    · rintro ⟨total, g', ⟨hsafe, hcount, rfl⟩, h⟩
      cases h
      exact ⟨hsafe, hcount, rfl, rfl⟩
    · rintro ⟨hsafe, hcount, rfl, h⟩
      cases h
      exact ⟨g.total, _, ⟨hsafe, hcount, rfl⟩, rfl⟩
  | true =>
    simp only [↓reduceIte, map_eq_ok, wrapErr_eq_ok]
    constructor
    · rintro ⟨total, g', ⟨hsafe, hcount, rfl⟩, r, hr, h⟩
      cases h
      exact ⟨hsafe, hcount, rfl, r, hr, rfl⟩
    · rintro ⟨hsafe, hcount, rfl, r, hr, rfl⟩
      exact ⟨g.total + r.2, _, ⟨hsafe, hcount, rfl⟩, r, hr, rfl⟩

theorem walkTar_foldlM_eq_ok_iff {entries : List TarEntry} :
    ∀ {g : Guard α}, g.count ≤ limits.maxEntries →
      ((∃ g', entries.foldlM (walkTarEntry limits visit) g = .ok g' ∧ g'.value = v) ↔
        g.count + entries.length ≤ limits.maxEntries ∧ (∀ e ∈ entries, safePath e.name = true) ∧
          entries.foldlM (visitTar visit) g.value = .ok v) := by
  induction entries with
  | nil =>
    intro g hg
    constructor
    · rintro ⟨g', h, rfl⟩
      cases h
      exact ⟨hg, by simp, rfl⟩
    · rintro ⟨_, _, h⟩
      cases h
      exact ⟨g, rfl, rfl⟩
  | cons e rest ih =>
    intro g hg
    simp only [List.foldlM_cons, bind_eq_ok, List.forall_mem_cons, List.length_cons]
    constructor
    · rintro ⟨g', ⟨⟨a, total, count⟩, hentry, hrest⟩, hvalue⟩
      obtain ⟨hsafe, hcount, rfl, hvisit⟩ := walkTarEntry_eq_ok_iff.mp ⟨total, hentry⟩
      obtain ⟨hlength, hsafes, hvisits⟩ := (ih (succ_le_of_lt hcount)).mp ⟨g', hrest, hvalue⟩
      have hlength : g.count + 1 + rest.length ≤ limits.maxEntries := hlength
      exact ⟨by omega, ⟨hsafe, hsafes⟩, a, hvisit, hvisits⟩
    · rintro ⟨hlength, ⟨hsafe, hsafes⟩, a, hvisit, hvisits⟩
      have hcount : g.count < limits.maxEntries := by omega
      obtain ⟨total, hentry⟩ := walkTarEntry_eq_ok_iff.mpr ⟨hsafe, hcount, rfl, hvisit⟩
      have hlength : g.count + 1 + rest.length ≤ limits.maxEntries := by omega
      obtain ⟨g', hrest, hvalue⟩ := (ih (g := ⟨a, total, g.count + 1⟩) hcount).mpr
        ⟨hlength, hsafes, hvisits⟩
      exact ⟨g', ⟨_, hentry, hrest⟩, hvalue⟩

theorem walkTarEntries_eq_ok_iff {listing : TarListing} :
    walkTarEntries limits visit listing a = .ok v ↔
      listing.ending = .eof ∧ listing.entries.length ≤ limits.maxEntries ∧
        (∀ e ∈ listing.entries, safePath e.name = true) ∧
          listing.entries.foldlM (visitTar visit) a = .ok v := by
  have hfold : (∃ g', listing.entries.foldlM (walkTarEntry limits visit) ⟨a, 0, 0⟩ = .ok g' ∧
      g'.value = v) ↔ 0 + listing.entries.length ≤ limits.maxEntries ∧
        (∀ e ∈ listing.entries, safePath e.name = true) ∧
          listing.entries.foldlM (visitTar visit) a = .ok v :=
    walkTar_foldlM_eq_ok_iff (zero_le limits.maxEntries)
  rw [zero_add] at hfold
  rw [← hfold]
  unfold walkTarEntries
  rw [bind_eq_ok]
  cases listing.ending with
  | eof =>
    simp only [true_and]
    exact exists_congr fun g => and_congr_right fun _ => ⟨fun h => by cases h; rfl, fun h => by rw [h]; rfl⟩
  | failed err =>
    simp only [reduceCtorEq, false_and, iff_false]
    rintro ⟨g, _, h⟩
    cases h

end Spec

section Entries

def ZipFile.entry? (f : ZipFile) : Option (String × Stream) :=
  if f.isDir || f.symlink || f.uncompressedSize == 0 then none
  else f.content.toOption.map fun body => (f.name, body)

def TarEntry.entry? (e : TarEntry) : Option (String × Stream) :=
  if e.qualifies then some (e.name, e.body) else none

def tarEntries (limits : Limits) (std : Std) (src : Stream) : List (String × Stream) :=
  (std.tar (capped limits.maxTotalSize src)).entries.filterMap TarEntry.entry?

def archiveEntries (limits : Limits) (std : Std) (data : List UInt8) : Format → List (String × Stream)
  | .none => []
  | .zip => ((std.zip data).toOption.getD []).filterMap ZipFile.entry?
  | .tar => tarEntries limits std (.ofBytes data)
  | .tarGz => ((std.gzip data).toOption.map (tarEntries limits std)).getD []

variable {α : Type} {limits : Limits} {visit : Visit α} (I : List (String × Stream) → α → Prop)

def Visit.Keeps (visit : Visit α) : Prop :=
  ∀ done a name body max r, I done a → visit a name (capped max body) = .ok r →
    I (done ++ [(name, body)]) r.1

variable {I} (hvisit : visit.Keeps I)
include hvisit

variable {g g' : Guard α}

theorem visitEntry_keeps {name : String} {body : Stream} {max : Nat}
    {done : List (String × Stream)} (hdone : I done g.value)
    (h : visitEntry visit g name (capped max body) = .ok g') : I (done ++ [(name, body)]) g'.value := by
  obtain ⟨r, hr, rfl⟩ := map_eq_ok.mp h
  rw [wrapErr_eq_ok] at hr
  exact hvisit done g.value name body max r hdone hr

theorem walkZipEntry_keeps {done : List ZipFile}
    (hdone : I (done.filterMap ZipFile.entry?) g.value) (h : walkZipEntry limits visit g f = .ok g') :
    I ((done ++ [f]).filterMap ZipFile.entry?) g'.value := by
  obtain ⟨g₁, hg, h⟩ := bind_eq_ok.mp h
  obtain ⟨-, -, rfl⟩ := consider_eq_ok_iff.mp hg
  rw [List.filterMap_append]
  split_ifs at h with hskip
  · cases h
    simpa [ZipFile.entry?, hskip] using hdone
  · obtain ⟨body, hbody, h⟩ := bind_eq_ok.mp h
    rw [wrapErr_eq_ok] at hbody
    have hentry : [f].filterMap ZipFile.entry? = [(f.name, body)] := by
      simp [ZipFile.entry?, hskip, hbody, Except.toOption]
    rw [hentry]
    exact visitEntry_keeps (g := { g with count := g.count + 1 }) hvisit hdone h

theorem walkTarEntry_keeps {done : List TarEntry}
    (hdone : I (done.filterMap TarEntry.entry?) g.value)
    (h : walkTarEntry limits visit g e = .ok g') :
    I ((done ++ [e]).filterMap TarEntry.entry?) g'.value := by
  obtain ⟨g₁, hg, h⟩ := bind_eq_ok.mp h
  obtain ⟨-, -, rfl⟩ := consider_eq_ok_iff.mp hg
  rw [List.filterMap_append]
  split_ifs at h with hvisited
  · have hentry : [e].filterMap TarEntry.entry? = [(e.name, e.body)] := by
      simp [TarEntry.entry?, hvisited]
    rw [hentry]
    -- the bound is on the whole stream, so the body is its own capped body
    rw [← capped_of_le (le_refl e.body.bytes.length)] at h
    exact visitEntry_keeps (g := { g with count := g.count + 1 }) hvisit hdone h
  · cases h
    simpa [TarEntry.entry?, hvisited] using hdone

theorem walkTarStream_keeps (hinit : I [] init)
    (h : walkTarStream limits visit std src init = .ok v) : I (tarEntries limits std src) v := by
  obtain ⟨g, hg, h⟩ := bind_eq_ok.mp h
  have hstart : I (([] : List TarEntry).filterMap TarEntry.entry?) (Guard.mk init 0 0).value := hinit
  have hkept : I (tarEntries limits std src) g.value :=
    foldlM_invariant (fun done (g : Guard α) => I (done.filterMap TarEntry.entry?) g.value)
      (fun _ _ _ _ hdone he => walkTarEntry_keeps hvisit hdone he) hstart hg
  cases hending : (std.tar (capped limits.maxTotalSize src)).ending with rw [hending] at h
  | eof =>
    cases h
    exact hkept
  | failed err => cases h

theorem walk_keeps (hinit : I [] init) (h : walk limits visit std data format init = .ok v) :
    I (archiveEntries limits std data format) v := by
  cases format with
  | none => cases h
  | zip =>
    obtain ⟨files, hfiles, h⟩ := bind_eq_ok.mp h
    rw [wrapErr_eq_ok] at hfiles
    obtain ⟨g, hg, rfl⟩ := map_eq_ok.mp h
    have hstart : I (([] : List ZipFile).filterMap ZipFile.entry?) (Guard.mk init 0 0).value := hinit
    have hkept : I (files.filterMap ZipFile.entry?) g.value :=
      foldlM_invariant (fun done (g : Guard α) => I (done.filterMap ZipFile.entry?) g.value)
        (fun _ _ _ _ hdone hf => walkZipEntry_keeps hvisit hdone hf) hstart hg
    unfold archiveEntries
    rw [hfiles]
    exact hkept
  | tar => exact walkTarStream_keeps hvisit hinit h
  | tarGz =>
    obtain ⟨src, hsrc, h⟩ := bind_eq_ok.mp h
    rw [wrapErr_eq_ok] at hsrc
    unfold archiveEntries
    rw [hsrc]
    exact walkTarStream_keeps hvisit hinit h

end Entries

section Simulation

variable {α β : Type} (R : α → β → Prop) (limits : Limits) {visit : Visit α} {visit' : Visit β}

def Guard.Related (g : Guard α) (g' : Guard β) : Prop :=
  R g.value g'.value ∧ g.total = g'.total ∧ g.count = g'.count

def Visit.Related (visit : Visit α) (visit' : Visit β) : Prop :=
  ∀ a b name body, R a b →
    Lockstep (fun x y => R x.1 y.1 ∧ x.2 = y.2) (visit a name body) (visit' b name body)

variable {R} {g : Guard α} {g' : Guard β}

theorem consider_related (h : g.Related R g') (name : String) :
    Lockstep (Guard.Related R) (consider limits g name) (consider limits g' name) := by
  obtain ⟨hvalue, htotal, hcount⟩ := h
  unfold consider
  rw [hcount]
  refine .ite (fun _ => .error _) fun _ => .ite (fun _ => .error _) fun _ => .ok ?_
  exact ⟨hvalue, htotal, rfl⟩

variable (hvisit : Visit.Related R visit visit')
include hvisit

theorem visitEntry_related (h : g.Related R g') (name : String) (body : Stream) :
    Lockstep (Guard.Related R) (visitEntry visit g name body) (visitEntry visit' g' name body) := by
  obtain ⟨hvalue, htotal, hcount⟩ := h
  refine ((hvisit _ _ name body hvalue).wrapErr _).map fun x y hxy => ?_
  exact ⟨hxy.1, by rw [htotal, hxy.2], hcount⟩

theorem walkZipEntry_related (h : g.Related R g') (f : ZipFile) :
    Lockstep (Guard.Related R) (walkZipEntry limits visit g f) (walkZipEntry limits visit' g' f) := by
  refine (consider_related limits h f.name).bind fun a b hab => ?_
  refine .ite (fun _ => .ok hab) fun _ => ?_
  refine (Lockstep.refl _).bind fun body _ hbody => ?_
  rw [← hbody, hab.2.1]
  exact visitEntry_related hvisit hab f.name _

theorem walkTarEntry_related (h : g.Related R g') (e : TarEntry) :
    Lockstep (Guard.Related R) (walkTarEntry limits visit g e) (walkTarEntry limits visit' g' e) := by
  refine (consider_related limits h e.name).bind fun a b hab => ?_
  exact .ite (fun _ => visitEntry_related hvisit hab e.name e.body) fun _ => .ok hab

theorem walkTarEntries_related (h : R a b) (listing : TarListing) :
    Lockstep R (walkTarEntries limits visit listing a) (walkTarEntries limits visit' listing b) := by
  have hstart : Guard.Related R ⟨a, 0, 0⟩ ⟨b, 0, 0⟩ := ⟨h, rfl, rfl⟩
  refine (Lockstep.foldlM (fun _ _ e hg => walkTarEntry_related limits hvisit hg e) hstart).bind
    fun g g' hg => ?_
  cases listing.ending with
  | eof => exact .ok hg.1
  | failed err => exact .error _

theorem walk_related (h : R a b) (std : Std) (data : List UInt8) (format : Format) :
    Lockstep R (walk limits visit std data format a) (walk limits visit' std data format b) := by
  have hstart : Guard.Related R ⟨a, 0, 0⟩ ⟨b, 0, 0⟩ := ⟨h, rfl, rfl⟩
  cases format with
  | none => exact .error _
  | zip =>
    refine (Lockstep.refl _).bind fun files _ hfiles => ?_
    rw [← hfiles]
    exact (Lockstep.foldlM (fun _ _ f hg => walkZipEntry_related limits hvisit hg f) hstart).map
      fun _ _ hg => hg.1
  | tar => exact walkTarEntries_related limits hvisit h _
  | tarGz =>
    refine (Lockstep.refl _).bind fun src _ hsrc => ?_
    rw [← hsrc]
    exact walkTarEntries_related limits hvisit h _

end Simulation

end Chainloop.Archives
