import Chainloop.Action.AttestationAdd
import Chainloop.Go.Paths

namespace Chainloop.Trace

open Go Materials
open Policies (quote)

-- What an adder answers to a file under a valid name. Storing can come before an
-- error: the state is written first and the material converted for display after.
inductive Reply where
  | stored (digest : String)
  | failed (e : GoError)
  | storedThenFailed (e : GoError)
deriving DecidableEq

def Reply.stores : Reply → Bool
  | .failed _ => false
  | _ => true

def Reply.succeeds : Reply → Bool
  | .stored _ => true
  | _ => false

-- specMaterialAdder.AddMaterial. The materials are a map, so a name in use gets the
-- new material.
def addMaterial {μ : Type} (reply : Reply) (name : String) (m : μ) (ms : Map String μ) :
    Except GoError String × Map String μ :=
  if isDNS1123 name = false then
    (.error (.new "must contain only lowercase letters, numbers, and hyphens."), ms)
  else match reply with
    | .stored digest => (.ok digest, ms.set name m)
    | .failed e => (.error e, ms)
    | .storedThenFailed e => (.error e, ms.set name m)

theorem addMaterial_materials {μ : Type} (reply : Reply) (name : String) (m : μ)
    (ms : Map String μ) :
    (addMaterial reply name m ms).2 =
      if isDNS1123 name && reply.stores then ms.set name m else ms := by
  unfold addMaterial
  cases isDNS1123 name <;> cases reply <;> rfl

theorem addMaterial_ok_iff {μ : Type} (reply : Reply) (name : String) (m : μ) (ms : Map String μ) :
    (∃ digest, (addMaterial reply name m ms).1 = .ok digest) ↔
      (isDNS1123 name && reply.succeeds) = true := by
  unfold addMaterial
  cases isDNS1123 name <;> cases reply <;> simp [Reply.succeeds]

structure Meta where
  role : String
  title : String
  description : String
deriving DecidableEq

structure Capture where
  fileName : String
  kind : String
  uri : String
  about : Meta
  capturedAt : String
  raw : Bytes
  verbatim : Bool
  metaRaw : Option Bytes
  sourceDigest : String
deriving DecidableEq

structure PastedImage where
  data : Bytes
  digest : String
  mediaType : String
  number : Nat
  timestamp : String
deriving DecidableEq

structure SkillUse where
  name : String
  firstUsedAt : String
  byModel : Nat
  byUser : Nat
  inSubagents : Nat
deriving DecidableEq

structure SessionSkill where
  use : SkillUse
  source : String
  copyDir : String
deriving DecidableEq

structure Package where
  definition : Bytes
  archive : Bytes
  oversize : Bool
deriving DecidableEq

structure SpecMetadata where
  source : String
  packageDigest : String
  invocationCount : Nat
  byModel : Nat
  byUser : Nat
  inSubagents : Nat
deriving DecidableEq

structure SpecEntry where
  kind : String
  about : Meta
  uri : String
  digest : String
  capturedAt : String
  metadata : Option SpecMetadata
deriving DecidableEq

abbrev RawSession := Map String (List Bytes)

structure Evidence where
  rawSession : RawSession
  spec : List SpecEntry
  warnings : List String
deriving DecidableEq

structure SessionEvidence where
  sessionID : String
  evidence : Evidence
  specs : List Capture
  skills : List SessionSkill
deriving DecidableEq

-- What a material holds: something from before, a spec or skill file, or the
-- evidence of a session.
inductive Content where
  | collected (artifact : String)
  | file (name : String) (data : Bytes)
  | evidence (sessionID : String) (document : Evidence)
deriving DecidableEq

structure Stored where
  kind : String
  annotations : Map String String
  content : Content
deriving DecidableEq

-- The digests of the stored spec files, and of the files their bodies came from.
abbrev Sources := Map String String

inductive Stage where
  | specs | pasted | skills
deriving DecidableEq

-- The disk, the secret scanner, the agent's provider and the adder. The name of a
-- spec or skill material is given out once in a push, and a session is added once.
structure World where
  mkdirTemp : String → Stage → Except GoError Unit
  redact : String → Bytes → Except GoError Bytes
  parse : Bytes → Option (String × Meta)
  parseMeta : Bytes → Meta
  htmlBody : Bytes → Option Bytes
  stageFile : String → Except GoError Unit
  digest : Bytes → String
  detectContentType : Bytes → String
  pastedImages : String → RawSession → List PastedImage
  replaceSpecCopies : String → Option (RawSession → Sources → RawSession)
  makePackage : String → Except GoError Package
  stageSkill : String → String → Except GoError Unit
  stagePackage : String → String → Except GoError Unit
  now : String
  writeEvidence : String → Except GoError Unit
  add : String → Reply
  addSession : String → Reply

structure Attestation where
  names : NameAllocator
  materials : Map String Stored
deriving DecidableEq

def evidenceKind : String := MaterialType.chainloopAiCodingSession.name

def specMaterialKind : String := MaterialType.evidence.name

def specAnnotationSession : String := "chainloop.spec.session_id"
def specAnnotationKind : String := "chainloop.spec.kind"
def specAnnotationURI : String := "chainloop.spec.uri"
def specAnnotationRole : String := "chainloop.spec.role"
def specAnnotationTitle : String := "chainloop.spec.title"
def specAnnotationDescription : String := "chainloop.spec.description"
def specAnnotationSkillContent : String := "chainloop.spec.skill.content"

def specKindImage : String := "image"
def specKindSkill : String := "skill"

def maxSpecSlugLen : Nat := 40

-- The first n bytes. What is left of a rune that the cut splits is no text, and no
-- name may hold it; it stands here as replacement characters.
def firstBytes : Nat → List Char → List Char
  | _, [] => []
  | n, c :: cs =>
    if c.utf8Size ≤ n then c :: firstBytes (n - c.utf8Size) cs
    else List.replicate n (Char.ofNat 0xfffd)

def shortID (sessionID : String) : String := String.ofList (firstBytes 6 sessionID.toList)

def evidenceName (sessionID : String) : String :=
  "ai-coding-session-" ++ replaceAll "_" "-" (shortID sessionID)

def specMaterialPrefix (sessionID : String) : String := "spec-" ++ shortID sessionID ++ "-"

def materialStem (name fallback : String) : String :=
  let stem := sanitizeMaterialName name
  let stem :=
    if maxSpecSlugLen < stem.length then
      trimRight (· == '-') (String.ofList (stem.toList.take maxSpecSlugLen))
    else stem
  if stem = "" then fallback else stem

def specMaterialName (sessionID fileName : String) : String :=
  specMaterialPrefix sessionID ++ materialStem (trimExt fileName) "source"

section Push

variable (w : World) (sessionID : String)

def redactCapture (c : Capture) : Except GoError Capture :=
  if c.verbatim then .ok c
  else do
    let doc ← wrapErr "scanning for secrets" (w.redact sessionID c.raw)
    match w.parse doc with
    | none => .error (.new "nothing left after redaction")
    | some (uri, about) => .ok { c with uri, about, raw := doc }

def redactMeta (raw : Bytes) : Meta :=
  match w.redact sessionID raw with
  | .error _ => ⟨"", "", ""⟩
  | .ok doc => w.parseMeta doc

def specFile (c : Capture) : Content :=
  let fileName := baseName c.fileName
  if c.verbatim then .file fileName c.raw
  else match w.htmlBody c.raw with
    | some body => .file (trimExt fileName ++ ".html") body
    | none => .file fileName c.raw

def specAnnotations (c : Capture) : Map String String :=
  [(specAnnotationURI, c.uri), (specAnnotationRole, c.about.role),
    (specAnnotationTitle, c.about.title), (specAnnotationDescription, c.about.description)].foldl
    (fun m e => if e.2 = "" then m else m.set e.1 e.2)
    (.ofList [(specAnnotationSession, sessionID), (specAnnotationKind, c.kind)])

def addSpecMaterial (name : String) (c : Capture) (ms : Map String Stored) :
    Except GoError String × Map String Stored :=
  match wrapErr "staging the file" (w.stageFile name) with
  | .error e => (.error e, ms)
  | .ok () =>
    addMaterial (w.add name) name ⟨specMaterialKind, specAnnotations sessionID c, specFile w c⟩ ms

def storeCapture (name : String) (c : Capture) (ms : Map String Stored) :
    Except GoError SpecEntry × Map String Stored :=
  match redactCapture w sessionID c with
  | .error e => (.error e, ms)
  | .ok redacted =>
    let redacted := match redacted.metaRaw with
      | none => redacted
      | some raw => { redacted with about := redactMeta w sessionID raw }
    let (digest, ms) := addSpecMaterial w sessionID name redacted ms
    (digest.map fun digest =>
      ⟨redacted.kind, redacted.about, redacted.uri, digest, redacted.capturedAt, none⟩, ms)

structure Attached where
  entries : List SpecEntry
  warnings : List String
  stored : List String
  sources : Sources
deriving DecidableEq

def Attached.none : Attached := ⟨[], [], [], .empty⟩

def addSources (sources : Sources) (c : Capture) (digest : String) : Sources :=
  let sources := sources.set (w.digest c.raw) digest
  if c.sourceDigest = "" then sources else sources.set c.sourceDigest digest

def attachSpec (r : Attached × Attestation) (c : Capture) : Attached × Attestation :=
  let (name, names) := allocateNamed r.2.names (specMaterialName sessionID c.fileName)
  match storeCapture w sessionID name c r.2.materials with
  | (.error _, ms) =>
    ({ r.1 with
        warnings := r.1.warnings ++ ["spec entry " ++ quote c.fileName ++ " was not recorded"] },
      ⟨names, ms⟩)
  | (.ok entry, ms) =>
    ({ r.1 with
        entries := r.1.entries ++ [entry]
        stored := r.1.stored ++ [c.fileName]
        sources := addSources w r.1.sources c entry.digest },
      ⟨names, ms⟩)

def attachSpecs (stage : Stage) (captures : List Capture) (att : Attestation) :
    Attached × Attestation :=
  if captures = [] then (.none, att)
  else match w.mkdirTemp sessionID stage with
    | .error e =>
      let warning := captures.length.repr ++ " spec entries were not recorded: " ++ e.message
      ({ Attached.none with warnings := [warning] }, att)
    | .ok () => captures.foldl (attachSpec w sessionID) (.none, att)

def imageExtensions : Map String String :=
  .ofList [("image/png", ".png"), ("image/jpeg", ".jpg"), ("image/gif", ".gif"),
    ("image/webp", ".webp")]

def imageExtension (img : PastedImage) : String :=
  match imageExtensions.get? img.mediaType with
  | some ext => ext
  | none => imageExtensions.getD (w.detectContentType img.data) ""

def pastedImageCaptures (raw : RawSession) (sources : Sources) : List Capture :=
  ((w.pastedImages sessionID raw).filter fun img => (sources.get? img.digest).isNone).map fun img =>
    { fileName := "pasted-image-" ++ img.number.repr ++ imageExtension w img
      kind := specKindImage
      uri := ""
      about := ⟨"", "Pasted image " ++ img.number.repr, ""⟩
      capturedAt := img.timestamp
      raw := img.data
      verbatim := true
      metaRaw := none
      sourceDigest := "" }

def replaceSpecCopies (raw : RawSession) (sources : Sources) : RawSession :=
  match w.replaceSpecCopies sessionID with
  | none => raw
  | some replacer => if sources.size = 0 ∨ raw.size = 0 then raw else replacer raw sources

def skillAnnotations (s : SessionSkill) (content : String) : Map String String :=
  .ofList [(specAnnotationSession, sessionID), (specAnnotationKind, specKindSkill),
    (specAnnotationTitle, s.use.name), (specAnnotationSkillContent, content)]

def storePackage (base stem : String) (s : SessionSkill) (pkg : Package) (att : Attestation) :
    String × Option String × Attestation :=
  if pkg.oversize then
    ("", some ("the package of skill " ++ quote s.use.name ++
      " is larger than 5 MB and was not uploaded"), att)
  else
    let failed := some ("the package of skill " ++ quote s.use.name ++ " was not uploaded")
    match w.stagePackage sessionID s.use.name with
    | .error _ => ("", failed, att)
    | .ok () =>
      let (name, names) := allocateNamed att.names (base ++ "-pkg")
      let file := .file (stem ++ ".tar.gz") pkg.archive
      match addMaterial (w.add name) name
          ⟨specMaterialKind, skillAnnotations sessionID s "package", file⟩ att.materials with
      | (.error _, ms) => ("", failed, ⟨names, ms⟩)
      | (.ok digest, ms) => (digest, none, ⟨names, ms⟩)

def skillEntry (s : SessionSkill) (digest packageDigest : String) : SpecEntry :=
  { kind := specKindSkill
    about := ⟨"", s.use.name, ""⟩
    uri := ""
    digest
    capturedAt := if s.use.firstUsedAt = "" then w.now else s.use.firstUsedAt
    metadata := some
      { source := s.source
        packageDigest
        invocationCount := s.use.byModel + s.use.byUser
        byModel := s.use.byModel
        byUser := s.use.byUser
        inSubagents := s.use.inSubagents } }

def storeSkill (s : SessionSkill) (att : Attestation) :
    Except GoError (SpecEntry × Option String) × Attestation :=
  match w.makePackage s.copyDir, wrapErr "staging the skill" (w.stageSkill sessionID s.use.name) with
  | .error e, _ => (.error e, att)
  | .ok _, .error e => (.error e, att)
  | .ok pkg, .ok () =>
    let stem := materialStem s.use.name "skill"
    let base := specMaterialPrefix sessionID ++ "skill-" ++ stem
    let (name, names) := allocateNamed att.names base
    match addMaterial (w.add name) name
        ⟨specMaterialKind, skillAnnotations sessionID s "definition", .file "SKILL.md" pkg.definition⟩
        att.materials with
    | (.error e, ms) => (.error e, ⟨names, ms⟩)
    | (.ok digest, ms) =>
      let (packageDigest, warning, att) := storePackage w sessionID base stem s pkg ⟨names, ms⟩
      (.ok (skillEntry w s digest packageDigest, warning), att)

def attachSkill (r : (List SpecEntry × List String) × Attestation) (s : SessionSkill) :
    (List SpecEntry × List String) × Attestation :=
  match storeSkill w sessionID s r.2 with
  | (.error _, att) =>
    ((r.1.1, r.1.2 ++ ["skill " ++ quote s.use.name ++ " was not recorded"]), att)
  | (.ok (entry, warning), att) => ((r.1.1 ++ [entry], r.1.2 ++ warning.toList), att)

def attachSkills (skills : List SessionSkill) (att : Attestation) :
    (List SpecEntry × List String) × Attestation :=
  if skills = [] then (([], []), att)
  else match w.mkdirTemp sessionID .skills with
    | .error e =>
      (([], [skills.length.repr ++ " skill entries were not recorded: " ++ e.message]), att)
    | .ok () => skills.foldl (attachSkill w sessionID) (([], []), att)

def addSessionEvidence (name : String) (evidence : Evidence) (ms : Map String Stored) :
    Except GoError String × Map String Stored :=
  match w.writeEvidence sessionID with
  | .error e => (.error e, ms)
  | .ok () =>
    addMaterial (w.addSession sessionID) name
      ⟨evidenceKind, .empty, .evidence sessionID evidence⟩ ms

end Push

structure Push where
  attestation : Attestation
  attestedSessions : List String
  attestedSpecs : Map String (List String)
deriving DecidableEq

def attachSession (w : World) (p : Push) (se : SessionEvidence) : Push :=
  let id := se.sessionID
  let (specs, att) := attachSpecs w id .specs se.specs p.attestation
  let captures := pastedImageCaptures w id se.evidence.rawSession specs.sources
  let (pasted, att) := attachSpecs w id .pasted captures att
  let sources := Map.copy specs.sources pasted.sources
  let raw := replaceSpecCopies w id se.evidence.rawSession sources
  let (skills, att) := attachSkills w id se.skills att
  let evidence : Evidence :=
    { rawSession := raw
      spec := specs.entries ++ pasted.entries ++ skills.1
      warnings := se.evidence.warnings ++ specs.warnings ++ pasted.warnings ++ skills.2 }
  match addSessionEvidence w id (evidenceName id) evidence att.materials with
  | (.error _, ms) => { p with attestation := ⟨att.names, ms⟩ }
  | (.ok _, ms) =>
    ⟨⟨att.names, ms⟩, p.attestedSessions ++ [id], p.attestedSpecs.set id specs.stored⟩

-- The materials of an initialised attestation: none is a session yet.
structure Initialized where
  materials : Map String Stored
  collected : ∀ name m, materials.get? name = some m → ∃ artifact, m.content = .collected artifact

def Initialized.start (init : Initialized) : Push := ⟨⟨newNameAllocator [], init.materials⟩, [], .empty⟩

def attachSessionEvidence (w : World) (init : Initialized) (sessions : List SessionEvidence) : Push :=
  sessions.foldl (attachSession w) init.start

end Chainloop.Trace
