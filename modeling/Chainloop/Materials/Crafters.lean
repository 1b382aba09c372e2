import Chainloop.Api.Material
import Chainloop.Crafter.State

namespace Chainloop.Crafters

open Go Api

abbrev Hex := {s : String // ':' ∉ s.toList}

def digestText (hex : Hex) : String := "sha256" ++ ":" ++ hex.val

structure CASBackend where
  name : String
  maxSize : Nat
  uploader : Option (Bytes → Except GoError Unit)

-- What a crafter finds under the value it is given: the text itself, what a registry
-- or a layout says of an image, or a file. An SBOM file may name a main component.
inductive Source where
  | string (value : String)
  | image (image : ContainerImage) (digest : Hex)
  | file (filename : String) (content emptyContentFallback : Bytes)
  | sbom (filename : String) (content : Bytes) (mainComponent : Option MainComponent)

def annotationMaterialSize : String := "chainloop.material.size"

def baseUploadAndCraft (message : String) : GoError :=
  ⟨"upload and craft error: " ++ message, [.uploadAndCraft]⟩

def resolveContent (content emptyContentFallback : Bytes) : Except GoError Bytes :=
  if content ≠ [] then .ok content
  else if emptyContentFallback = [] then .error (baseUploadAndCraft "file is empty")
  else .ok emptyContentFallback

def stringCraft (sha256 : Bytes → Hex) (input : SchemaMaterial) (value : String) : Api.Material where
  id := ""
  payload := some (.string value (digestText (sha256 (bytes value))))
  materialType := input.type
  uploadedToCas := false
  inlineCas := false
  annotations := Map.empty.set annotationMaterialSize (toString (bytes value).length)

def ociImageCraft (input : SchemaMaterial) (image : ContainerImage) (digest : Hex) :
    Api.Material where
  id := ""
  payload := some (.containerImage
    { image with digest := digestText digest, isSubject := input.output })
  materialType := input.type
  uploadedToCas := false
  inlineCas := false
  annotations := .empty

def uploadAndCraft (sha256 : Bytes → Hex) (input : SchemaMaterial) (skipUpload : Bool)
    (backend : CASBackend) (filename : String) (content emptyContentFallback : Bytes) :
    Except GoError Api.Material := do
  let content ← resolveContent content emptyContentFallback
  if !skipUpload && backend.maxSize > 0 && content.length > backend.maxSize then
    throw (baseUploadAndCraft ("this file is too big for the " ++ backend.name ++
      " CAS backend, please contact your administrator"))
  let artifact : Artifact := ⟨filename, digestText (sha256 content), input.output, []⟩
  let material : Api.Material :=
    { id := ""
      payload := some (.artifact artifact)
      materialType := input.type
      uploadedToCas := false
      inlineCas := false
      annotations := Map.empty.set annotationMaterialSize (toString content.length) }
  if skipUpload then return material
  match backend.uploader with
  | some upload =>
    match upload content with
    | .error e => throw (baseUploadAndCraft ("uploading material: " ++ e.message))
    | .ok () => return { material with uploadedToCas := true }
  | none =>
    return { material with
      inlineCas := true
      payload := some (.artifact { artifact with content := content }) }

-- The SBOM crafters put the artifact of a file into another message.
def sbomCraft (mainComponent : Option MainComponent) (m : Api.Material) : Api.Material :=
  match m.payload with
  | some (.artifact a) => { m with payload := some (.sbomArtifact (some a) mainComponent) }
  | _ => m

def craftSource (sha256 : Bytes → Hex) (input : SchemaMaterial) (skipUpload : Bool)
    (backend : CASBackend) : Source → Except GoError Api.Material
  | .string value => .ok (stringCraft sha256 input value)
  | .image image digest => .ok (ociImageCraft input image digest)
  | .file filename content emptyContentFallback =>
    uploadAndCraft sha256 input skipUpload backend filename content emptyContentFallback
  | .sbom filename content mainComponent =>
    sbomCraft mainComponent <$> uploadAndCraft sha256 input skipUpload backend filename content []

-- The fields of the material message that must not be empty.
def requiredFields (m : Api.Material) : List (String × String) :=
  ("id", m.id) :: match m.payload with
    | some (.string value digest) => [("string.value", value), ("string.digest", digest)]
    | some (.containerImage image) =>
      [("container_image.name", image.name), ("container_image.digest", image.digest)]
    | some (.artifact a) => [("artifact.name", a.name), ("artifact.digest", a.digest)]
    | some (.sbomArtifact (some a) _) =>
      [("sbom_artifact.artifact.name", a.name), ("sbom_artifact.artifact.digest", a.digest)]
    | _ => []

def validateMaterial (m : Api.Material) : Except GoError Unit :=
  match (requiredFields m).find? fun field => field.2 == "" with
  | some field => .error ⟨"validation error: " ++ field.1 ++
      ": value length must be at least 1 characters", [.validation]⟩
  | none => .ok ()

-- What materials.Craft and stageMaterial add to a crafted material: its name, the
-- annotations of the contract, then those given at runtime. None may be left without
-- a value.
def annotate (input : SchemaMaterial) (runtimeAnnotations : Map String String) (m : Api.Material) :
    Except GoError Api.Material := do
  let contract := input.annotations.foldl (fun m a => m.set a.1 a.2) m.annotations
  let annotations := Crafting.addRuntimeAnnotations contract runtimeAnnotations
  match annotations.entries.find? fun e => e.2 == "" with
  | some e => throw (.new ("annotations [" ++ Policies.quote e.1 ++ "] required for material " ++
      Policies.quote input.name))
  | none =>
    let m := { m with id := input.name, annotations := annotations }
    wrapErr "validation error" (validateMaterial m)
    return m

def stageSource (sha256 : Bytes → Hex) (input : SchemaMaterial) (skipUpload : Bool)
    (backend : CASBackend) (source : Source) (runtimeAnnotations : Map String String) :
    Except GoError Api.Material := do
  let m ← wrapErr "crafting material" (craftSource sha256 input skipUpload backend source)
  annotate input runtimeAnnotations m

-- A crafted material: what its payload, type, flags and annotations have to do with
-- each other.
structure Crafted (m : Api.Material) : Prop where
  string_iff : m.materialType = .string ↔ ∃ value digest, m.payload = some (.string value digest)
  output : ∃ n hex, m.normalizedOutput = .ok n ∧ n.digest = digestText hex
  required : ∀ field ∈ requiredFields m, field.2 ≠ ""
  annotated : ∀ e ∈ m.annotations.entries, e.2 ≠ ""
  oneFlag : (m.uploadedToCas && m.inlineCas) = false
  noFlags : m.artifact? = none → m.uploadedToCas = false ∧ m.inlineCas = false

variable {input : SchemaMaterial}

theorem uploadAndCraft_spec {m : Api.Material}
    (h : uploadAndCraft sha256 input skipUpload backend filename content fallback = .ok m) :
    m.materialType = input.type ∧ (m.uploadedToCas && m.inlineCas) = false ∧
      ∃ a hex, m.payload = some (.artifact a) ∧ a.digest = digestText hex := by
  obtain ⟨stored, _, h⟩ := bind_eq_ok.mp h
  simp only at h
  split at h
  · cases h
  · split at h
    · cases h
      exact ⟨rfl, rfl, _, sha256 stored, rfl, rfl⟩
    · split at h
      · split at h
        · cases h
        · cases h
          exact ⟨rfl, rfl, _, sha256 stored, rfl, rfl⟩
      · cases h
        exact ⟨rfl, rfl, _, sha256 stored, rfl, rfl⟩

theorem annotate_spec {m' : Api.Material}
    (h : annotate input runtimeAnnotations m = .ok m') :
    (∃ annotations, m' = { m with id := input.name, annotations := annotations }) ∧
      (∀ field ∈ requiredFields m', field.2 ≠ "") ∧ ∀ e ∈ m'.annotations.entries, e.2 ≠ "" := by
  unfold annotate at h
  simp only at h
  split at h
  · cases h
  · next hfilled =>
      obtain ⟨_, hvalid, h⟩ := bind_eq_ok.mp h
      cases h
      rw [validateMaterial] at hvalid
      split at hvalid
      · cases hvalid
      · next hrequired =>
          refine ⟨⟨_, rfl⟩, ?_, ?_⟩
          · exact fun field hfield => by simpa using List.find?_eq_none.mp hrequired field hfield
          · exact fun e he => by simpa using List.find?_eq_none.mp hfilled e he

theorem stageSource_crafted
    (htype : input.type = .string ↔ ∃ value, source = .string value)
    (h : stageSource sha256 input skipUpload backend source runtimeAnnotations = .ok m) :
    Crafted m := by
  obtain ⟨crafted, hcraft, h⟩ := bind_eq_ok.mp h
  rw [wrapErr_eq_ok] at hcraft
  obtain ⟨⟨annotations, rfl⟩, hrequired, hannotated⟩ := annotate_spec h
  cases source with
  | string value =>
    cases hcraft
    exact ⟨⟨fun _ => ⟨_, _, rfl⟩, fun _ => htype.mpr ⟨value, rfl⟩⟩, ⟨_, _, rfl, rfl⟩, hrequired,
      hannotated, rfl, fun _ => ⟨rfl, rfl⟩⟩
  | image image digest =>
    cases hcraft
    refine ⟨⟨fun hstring => ?_, fun ⟨_, _, hpayload⟩ => by cases hpayload⟩, ⟨_, _, rfl, rfl⟩,
      hrequired, hannotated, rfl, fun _ => ⟨rfl, rfl⟩⟩
    obtain ⟨_, hsource⟩ := htype.mp hstring
    cases hsource
  | file filename content fallback =>
    obtain ⟨hmaterial, hflag, a, hex, hpayload, hdigest⟩ := uploadAndCraft_spec hcraft
    refine ⟨⟨fun hstring => ?_, fun ⟨_, _, h⟩ => ?_⟩, ⟨a.normalized, hex, ?_, hdigest⟩, hrequired,
      hannotated, hflag, fun hnone => ?_⟩
    · obtain ⟨_, hsource⟩ := htype.mp (hmaterial.symm.trans hstring)
      cases hsource
    · cases hpayload.symm.trans h
    · simp [Api.Material.normalizedOutput, hpayload]
    · simp [Api.Material.artifact?, hpayload] at hnone
  | sbom filename content mainComponent =>
    obtain ⟨file, hfile, rfl⟩ := map_eq_ok.mp hcraft
    obtain ⟨hmaterial, hflag, a, hex, hpayload, hdigest⟩ := uploadAndCraft_spec hfile
    have hsbom : sbomCraft mainComponent file =
        { file with payload := some (.sbomArtifact (some a) mainComponent) } := by
      simp [sbomCraft, hpayload]
    rw [hsbom] at hrequired ⊢
    refine ⟨⟨fun hstring => ?_, fun ⟨_, _, h⟩ => by cases h⟩, ⟨a.normalized, hex, rfl, hdigest⟩,
      hrequired, hannotated, hflag, fun hnone => by cases hnone⟩
    obtain ⟨_, hsource⟩ := htype.mp (hmaterial.symm.trans hstring)
    cases hsource

end Chainloop.Crafters
