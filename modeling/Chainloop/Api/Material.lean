import Chainloop.Go.Run
import Chainloop.Intoto.Descriptor
import Chainloop.Schema

namespace Chainloop.Api

open Go Structpb Intoto Map

structure MainComponent where
  name : String
  version : String
  kind : String
deriving DecidableEq

structure Artifact where
  name : String
  digest : String
  isSubject : Bool
  content : Bytes
deriving DecidableEq

structure ContainerImage where
  name : String
  digest : String
  isSubject : Bool
  tag : String
  signatureDigest : String
  signatureProvider : String
  signature : String
  hasLatestTag : Bool
deriving DecidableEq

inductive Payload where
  | string (value digest : String)
  | containerImage (image : ContainerImage)
  | artifact (a : Artifact)
  | sbomArtifact (a : Option Artifact) (mainComponent : Option MainComponent)
deriving DecidableEq

structure Material where
  id : String
  payload : Option Payload
  materialType : MaterialType
  uploadedToCas : Bool
  inlineCas : Bool
  annotations : Map String String
deriving DecidableEq

def annotationPrefix : String := "chainloop."

def createAnnotation (name : String) : String := annotationPrefix ++ name

def annotationMaterialType : String := createAnnotation "material.type"
def annotationMaterialName : String := createAnnotation "material.name"
def annotationMaterialSignature : String := createAnnotation "material.signature"
def annotationSignatureDigest : String := createAnnotation "material.signature.digest"
def annotationSignatureProvider : String := createAnnotation "material.signature.provider"
def annotationMaterialCAS : String := createAnnotation "material.cas"
def annotationMaterialInlineCAS : String := createAnnotation "material.cas.inline"
def annotationContainerTag : String := createAnnotation "material.image.tag"
def annotationsContainerLatestTag : String := createAnnotation "material.image.is_latest_tag"
def annotationsSBOMMainComponentName : String := createAnnotation "material.sbom.main_component.name"
def annotationsSBOMMainComponentType : String := createAnnotation "material.sbom.main_component.type"
def annotationsSBOMMainComponentVersion : String :=
  createAnnotation "material.sbom.main_component.version"

structure NormalizedMaterialOutput where
  name : String
  digest : String
  isOutput : Bool
  content : Bytes
deriving DecidableEq

def Artifact.normalized (a : Artifact) : NormalizedMaterialOutput :=
  ⟨a.name, a.digest, a.isSubject, a.content⟩

namespace Material

def artifact? (m : Material) : Option Artifact :=
  match m.payload with
  | some (.artifact a) => some a
  | some (.sbomArtifact a _) => a
  | _ => none

-- An SBOM without its artifact is a nil dereference.
def normalizedOutput (m : Material) : Run NormalizedMaterialOutput :=
  match m.payload with
  | some (.containerImage a) => .ok ⟨a.name, a.digest, a.isSubject, []⟩
  | some (.string value digest) => .ok ⟨"", digest, false, bytes value⟩
  | some (.artifact a) => .ok a.normalized
  | some (.sbomArtifact (some a) _) => .ok a.normalized
  | some (.sbomArtifact none _) => .error .panic
  | none => .error (.error (.new ("unknown material: " ++ m.materialType.name)))

def setNonEmpty (annotations : Map String Value) (k v : String) : Map String Value :=
  if v = "" then annotations else annotations.set k (.string v)

def payloadAnnotations (m : Material) (annotations : Map String Value) : Map String Value :=
  match m.payload with
  | some (.containerImage image) =>
    let annotations := setNonEmpty annotations annotationContainerTag image.tag
    let annotations := setNonEmpty annotations annotationSignatureDigest image.signatureDigest
    let annotations := setNonEmpty annotations annotationSignatureProvider image.signatureProvider
    let annotations := setNonEmpty annotations annotationMaterialSignature image.signature
    annotations.set annotationsContainerLatestTag (.bool image.hasLatestTag)
  | some (.sbomArtifact _ (some mainComponent)) =>
    ((annotations.set annotationsSBOMMainComponentName (.string mainComponent.name)).set
      annotationsSBOMMainComponentType (.string mainComponent.kind)).set
      annotationsSBOMMainComponentVersion (.string mainComponent.version)
  | _ => annotations

-- Custom annotations do not override the built-in ones.
def addCustom (annotations : Map String Value) (custom : Map String String) : Map String Value :=
  custom.entries.foldl (fun annotations e =>
    match annotations.get? e.1 with
    | some _ => annotations
    | none => annotations.set e.1 (.string e.2)) annotations

def addFlags (m : Material) (annotations : Map String Value) : Map String Value :=
  if m.uploadedToCas then annotations.set annotationMaterialCAS (.bool true)
  else if m.inlineCas then annotations.set annotationMaterialInlineCAS (.bool true)
  else annotations

def builtinAnnotations (m : Material) (name : String) : Map String Value :=
  m.payloadAnnotations ((empty.set annotationMaterialType (.string m.materialType.name)).set
    annotationMaterialName (.string name))

-- structpb.NewStruct refuses only texts that are no UTF-8.
def descriptorAnnotations (m : Material) (name : String) : Map String Value :=
  m.addFlags (addCustom (m.builtinAnnotations name) m.annotations)

def craftingStateToIntotoDescriptor (m : Material) (name : String) : Run ResourceDescriptor := do
  let nMaterial ← m.normalizedOutput.wrapErr "error normalizing material"
  let name := if name = "" then m.id else name
  let annotations := m.descriptorAnnotations name
  if nMaterial.digest ≠ "" then
    let parts := splitString ":" nMaterial.digest
    let algorithm ← Run.index parts 0
    let hex ← Run.index parts 1
    return ⟨nMaterial.name, "", empty.set algorithm hex, nMaterial.content, annotations⟩
  else
    let content := if m.materialType = .string then nMaterial.content else []
    return ⟨"", "", .empty, content, annotations⟩

theorem craftingStateToIntotoDescriptor_spec {m : Material} {d : ResourceDescriptor}
    (h : m.craftingStateToIntotoDescriptor name = .ok d) :
    d.annotations = m.descriptorAnnotations (if name = "" then m.id else name) ∧
      ∃ n, m.normalizedOutput = .ok n ∧ (n.digest = "" → d.digest = .empty) ∧
        (n.digest ≠ "" → d.name = n.name ∧
          ∃ algorithm hex, d.digest = empty.set algorithm hex) := by
  obtain ⟨n, hn, h⟩ := bind_eq_ok.mp h
  rw [Run.wrapErr_eq_ok] at hn
  simp only at h
  split at h
  · next hdigest =>
      obtain ⟨algorithm, _, h⟩ := bind_eq_ok.mp h
      obtain ⟨hex, _, h⟩ := bind_eq_ok.mp h
      cases h
      exact ⟨rfl, n, hn, fun hempty => absurd hempty hdigest, fun _ => ⟨rfl, algorithm, hex, rfl⟩⟩
  · next hdigest =>
      cases h
      exact ⟨rfl, n, hn, fun _ => rfl, fun hne => absurd hne hdigest⟩

end Material

end Chainloop.Api
