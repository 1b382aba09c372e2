import Chainloop.Api.Material

namespace Chainloop.Renderer

open Go Structpb Api Intoto

structure Hash where
  algorithm : String
  hex : String
deriving DecidableEq

def Hash.toString (h : Hash) : String := h.algorithm ++ ":" ++ h.hex

structure ReferencedSourceComponent where
  type : String
  name : String
  version : String
deriving DecidableEq

structure NormalizedMaterial where
  name : String
  type : String
  filename : String
  value : Bytes
  hash : Option Hash
  tag : String
  uploadedToCAS : Bool
  embeddedInline : Bool
  annotations : Map String String
  referencedSourceComponent : Option ReferencedSourceComponent
deriving DecidableEq

-- GetStringValue and GetBoolValue give the zero value for another kind.
def getStringValue : Value → String
  | .string s => s
  | _ => ""

def getBoolValue : Value → Bool
  | .bool b => b
  | _ => false

-- The text of a number, a struct or a list comes from fmt and encoding/json (`print`).
def structValueToString (print : Value → String) : Value → String
  | .string s => s
  | .bool b => toString b
  | .null => ""
  | v => print v

def annotationText (annotations : Map String Value) (key : String) : String :=
  ((annotations.get? key).map getStringValue).getD ""

def annotationFlag (annotations : Map String Value) (key : String) : Bool :=
  ((annotations.get? key).map getBoolValue).getD false

-- Only a component with a name is referenced.
def referencedComponent (annotations : Map String Value) : Option ReferencedSourceComponent :=
  if annotationText annotations annotationsSBOMMainComponentName ≠ "" then
    some ⟨annotationText annotations annotationsSBOMMainComponentType,
      annotationText annotations annotationsSBOMMainComponentName,
      annotationText annotations annotationsSBOMMainComponentVersion⟩
  else none

-- Custom annotations and those of chainloop.
def annotationTexts (print : Value → String) (annotations : Map String Value) : Map String String :=
  .ofList (annotations.entries.map fun e => (e.1, structValueToString print e.2))

def sha256Of (material : ResourceDescriptor) : Option Hash :=
  (material.digest.get? "sha256").map fun hex => ⟨"sha256", hex⟩

-- A text: the value and no more.
def normalizedText (print : Value → String) (material : ResourceDescriptor) : NormalizedMaterial where
  name := annotationText material.annotations annotationMaterialName
  type := annotationText material.annotations annotationMaterialType
  filename := ""
  value := material.content
  hash := sha256Of material
  tag := ""
  uploadedToCAS := false
  embeddedInline := false
  annotations := annotationTexts print material.annotations
  referencedSourceComponent := none

-- Everything else. The value of an image is its name; an artifact has a file name
-- once it is stored, and then its content if it is stored inline.
def normalizedArtifact (print : Value → String) (material : ResourceDescriptor) :
    NormalizedMaterial :=
  let uploadedToCAS := annotationFlag material.annotations annotationMaterialCAS
  let embeddedInline := annotationFlag material.annotations annotationMaterialInlineCAS
  { name := annotationText material.annotations annotationMaterialName
    type := annotationText material.annotations annotationMaterialType
    filename := if embeddedInline || uploadedToCAS then material.name else ""
    value :=
      if embeddedInline then material.content
      else if uploadedToCAS then []
      else bytes material.name
    hash := sha256Of material
    tag := annotationText material.annotations annotationContainerTag
    uploadedToCAS := uploadedToCAS
    embeddedInline := embeddedInline
    annotations := annotationTexts print material.annotations
    referencedSourceComponent := referencedComponent material.annotations }

def normalizeMaterial (print : Value → String) (material : ResourceDescriptor) :
    Except GoError NormalizedMaterial :=
  if material.annotations.get? annotationMaterialType matches none then
    .error (.new "material type not found")
  else if material.annotations.get? annotationMaterialName matches none then
    .error (.new "material name not found")
  else if annotationText material.annotations annotationMaterialType = MaterialType.string.name then
    if material.content = [] then .error (.new "material content not found")
    else .ok (normalizedText print material)
  else if sha256Of material = none then .error (.new "material digest not found")
  else if material.name = "" then .error (.new "material name not found")
  else .ok (normalizedArtifact print material)

variable {material : ResourceDescriptor}

theorem normalizeMaterial_text
    (ht : material.annotations.get? annotationMaterialType = some t)
    (hn : material.annotations.get? annotationMaterialName = some n)
    (hstring : getStringValue t = MaterialType.string.name) (hcontent : material.content ≠ []) :
    normalizeMaterial print material = .ok (normalizedText print material) := by
  have htext : annotationText material.annotations annotationMaterialType
      = MaterialType.string.name := by simp [annotationText, ht, hstring]
  simp [normalizeMaterial, ht, hn, htext, hcontent]

theorem normalizeMaterial_artifact {print : Value → String}
    {t n : Value} {hash : Hash} (ht : material.annotations.get? annotationMaterialType = some t)
    (hn : material.annotations.get? annotationMaterialName = some n)
    (hother : getStringValue t ≠ MaterialType.string.name) (hhash : sha256Of material = some hash)
    (hname : material.name ≠ "") :
    normalizeMaterial print material = .ok (normalizedArtifact print material) := by
  have htext : annotationText material.annotations annotationMaterialType
      ≠ MaterialType.string.name := by simpa [annotationText, ht] using hother
  simp [normalizeMaterial, ht, hn, htext, hhash, hname]

end Chainloop.Renderer
