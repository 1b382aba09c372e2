import Chainloop.Materials.Crafters
import Chainloop.Renderer.Normalize

namespace Chainloop.Api.Material

open Go Structpb Map

def tag (m : Material) : String :=
  match m.payload with
  | some (.containerImage image) => image.tag
  | _ => ""

def mainComponent (m : Material) : Option MainComponent :=
  match m.payload with
  | some (.sbomArtifact _ mainComponent) => mainComponent
  | _ => none

def digest (m : Material) : String :=
  match m.normalizedOutput with
  | .ok n => n.digest
  | .error _ => ""

def storedValue (m : Material) : Bytes :=
  match m.payload, m.artifact? with
  | some (.string value _), _ => bytes value
  | some (.containerImage image), _ => bytes image.name
  | _, some a => if m.inlineCas then a.content else if m.uploadedToCas then [] else bytes a.name
  | _, none => []

theorem get?_addCustom (annotations : Map String Value) (custom : Map String String) (k : String) :
    (addCustom annotations custom).get? k
      = (annotations.get? k).or ((custom.get? k).map .string) := by
  unfold addCustom
  rw [show custom.get? k = custom.entries.lookup k from rfl]
  generalize custom.entries = entries
  induction entries generalizing annotations with
  | nil => simp
  | cons e rest ih =>
    rw [List.foldl_cons, ih, List.lookup_cons]
    by_cases hk : k = e.1
    · subst hk
      cases hget : annotations.get? e.1 with
      | some v => simp [hget]
      | none => simp
    · rw [beq_eq_false_iff_ne.mpr hk]
      cases hget : annotations.get? e.1 with
      | some v => rfl
      | none => simp [get?_set_ne annotations _ hk]

theorem get?_setNonEmpty (annotations : Map String Value) (k v j : String) :
    (setNonEmpty annotations k v).get? j = if v = "" then annotations.get? j
      else if j = k then some (.string v) else annotations.get? j := by
  unfold setNonEmpty
  by_cases hv : v = ""
  · simp [hv]
  · simp [hv, get?_set]

-- The built-in annotations under the keys that the normalizer reads.
structure Builtin (m : Material) (name : String) (annotations : Map String Value) : Prop where
  type : annotations.get? annotationMaterialType = some (.string m.materialType.name)
  name : annotations.get? annotationMaterialName = some (.string name)
  cas : annotations.get? annotationMaterialCAS = none
  inline : annotations.get? annotationMaterialInlineCAS = none
  tag : m.tag ≠ "" → annotations.get? annotationContainerTag = some (.string m.tag)
  noTag : m.tag = "" → annotations.get? annotationContainerTag = none
  componentName : annotations.get? annotationsSBOMMainComponentName
    = m.mainComponent.map fun c => .string c.name
  componentType : annotations.get? annotationsSBOMMainComponentType
    = m.mainComponent.map fun c => .string c.kind
  componentVersion : annotations.get? annotationsSBOMMainComponentVersion
    = m.mainComponent.map fun c => .string c.version

theorem builtinAnnotations_builtin (m : Material) (name : String) :
    Builtin m name (m.builtinAnnotations name) := by
  obtain ⟨id, payload, materialType, uploadedToCas, inlineCas, annotations⟩ := m
  rcases payload with _ | ⟨value, digest⟩ | image | a | ⟨a, _ | c⟩
  all_goals
    constructor <;> simp +contextual [builtinAnnotations, payloadAnnotations, tag, mainComponent, get?_set,
      get?_setNonEmpty, annotationMaterialType, annotationMaterialName, annotationMaterialSignature,
      annotationSignatureDigest, annotationSignatureProvider, annotationMaterialCAS,
      annotationMaterialInlineCAS, annotationContainerTag, annotationsContainerLatestTag,
      annotationsSBOMMainComponentName, annotationsSBOMMainComponentType,
      annotationsSBOMMainComponentVersion, createAnnotation, annotationPrefix]

theorem get?_descriptorAnnotations (m : Material) (name : String) (hcas : k ≠ annotationMaterialCAS)
    (hinline : k ≠ annotationMaterialInlineCAS) :
    (m.descriptorAnnotations name).get? k
      = ((m.builtinAnnotations name).get? k).or ((m.annotations.get? k).map .string) := by
  rw [← get?_addCustom, descriptorAnnotations, addFlags]
  split_ifs
  · exact get?_set_ne _ _ hcas
  · exact get?_set_ne _ _ hinline
  · rfl

theorem get?_descriptorAnnotations_cas (m : Material) (name : String) :
    (m.descriptorAnnotations name).get? annotationMaterialCAS
      = if m.uploadedToCas then some (.bool true)
        else (m.annotations.get? annotationMaterialCAS).map .string := by
  have hcustom := get?_addCustom (m.builtinAnnotations name) m.annotations annotationMaterialCAS
  rw [(m.builtinAnnotations_builtin name).cas, Option.none_or] at hcustom
  rw [← hcustom, descriptorAnnotations, addFlags]
  split_ifs
  · exact get?_set_self ..
  · exact get?_set_ne _ _ (by decide)
  · rfl

end Chainloop.Api.Material

namespace Chainloop.Renderer

open Go Structpb Api Intoto Crafters

variable {m : Api.Material} {name k s : String}

theorem annotationText_of_builtin (hcas : k ≠ annotationMaterialCAS)
    (hinline : k ≠ annotationMaterialInlineCAS)
    (h : (m.builtinAnnotations name).get? k = some (.string s)) :
    annotationText (m.descriptorAnnotations name) k = s := by
  rw [annotationText, m.get?_descriptorAnnotations name hcas hinline, h]
  rfl

theorem annotationText_of_custom (hcas : k ≠ annotationMaterialCAS)
    (hinline : k ≠ annotationMaterialInlineCAS) (h : (m.builtinAnnotations name).get? k = none) :
    annotationText (m.descriptorAnnotations name) k = m.annotations.getD k "" := by
  rw [annotationText, m.get?_descriptorAnnotations name hcas hinline, h, Map.getD]
  cases m.annotations.get? k <;> rfl

theorem annotationFlag_addCustom {annotations : Map String Value} (h : annotations.get? k = none) :
    annotationFlag (Api.Material.addCustom annotations m.annotations) k = false := by
  rw [annotationFlag, Api.Material.get?_addCustom, h]
  cases m.annotations.get? k <;> rfl

theorem annotationFlag_cas (m : Api.Material) (name : String) :
    annotationFlag (m.descriptorAnnotations name) annotationMaterialCAS = m.uploadedToCas := by
  rw [annotationFlag, m.get?_descriptorAnnotations_cas]
  cases m.uploadedToCas with
  | true => rfl
  | false => cases m.annotations.get? annotationMaterialCAS <;> rfl

theorem annotationFlag_inline (name : String) (h : (m.uploadedToCas && m.inlineCas) = false) :
    annotationFlag (m.descriptorAnnotations name) annotationMaterialInlineCAS = m.inlineCas := by
  have hcustom := annotationFlag_addCustom (m := m) (m.builtinAnnotations_builtin name).inline
  unfold Api.Material.descriptorAnnotations Api.Material.addFlags
  cases huploaded : m.uploadedToCas with
  | true =>
    have hne : annotationMaterialInlineCAS ≠ annotationMaterialCAS := by decide
    rw [huploaded, Bool.true_and] at h
    rw [annotationFlag] at hcustom ⊢
    simpa [h, Map.get?_set_ne _ _ hne] using hcustom
  | false =>
    cases m.inlineCas with
    | true => simp [annotationFlag, getBoolValue]
    | false => simpa using hcustom

theorem descriptor_of_crafted (hm : Crafted m) (name : String) :
    ∃ n hex, m.normalizedOutput = .ok n ∧ n.digest = digestText hex ∧
      m.craftingStateToIntotoDescriptor name = .ok ⟨n.name, "", Map.empty.set "sha256" hex.val,
        n.content, m.descriptorAnnotations (if name = "" then m.id else name)⟩ := by
  obtain ⟨n, hex, hn, hdigest⟩ := hm.output
  refine ⟨n, hex, hn, hdigest, ?_⟩
  have hne : n.digest ≠ "" := by
    rw [hdigest, digestText]
    intro h
    have hlist := congrArg String.toList h
    simp at hlist
  have hsplit : splitString ":" n.digest = ["sha256", hex.val] := by
    rw [hdigest]
    exact splitString_digest (by decide) hex.property
  unfold Api.Material.craftingStateToIntotoDescriptor
  simp [hn, hne, hsplit, Run.index, bind, Except.bind, pure, Except.pure]

-- The normalized material says of the crafted one what the latter holds.
structure RoundTrip (m : Api.Material) (name : String) (nm : NormalizedMaterial) : Prop where
  type : nm.type = m.materialType.name
  name : nm.name = if name = "" then m.id else name
  hash : nm.hash.map Hash.toString = some m.digest
  value : nm.value = m.storedValue
  uploaded : nm.uploadedToCAS = m.uploadedToCas
  inline : nm.embeddedInline = m.inlineCas
  tag : nm.tag = m.tag
  component : nm.referencedSourceComponent
    = m.mainComponent.map fun c => ⟨c.kind, c.name, c.version⟩

theorem getD_eq_empty_iff (hm : Crafted m) (k : String) :
    m.annotations.getD k "" = "" ↔ k ∉ m.annotations.keys := by
  rw [← Map.get?_eq_none_iff, Map.getD]
  cases hget : m.annotations.get? k with
  | none => simp
  | some v => simpa using hm.annotated (k, v) ((Map.get?_eq_some_iff ..).mp hget)

theorem tag_iff (hm : Crafted m) (name : String) :
    annotationText (m.descriptorAnnotations name) annotationContainerTag = m.tag ↔
      m.tag ≠ "" ∨ annotationContainerTag ∉ m.annotations.keys := by
  have hbuiltin := m.builtinAnnotations_builtin name
  by_cases htag : m.tag = ""
  · rw [annotationText_of_custom (by decide) (by decide) (hbuiltin.noTag htag), htag,
      getD_eq_empty_iff hm]
    simp
  · rw [annotationText_of_builtin (by decide) (by decide) (hbuiltin.tag htag)]
    simp [htag]

-- The main component that is read back is the material's own if it has a name, and
-- there is none to read if neither the material nor the user gives one.
theorem component_iff (hm : Crafted m) (name : String) :
    referencedComponent (m.descriptorAnnotations name)
      = m.mainComponent.map (fun c => ⟨c.kind, c.name, c.version⟩) ↔
      (∃ c, m.mainComponent = some c ∧ c.name ≠ "") ∨
        (m.mainComponent = none ∧ annotationsSBOMMainComponentName ∉ m.annotations.keys) := by
  have hbuiltin := m.builtinAnnotations_builtin name
  have hname := hbuiltin.componentName
  have htype := hbuiltin.componentType
  have hversion := hbuiltin.componentVersion
  unfold referencedComponent
  cases hcomponent : m.mainComponent with
  | some c =>
    rw [hcomponent] at hname htype hversion
    rw [annotationText_of_builtin (by decide) (by decide) hname,
      annotationText_of_builtin (by decide) (by decide) htype,
      annotationText_of_builtin (by decide) (by decide) hversion]
    simp
  | none =>
    rw [hcomponent] at hname
    rw [annotationText_of_custom (by decide) (by decide) hname, ← getD_eq_empty_iff hm]
    simp

theorem bytes_ne_nil (h : value ≠ "") : bytes value ≠ [] := by
  intro hnil
  have hchars : value.toList ≠ [] := fun hempty => h (String.toList_inj.mp hempty)
  obtain ⟨c, rest, hcons⟩ := List.exists_cons_of_ne_nil hchars
  have hlength := String.length_utf8EncodeChar c
  have hpos := c.utf8Size_pos
  rw [bytes, hcons, List.flatMap_cons, List.append_eq_nil_iff] at hnil
  rw [hnil.1, List.length_nil] at hlength
  omega

theorem get?_materialType (m : Api.Material) (name : String) :
    (m.descriptorAnnotations name).get? annotationMaterialType
      = some (.string m.materialType.name) := by
  rw [m.get?_descriptorAnnotations name (by decide) (by decide),
    (m.builtinAnnotations_builtin name).type, Option.some_or]

theorem get?_materialName (m : Api.Material) (name : String) :
    (m.descriptorAnnotations name).get? annotationMaterialName = some (.string name) := by
  rw [m.get?_descriptorAnnotations name (by decide) (by decide),
    (m.builtinAnnotations_builtin name).name, Option.some_or]

theorem normalize_string (print : Value → String) (hm : Crafted m) (name : String)
    (hstring : m.materialType = .string) :
    ∃ d nm, m.craftingStateToIntotoDescriptor name = .ok d ∧ normalizeMaterial print d = .ok nm ∧
      RoundTrip m name nm := by
  obtain ⟨n, hex, hn, hdigest, hd⟩ := descriptor_of_crafted hm name
  obtain ⟨value, digest, hpayload⟩ := hm.string_iff.mp hstring
  have hvalue : value ≠ "" := hm.required ("string.value", value) (by simp [requiredFields, hpayload])
  have hflags := hm.noFlags (by simp [Api.Material.artifact?, hpayload])
  have hcontent : n.content = bytes value := by
    simp only [Api.Material.normalizedOutput, hpayload] at hn
    cases hn
    rfl
  have htype := get?_materialType m (if name = "" then m.id else name)
  have hname := get?_materialName m (if name = "" then m.id else name)
  refine ⟨_, _, hd, normalizeMaterial_text htype hname (by rw [hstring]; rfl)
    (by rw [hcontent]; exact bytes_ne_nil hvalue), ?_⟩
  refine ⟨?_, ?_, ?_, ?_, hflags.1.symm, hflags.2.symm, ?_, ?_⟩
  · simp [normalizedText, annotationText, htype, getStringValue]
  · simp [normalizedText, annotationText, hname, getStringValue]
  · simp [normalizedText, sha256Of, Api.Material.digest, hn, hdigest, Hash.toString, digestText]
  · simp [normalizedText, Api.Material.storedValue, hpayload, hcontent]
  · simp [normalizedText, Api.Material.tag, hpayload]
  · simp [normalizedText, Api.Material.mainComponent, hpayload]

theorem storedValue_of_artifact (hm : Crafted m) (hother : m.materialType ≠ .string)
    {n : NormalizedMaterialOutput} (hn : m.normalizedOutput = .ok n) :
    n.name ≠ "" ∧ m.storedValue = if m.inlineCas then n.content else if m.uploadedToCas then []
      else bytes n.name := by
  have hrequired := hm.required
  unfold Api.Material.normalizedOutput at hn
  split at hn
  · next image hpayload =>
      have hflags := hm.noFlags (by simp [Api.Material.artifact?, hpayload])
      cases hn
      refine ⟨hrequired ("container_image.name", image.name) (by simp [requiredFields, hpayload]), ?_⟩
      simp [Api.Material.storedValue, hpayload, hflags]
  · next value digest hpayload => exact absurd (hm.string_iff.mpr ⟨_, _, hpayload⟩) hother
  · next a hpayload =>
      cases hn
      refine ⟨hrequired ("artifact.name", a.name) (by simp [requiredFields, hpayload]), ?_⟩
      simp [Api.Material.storedValue, Api.Material.artifact?, hpayload, Artifact.normalized]
  · next a mainComponent hpayload =>
      cases hn
      refine ⟨hrequired ("sbom_artifact.artifact.name", a.name)
        (by simp [requiredFields, hpayload]), ?_⟩
      simp [Api.Material.storedValue, Api.Material.artifact?, hpayload, Artifact.normalized]
  · cases hn
  · cases hn

theorem normalize_artifact (print : Value → String) (hm : Crafted m) (name : String)
    (hother : m.materialType ≠ .string) :
    ∃ d nm, m.craftingStateToIntotoDescriptor name = .ok d ∧ normalizeMaterial print d = .ok nm ∧
      (RoundTrip m name nm ↔ annotationText d.annotations annotationContainerTag = m.tag ∧
        referencedComponent d.annotations
          = m.mainComponent.map fun c => ⟨c.kind, c.name, c.version⟩) ∧
      d.annotations = m.descriptorAnnotations (if name = "" then m.id else name) := by
  obtain ⟨n, hex, hn, hdigest, hd⟩ := descriptor_of_crafted hm name
  obtain ⟨hne, hvalue⟩ := storedValue_of_artifact hm hother hn
  have htype := get?_materialType m (if name = "" then m.id else name)
  have hname := get?_materialName m (if name = "" then m.id else name)
  have hstring : getStringValue (.string m.materialType.name) ≠ MaterialType.string.name :=
    fun h => hother (MaterialType.name_injective h)
  have hcas := annotationFlag_cas m (if name = "" then m.id else name)
  have hinline := annotationFlag_inline (if name = "" then m.id else name) hm.oneFlag
  refine ⟨_, _, hd, normalizeMaterial_artifact htype hname hstring
    (show sha256Of _ = some ⟨"sha256", hex.val⟩ by simp [sha256Of]) hne,
    ⟨fun h => ⟨h.tag, h.component⟩, fun ⟨htag, hcomponent⟩ => ?_⟩, rfl⟩
  refine ⟨?_, ?_, ?_, ?_, hcas, hinline, htag, hcomponent⟩
  · simp [normalizedArtifact, annotationText, htype, getStringValue]
  · simp [normalizedArtifact, annotationText, hname, getStringValue]
  · simp [normalizedArtifact, sha256Of, Api.Material.digest, hn, hdigest, Hash.toString, digestText]
  · rw [hvalue, ← hcas, ← hinline]
    rfl

-- No annotation of the user stands where the normalizer looks for a tag or for a main
-- component that the material itself does not have.
def Unforged (m : Api.Material) : Prop :=
  m.materialType = .string ∨ (m.tag ≠ "" ∨ annotationContainerTag ∉ m.annotations.keys) ∧
      ((∃ c, m.mainComponent = some c ∧ c.name ≠ "") ∨
        (m.mainComponent = none ∧ annotationsSBOMMainComponentName ∉ m.annotations.keys))

theorem normalizeMaterial_roundTrip_iff (print : Value → String) (m : Api.Material) (hm : Crafted m)
    (name : String) :
    ∃ d nm, m.craftingStateToIntotoDescriptor name = .ok d ∧ normalizeMaterial print d = .ok nm ∧
      (RoundTrip m name nm ↔ Unforged m) := by
  by_cases hstring : m.materialType = .string
  · obtain ⟨d, nm, hd, hnm, hround⟩ := normalize_string print hm name hstring
    exact ⟨d, nm, hd, hnm, fun _ => .inl hstring, fun _ => hround⟩
  · obtain ⟨d, nm, hd, hnm, hiff, hannotations⟩ := normalize_artifact print hm name hstring
    refine ⟨d, nm, hd, hnm, ?_⟩
    rw [hiff, hannotations, tag_iff hm, component_iff hm, Unforged, or_iff_right hstring]

def binaryInput : SchemaMaterial := ⟨.artifact, "binary", false, true, [], ""⟩

def stageBinary (annotations : Map String String) : Except GoError Api.Material :=
  stageSource (fun _ => ⟨"00", by decide⟩) binaryInput false ⟨"inline", 0, none⟩
    (.file "app" [1, 2] []) annotations

theorem stageBinary_crafted (h : stageBinary annotations = .ok m) : Crafted m :=
  stageSource_crafted ⟨fun htype => (by cases htype), fun ⟨_, hsource⟩ => (by cases hsource)⟩ h

theorem normalizeMaterial_roundTrip_binary :
    ∃ m, stageBinary (Map.empty.set "chainloop.material.cas" "true") = .ok m ∧
      ∃ d nm, m.craftingStateToIntotoDescriptor "binary" = .ok d ∧
        normalizeMaterial (fun _ => "") d = .ok nm ∧
        (RoundTrip m "binary" nm ↔ Unforged m) ∧ Unforged m := by
  have hstage : (stageBinary (Map.empty.set "chainloop.material.cas" "true")).toOption.map
      (fun m => (m.materialType, m.mainComponent, m.annotations.keys))
        = some (.artifact, none, ["chainloop.material.size", "chainloop.material.cas"]) := by
    decide +kernel
  obtain ⟨m, hm, hfields⟩ := exists_ok_of_toOption hstage
  simp only [Prod.mk.injEq] at hfields
  obtain ⟨d, nm, hd, hnm, hiff⟩ :=
    normalizeMaterial_roundTrip_iff (fun _ => "") m (stageBinary_crafted hm) "binary"
  refine ⟨m, hm, d, nm, hd, hnm, hiff, .inr ⟨.inr ?_, .inr ⟨hfields.2.1, ?_⟩⟩⟩
  · rw [hfields.2.2]
    decide
  · rw [hfields.2.2]
    decide

def forgingAnnotations : Map String String :=
  (Map.empty.set "chainloop.material.image.tag" "v1.0.0").set
    "chainloop.material.sbom.main_component.name" "registry.local/app"

-- The annotations of the user make an image with a main component out of a plain file.
theorem user_annotations_forge_tag_and_component :
    ∃ m d nm, stageBinary forgingAnnotations = .ok m ∧ Crafted m ∧
      m.craftingStateToIntotoDescriptor "binary" = .ok d ∧
      normalizeMaterial (fun _ => "") d = .ok nm ∧ m.tag = "" ∧ nm.tag = "v1.0.0" ∧
      m.mainComponent = none ∧
      nm.referencedSourceComponent = some ⟨"", "registry.local/app", ""⟩ ∧
      ¬ RoundTrip m "binary" nm := by
  have hrun : ((stageBinary forgingAnnotations).toOption.bind fun m =>
      (m.craftingStateToIntotoDescriptor "binary").toOption.bind fun d =>
        (normalizeMaterial (fun _ => "") d).toOption.map fun nm =>
          (m.tag, nm.tag, m.mainComponent, nm.referencedSourceComponent))
      = some ("", "v1.0.0", none, some ⟨"", "registry.local/app", ""⟩) := by
    decide +kernel
  obtain ⟨m, hm, hrun⟩ := Option.bind_eq_some_iff.mp hrun
  obtain ⟨d, hd, hrun⟩ := Option.bind_eq_some_iff.mp hrun
  obtain ⟨nm, hnm, hfields⟩ := Option.map_eq_some_iff.mp hrun
  simp only [Prod.mk.injEq] at hfields
  obtain ⟨hmtag, htag, hmcomponent, hcomponent⟩ := hfields
  have hm := eq_ok_of_toOption hm
  refine ⟨m, d, nm, hm, stageBinary_crafted hm, eq_ok_of_toOption hd, eq_ok_of_toOption hnm, hmtag,
    htag, hmcomponent, hcomponent, fun hround => ?_⟩
  have hsame := hround.tag
  rw [htag, hmtag] at hsame
  exact absurd hsame (by decide)

end Chainloop.Renderer
