import Chainloop.Policies.Verifier

namespace Chainloop.Materials

open Go Policies

-- ^[a-z0-9]([-a-z0-9]*[a-z0-9])?$
def isDNS1123 (s : String) : Bool :=
  let edge (c : Char) : Bool := ('a' ≤ c && c ≤ 'z') || ('0' ≤ c && c ≤ '9')
  match s.toList with
  | [] => false
  | c :: cs => edge c && (c :: cs).all (fun c => edge c || c == '-') &&
      edge ((c :: cs).getLast (List.cons_ne_nil c cs))

-- ^[\w-]+$
def isAnnotationName (s : String) : Bool :=
  s ≠ "" && s.toList.all fun c => isWordChar c || c == '-'

-- The rule of the proto message that a material of a contract breaks, if any.
def schemaViolation? (m : SchemaMaterial) : Option (String × String) :=
  if m.type = .unspecified then some ("type", "value must not be in list [0]")
  else if isDNS1123 m.name = false then
    some ("name", "must contain only lowercase letters, numbers, and hyphens.")
  else if m.annotations.all (fun a => isAnnotationName a.1) = false then
    some ("annotations.name", "value does not match regex pattern")
  else if m.group ≠ "" ∧ isDNS1123 m.group = false then
    some ("group", "must contain only lowercase letters, numbers, and hyphens.")
  else none

def validateSchemaMaterial (m : SchemaMaterial) : Except GoError Unit :=
  match schemaViolation? m with
  | none => .ok ()
  | some (field, message) => .error ⟨"validation error: " ++ field ++ ": " ++ message, [.validation]⟩

-- What the crafter of a material type returns: the artifact, the annotations it
-- sets itself, and the content it stored if that is not the file as it is.
structure Crafted where
  artifact : String
  annotations : Map String String
  content : Bytes
deriving DecidableEq

-- materials.Craft. Every crafter takes the type from the schema it is made with.
def craft (craftArtifact : SchemaMaterial → String → Except GoError Crafted)
    (schema : SchemaMaterial) (value : String) : Except GoError (Material × Bytes) := do
  wrapErr "validating material" (validateSchemaMaterial schema)
  let crafted ← wrapErr "crafting material" (craftArtifact schema value)
  .ok ({ id := schema.name
         artifact := crafted.artifact
         materialType := schema.type
         annotations := schema.annotations.foldl (fun m a => m.set a.1 a.2) crafted.annotations
         output := schema.output
         required := !schema.optional }, crafted.content)

-- materials.AppendReferences
def appendReferences (existing : String) (names : List String) : String :=
  let refs := if existing ≠ "" then splitString "," existing else []
  ",".intercalate (names.foldl (fun refs n => if refs.contains n then refs else refs ++ [n]) refs)

theorem validateSchemaMaterial_name {m : SchemaMaterial} (h : validateSchemaMaterial m = .ok ()) :
    isDNS1123 m.name = true := by
  unfold validateSchemaMaterial at h
  split at h
  · next hnone =>
      unfold schemaViolation? at hnone
      split_ifs at hnone with _ hname
      exact Bool.eq_true_of_not_eq_false hname
  · cases h

theorem craft_spec {schema : SchemaMaterial} {mt : Material}
    (h : craft craftArtifact schema value = .ok (mt, content)) :
    mt.id = schema.name ∧ mt.materialType = schema.type ∧ schema.name ≠ "" := by
  obtain ⟨_, hvalid, h⟩ := bind_eq_ok.mp h
  obtain ⟨crafted, _, h⟩ := bind_eq_ok.mp h
  cases h
  refine ⟨rfl, rfl, ?_⟩
  intro hname
  rw [wrapErr_eq_ok] at hvalid
  have hdns := validateSchemaMaterial_name hvalid
  rw [hname] at hdns
  cases hdns

end Chainloop.Materials
