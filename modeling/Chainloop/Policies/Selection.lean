import Chainloop.Policies.Disabled

namespace Chainloop.Policies

open Go List Except

structure Script where
  source : Option ScriptSource
  kind : MaterialType
deriving DecidableEq

-- The legacy source, which the type of the spec is for, or the entries.
def specScripts (spec : PolicySpec) : List Script :=
  match spec.source with
  | some source => [⟨some source, spec.type⟩]
  | none => spec.policies.map fun entry => ⟨entry.source, entry.kind⟩

def Script.fits (kind : MaterialType) (s : Script) : Bool :=
  s.kind == .unspecified || s.kind == kind

def Script.TypedFor (kind : MaterialType) (s : Script) : Prop :=
  s.kind = kind ∧ kind ≠ .unspecified

-- The rules of the PolicySpec and PolicySpecV2 messages.
structure ValidSpec (spec : PolicySpec) : Prop where
  provided : spec.source.isSome ∨ spec.policies ≠ []
  type : spec.type ∉ [MaterialType.string, .artifact, .evidence]
  entries : ∀ entry ∈ spec.policies, entry.source.isSome ∧ entry.kind ≠ .artifact

def NamePasses (name : String) (mode : MatchMode) (material : Material) : Prop :=
  name = "" ∨ nameMatches name mode material.id = true

def loadScript (env : PolicyEnv) (policy : Policy) (basePath : String) (s : Script) :
    Except GoError EnginePolicy :=
  prepareScript env policy.metadata.name basePath s.source

-- A policy that is picked has scripts for the material, which are loaded, and one with a script
-- of its own for the kind of material is picked if its name passes.
structure Agreement (env : PolicyEnv) (policy : Policy) (kind : MaterialType)
    (picked namePasses : Prop) : Prop where
  exactly : picked → ∀ basePath, loadPolicyScriptsFromSpec env policy kind basePath =
    ((specScripts policy.spec).filter (Script.fits kind)).mapM (loadScript env policy basePath)
  nonempty : picked → ∀ basePath, loadPolicyScriptsFromSpec env policy kind basePath ≠ .ok []
  typed : (∃ s ∈ specScripts policy.spec, s.TypedFor kind) → namePasses → picked

-- The type of the spec and the kinds of its entries do not contradict each other for the kind.
def KindsAgree (spec : PolicySpec) (kind : MaterialType) : Prop :=
  spec.source.isSome ∨ spec.type = .unspecified ∨
    if spec.type = kind then ∃ entry ∈ spec.policies, matchesKind kind entry = true
    else ∀ entry ∈ spec.policies, entry.kind = kind → kind = .unspecified

theorem getPolicyTypes_of_type {p : Policy} (h : p.spec.type ≠ .unspecified) :
    getPolicyTypes p = [p.spec.type] := if_pos h

theorem mem_getPolicyTypes {p : Policy} (h : p.spec.type = .unspecified) {kind : MaterialType} :
    kind ∈ getPolicyTypes p ↔ kind ≠ .unspecified ∧ ∃ entry ∈ p.spec.policies, entry.kind = kind := by
  rw [getPolicyTypes, if_neg (not_not.mpr h)]
  simp [and_comm]

theorem load_of_source {policy : Policy} (h : policy.spec.source = some source)
    (kind : MaterialType) (basePath : String) :
    loadPolicyScriptsFromSpec env policy kind basePath =
      [(⟨some source, policy.spec.type⟩ : Script)].mapM (loadScript env policy basePath) := by
  unfold loadPolicyScriptsFromSpec
  rw [h]
  rfl

theorem load_of_entries {policy : Policy} (h : policy.spec.source = none) (kind : MaterialType)
    (basePath : String) :
    loadPolicyScriptsFromSpec env policy kind basePath =
      ((specScripts policy.spec).filter (Script.fits kind)).mapM (loadScript env policy basePath) := by
  unfold loadPolicyScriptsFromSpec specScripts
  rw [h, filter_map, mapM_map]
  rfl

structure Picks (policy : Policy) (kind : MaterialType) (picked namePasses : Prop) : Prop where
  only : picked → namePasses ∧ (getPolicyTypes policy = [] ∨ kind ∈ getPolicyTypes policy)
  enough : namePasses → kind ∈ getPolicyTypes policy → picked

section Agree

variable {env : PolicyEnv} {policy : Policy} {kind : MaterialType} {picked namePasses : Prop}

theorem fits_of_picked (h : Picks policy kind picked namePasses) (hpicked : picked)
    (source : Option ScriptSource) : (⟨source, policy.spec.type⟩ : Script).fits kind = true := by
  unfold Script.fits
  by_cases htype : policy.spec.type = .unspecified
  · simp [htype]
  · obtain ⟨-, hnone | hkind⟩ := h.only hpicked
    · simp [getPolicyTypes_of_type htype] at hnone
    · rw [getPolicyTypes_of_type htype, mem_singleton] at hkind
      simp [hkind]

theorem exactly_of_picks (h : Picks policy kind picked namePasses) (hpicked : picked)
    (basePath : String) : loadPolicyScriptsFromSpec env policy kind basePath =
      ((specScripts policy.spec).filter (Script.fits kind)).mapM (loadScript env policy basePath) := by
  cases hsource : policy.spec.source with
  | none => exact load_of_entries hsource kind basePath
  | some source =>
    rw [load_of_source hsource, specScripts, hsource]
    rw [filter_cons_of_pos (fits_of_picked h hpicked _), filter_nil]

theorem entry_of_picks (hvalid : ValidSpec policy.spec) (h : Picks policy kind picked namePasses)
    (hagree : namePasses → KindsAgree policy.spec kind) (hsource : policy.spec.source = none)
    (hpicked : picked) : ∃ entry ∈ policy.spec.policies, matchesKind kind entry = true := by
  obtain ⟨hname, htypes⟩ := h.only hpicked
  by_cases htype : policy.spec.type = .unspecified
  · obtain hnone | hkind := htypes
    · obtain hprovided | hprovided := hvalid.provided
      · simp [hsource] at hprovided
      · obtain ⟨entry, hentry⟩ := exists_mem_of_ne_nil _ hprovided
        refine ⟨entry, hentry, ?_⟩
        have huntyped : entry.kind = .unspecified := by
          by_contra hne
          have hmem := (mem_getPolicyTypes htype).mpr ⟨hne, entry, hentry, rfl⟩
          simp [hnone] at hmem
        simp [matchesKind, huntyped]
    · obtain ⟨-, entry, hentry, hkind⟩ := (mem_getPolicyTypes htype).mp hkind
      exact ⟨entry, hentry, by simp [matchesKind, hkind]⟩
  · rw [getPolicyTypes_of_type htype] at htypes
    obtain hnone | hkind := htypes
    · cases hnone
    · have hkind := (mem_singleton.mp hkind).symm
      obtain hsome | hun | hentry := hagree hname
      · simp [hsource] at hsome
      · exact absurd hun htype
      · rwa [if_pos hkind] at hentry

theorem typed_of_agree (h : Picks policy kind picked namePasses)
    (hagree : namePasses → KindsAgree policy.spec kind) {s : Script}
    (hs : s ∈ specScripts policy.spec) (htyped : s.TypedFor kind) (hname : namePasses) : picked := by
  apply h.enough hname
  obtain ⟨hkind, hne⟩ := htyped
  cases hsource : policy.spec.source with rw [specScripts, hsource] at hs
  | some source =>
    obtain rfl := mem_singleton.mp hs
    have htype : policy.spec.type = kind := hkind
    rw [getPolicyTypes_of_type (htype ▸ hne), htype]
    exact mem_singleton_self kind
  | none =>
    obtain ⟨entry, hentry, rfl⟩ := mem_map.mp hs
    by_cases htype : policy.spec.type = .unspecified
    · exact (mem_getPolicyTypes htype).mpr ⟨hne, entry, hentry, hkind⟩
    · rw [getPolicyTypes_of_type htype, mem_singleton]
      by_contra hother
      obtain hsome | hun | hnone := hagree hname
      · simp [hsource] at hsome
      · exact htype hun
      · rw [if_neg (Ne.symm hother)] at hnone
        exact hne (hnone entry hentry hkind)

theorem kindsAgree_of_agreement (h : Picks policy kind picked namePasses)
    (hagreement : Agreement env policy kind picked namePasses) (hname : namePasses) :
    KindsAgree policy.spec kind := by
  by_cases hsource : policy.spec.source = none
  swap
  · exact .inl (Option.isSome_iff_ne_none.mpr hsource)
  by_cases htype : policy.spec.type = .unspecified
  · exact .inr (.inl htype)
  refine .inr (.inr ?_)
  split_ifs with hkind
  · have hpicked : picked := h.enough hname (by
      rw [getPolicyTypes_of_type htype, hkind]
      exact mem_singleton_self kind)
    have hne := hagreement.nonempty hpicked ""
    rw [load_of_entries hsource, ne_eq, mapM_eq_ok_nil_iff, specScripts, hsource] at hne
    obtain ⟨s, hs⟩ := exists_mem_of_ne_nil _ hne
    obtain ⟨hs, hfits⟩ := mem_filter.mp hs
    obtain ⟨entry, hentry, rfl⟩ := mem_map.mp hs
    exact ⟨entry, hentry, hfits⟩
  · intro entry hentry hentryKind
    by_contra hne
    have hpicked : picked := hagreement.typed ⟨⟨entry.source, entry.kind⟩, by
      rw [specScripts, hsource]
      exact mem_map_of_mem hentry, hentryKind, hne⟩ hname
    obtain ⟨-, hnone | hmem⟩ := h.only hpicked
    · simp [getPolicyTypes_of_type htype] at hnone
    · rw [getPolicyTypes_of_type htype, mem_singleton] at hmem
      exact hkind hmem.symm

theorem agreement_iff (hvalid : ValidSpec policy.spec) (h : Picks policy kind picked namePasses) :
    Agreement env policy kind picked namePasses ↔ (namePasses → KindsAgree policy.spec kind) := by
  refine ⟨kindsAgree_of_agreement h, fun hagree => ⟨?_, ?_, ?_⟩⟩
  · exact fun hpicked basePath => exactly_of_picks h hpicked basePath
  · intro hpicked basePath
    cases hsource : policy.spec.source with
    | some source =>
      rw [load_of_source hsource, ne_eq, mapM_eq_ok_nil_iff]
      exact cons_ne_nil _ _
    | none =>
      rw [load_of_entries hsource, ne_eq, mapM_eq_ok_nil_iff, specScripts, hsource]
      obtain ⟨entry, hentry, hkind⟩ := entry_of_picks hvalid h hagree hsource hpicked
      exact ne_nil_of_mem (mem_filter.mpr ⟨mem_map_of_mem hentry, hkind⟩)
  · rintro ⟨s, hs, htyped⟩ hname
    exact typed_of_agree h hagree hs htyped hname

end Agree

section Paths

variable {env : PolicyEnv} {material : Material} {att : PolicyAttachment} {policy : Policy}
  {ref : Option PolicyDescriptor}

section
variable (hload : loadPolicySpec env.toLoaderEnv att = .ok (policy, ref))
include hload

theorem shouldApplyPolicy_eq_true_iff : shouldApplyPolicy env material att = .ok true ↔
      NamePasses att.selector.name att.selector.matchMode material ∧
        (material.materialType ∈ getPolicyTypes policy ∨
          (getPolicyTypes policy = [] ∧ att.selector.name ≠ "")) := by
  unfold shouldApplyPolicy NamePasses
  rw [hload]
  change (if _ then _ else _) = _ ↔ _
  by_cases hname : att.selector.name = ""
  · by_cases hnone : getPolicyTypes policy = []
    · simp [hname, hnone]
    · by_cases hkind : material.materialType ∈ getPolicyTypes policy <;> simp [hname, hnone, hkind]
  · by_cases hnone : getPolicyTypes policy = []
    · cases hpasses : nameMatches att.selector.name att.selector.matchMode material.id <;>
        simp [hname, hnone]
    · by_cases hkind : material.materialType ∈ getPolicyTypes policy <;>
        cases hpasses : nameMatches att.selector.name att.selector.matchMode material.id <;>
          simp [hnone, hkind]

theorem groupShouldApplyPolicy_eq_true_iff : groupShouldApplyPolicy env material att = .ok true ↔
      getPolicyTypes policy = [] ∨ material.materialType ∈ getPolicyTypes policy := by
  unfold groupShouldApplyPolicy
  rw [hload]
  change ok _ = ok _ ↔ _
  simp

theorem standalone_picks {pv : PolicyVerifier} (hrequired : requiredPoliciesForMaterial env pv material = .ok required)
    (hatt : att ∈ pv.policies.materials) :
    Picks policy material.materialType (att ∈ required)
      (NamePasses att.selector.name att.selector.matchMode material) := by
  have hmem := (selectM_spec hrequired).2 att
  rw [shouldApplyPolicy_eq_true_iff hload] at hmem
  constructor
  · intro hpicked
    obtain ⟨-, hname, hkind | ⟨hnone, -⟩⟩ := hmem.mp hpicked
    · exact ⟨hname, .inr hkind⟩
    · exact ⟨hname, .inl hnone⟩
  · exact fun hname hkind => hmem.mpr ⟨hatt, hname, .inl hkind⟩

theorem group_picks {gm : GroupMaterial} (hgm : interpolateGroupMaterial env groupMaterial groupArgs = .ok gm)
    (hrequired : groupMaterialPolicies env material groupArgs groupMaterial = .ok required)
    (hatt : att ∈ gm.policies) :
    Picks policy material.materialType (att ∈ required) (NamePasses gm.name gm.matchMode material) := by
  unfold groupMaterialPolicies at hrequired
  rw [hgm] at hrequired
  obtain ⟨named, hnamed, hrequired⟩ := bind_eq_ok.mp hrequired
  cases hnamed
  split_ifs at hrequired with hother
  · cases hrequired
    refine ⟨fun hpicked => (not_mem_nil hpicked).elim, ?_⟩
    rintro (hname | hname)
    · exact absurd hname hother.1
    · simp [hother.2] at hname
  · have hmem := (selectM_spec hrequired).2 att
    rw [groupShouldApplyPolicy_eq_true_iff hload] at hmem
    have hname : NamePasses gm.name gm.matchMode material := by
      by_contra hno
      obtain ⟨hne, hmatch⟩ := not_or.mp hno
      exact hother ⟨hne, Bool.eq_false_iff.mpr hmatch⟩
    exact ⟨fun hpicked => ⟨hname, (hmem.mp hpicked).2⟩, fun _ hkind => hmem.mpr ⟨hatt, .inr hkind⟩⟩

end

theorem selection_agrees_iff (hload : loadPolicySpec env.toLoaderEnv att = .ok (policy, ref))
    (hvalid : ValidSpec policy.spec) :
    (∀ (pv : PolicyVerifier) (required : List PolicyAttachment),
      requiredPoliciesForMaterial env pv material = .ok required → att ∈ pv.policies.materials →
        (Agreement env policy material.materialType (att ∈ required)
            (NamePasses att.selector.name att.selector.matchMode material) ↔
          (NamePasses att.selector.name att.selector.matchMode material →
            KindsAgree policy.spec material.materialType))) ∧
    ∀ (groupArgs : Map String String) (groupMaterial gm : GroupMaterial)
      (required : List PolicyAttachment),
      interpolateGroupMaterial env groupMaterial groupArgs = .ok gm →
        groupMaterialPolicies env material groupArgs groupMaterial = .ok required →
          att ∈ gm.policies → (Agreement env policy material.materialType (att ∈ required)
                (NamePasses gm.name gm.matchMode material) ↔
              (NamePasses gm.name gm.matchMode material →
                KindsAgree policy.spec material.materialType)) :=
  ⟨fun _ _ hrequired hatt => agreement_iff hvalid (standalone_picks hload hrequired hatt),
    fun _ _ _ _ hgm hrequired hatt => agreement_iff hvalid (group_picks hload hgm hrequired hatt)⟩

end Paths

def typedPolicy (type : MaterialType) (kinds : List MaterialType) : Policy where
  metadata := ⟨"kinds", "", .empty, ""⟩
  spec := ⟨none, type, kinds.map fun kind => ⟨some (.embedded "rego"), kind, []⟩, []⟩

def reportMaterial (kind : MaterialType) : Material := ⟨"report", "digest", kind, .empty, false, false⟩

def kindsVerifier (policy : Policy) : PolicyVerifier :=
  bareVerifier ⟨[embeddedAttachment policy false none], []⟩ .unspecified

theorem selection_agrees_for_sarif : ValidSpec (typedPolicy .unspecified [.sarif]).spec ∧
      Agreement (.offline passedResult) (typedPolicy .unspecified [.sarif]) .sarif
        (embeddedAttachment (typedPolicy .unspecified [.sarif]) false none ∈
          [embeddedAttachment (typedPolicy .unspecified [.sarif]) false none])
        (NamePasses "" .unspecified (reportMaterial .sarif)) := by
  have hvalid : ValidSpec (typedPolicy .unspecified [.sarif]).spec :=
    ⟨.inr (by decide), by decide, by decide⟩
  refine ⟨hvalid, ?_⟩
  have hagrees := @selection_agrees_iff (.offline passedResult) (reportMaterial .sarif)
    (embeddedAttachment (typedPolicy .unspecified [.sarif]) false none) _ none rfl hvalid
  exact (hagrees.1 (kindsVerifier (typedPolicy .unspecified [.sarif])) _ rfl
    (mem_singleton_self _)).mpr fun _ => .inr (.inl rfl)

-- The type of the spec is SARIF, and its only entry is for JUnit reports. The policy is picked
-- for SARIF reports, for which it has no script, and not for JUnit reports.
theorem contradicting_kinds_disagree : ValidSpec (typedPolicy .sarif [.junitXml]).spec ∧
      (∃ att, requiredPoliciesForMaterial (.offline passedResult)
          (kindsVerifier (typedPolicy .sarif [.junitXml])) (reportMaterial .sarif) = .ok [att] ∧
        loadPolicyScriptsFromSpec (.offline passedResult) (typedPolicy .sarif [.junitXml]) .sarif
          (policyLocation att.ref) = .ok []) ∧
      requiredPoliciesForMaterial (.offline passedResult)
        (kindsVerifier (typedPolicy .sarif [.junitXml])) (reportMaterial .junitXml) = .ok [] :=
  ⟨⟨.inr (by decide), by decide, by decide⟩, ⟨_, rfl, rfl⟩, rfl⟩

end Chainloop.Policies
