import Chainloop.Action.AttestationAdd
import Chainloop.Crafter.Stage

namespace Chainloop.Action

open Go Policies Materials Crafting List

def Fits (contract : Contract) (p : String × MaterialType) : Prop :=
  ∀ m ∈ contract.materials, m.name = p.1 → m.type = p.2

instance (contract : Contract) (p : String × MaterialType) : Decidable (Fits contract p) :=
  inferInstanceAs (Decidable (∀ m ∈ contract.materials, _ → _))

def Typed (st : CraftingState) : Prop :=
  ∀ k mt, st.materials.get? k = some mt → Fits st.contract (k, mt.materialType)

-- The contract is the same, and what is stored was there with the same type or is
-- one of those added.
structure Adds (added : List (String × MaterialType)) (st st' : CraftingState) : Prop where
  contract : st'.contract = st.contract
  materials : ∀ k mt', st'.materials.get? k = some mt' →
    (∃ mt, st.materials.get? k = some mt ∧ mt.materialType = mt'.materialType) ∨
      (k, mt'.materialType) ∈ added

theorem Adds.refl (st : CraftingState) : Adds added st st :=
  ⟨rfl, fun _ mt h => .inl ⟨mt, h, rfl⟩⟩

theorem Adds.mono {added more : List (String × MaterialType)} (h : Adds added st st')
    (hsub : ∀ p ∈ added, p ∈ more) : Adds more st st' :=
  ⟨h.contract, fun k mt' hk => (h.materials k mt' hk).imp_right (hsub _)⟩

theorem Adds.trans {a b : List (String × MaterialType)} (h : Adds a st st') (h' : Adds b st' st'') :
    Adds (a ++ b) st st'' := by
  refine ⟨h'.contract.trans h.contract, fun k mt'' hk => ?_⟩
  rcases h'.materials k mt'' hk with ⟨mt', hk', htype'⟩ | hmem
  · rcases h.materials k mt' hk' with ⟨mt, hk, htype⟩ | hmem
    · exact .inl ⟨mt, hk, htype.trans htype'⟩
    · exact .inr (mem_append_left _ (htype' ▸ hmem))
  · exact .inr (mem_append_right _ hmem)

variable {st st' : CraftingState}

theorem Adds.of_set {mt : Material}
    (hcontract : st'.contract = st.contract) (hset : st'.materials = st.materials.set k mt) :
    Adds [(k, mt.materialType)] st st' := by
  refine ⟨hcontract, fun k' mt' hk => ?_⟩
  rw [hset, Map.get?_set] at hk
  split_ifs at hk with he
  · cases hk
    exact .inr (by simp [he])
  · exact .inl ⟨mt', hk, rfl⟩

theorem Adds.of_same (hcontract : st'.contract = st.contract)
    (hsame : st'.materials = st.materials) : Adds added st st' :=
  ⟨hcontract, fun _ mt h => .inl ⟨mt, hsame ▸ h, rfl⟩⟩

variable {added : List (String × MaterialType)}

theorem Adds.typed {st : CraftingState}
    (h : Adds added st st') (htyped : Typed st) (hfits : ∀ p ∈ added, Fits st.contract p) :
    Typed st' := by
  intro k mt' hk
  rw [h.contract]
  rcases h.materials k mt' hk with ⟨mt, hk, htype⟩ | hmem
  · exact htype ▸ htyped k mt hk
  · exact hfits _ hmem

theorem stageMaterial_adds (env : StageEnv) (st : CraftingState) (m : SchemaMaterial)
    (value : String) (annotations : Map String String) (opts : AddOpts) :
    let result := stageMaterial env st m value annotations opts
    Adds [(m.name, m.type)] st result.2 ∧ ∀ mt, result.1 = .ok mt →
      mt.id = m.name ∧ mt.materialType = m.type ∧ result.2.materials = st.materials.set m.name mt := by
  simp only [stageMaterial]
  split
  · exact ⟨.refl st, by simp⟩
  · rename_i mt content hprep
    obtain ⟨hid, htype, _⟩ := prepareMaterial_spec hprep
    split
    · exact ⟨.refl st, by simp⟩
    · split
      · exact ⟨.of_same rfl rfl, by simp⟩
      · split
        · exact ⟨.of_same rfl rfl, by simp⟩
        · refine ⟨htype ▸ .of_set rfl rfl, ?_⟩
          rintro mt ⟨⟩
          exact ⟨hid, htype, rfl⟩

def Synced (c : Crafter) : Prop := c.written.getLast? = some c.state.snapshot

theorem prepareRun_format (h : prepareRun env req = .ok prepared) :
    shouldExplode env req.materialType req.materialValue = .ok prepared.2 := by
  obtain ⟨_, _, h⟩ := bind_eq_ok.mp h
  obtain ⟨_, _, h⟩ := bind_eq_ok.mp h
  obtain ⟨_, _, h⟩ := bind_eq_ok.mp h
  obtain ⟨_, _, h⟩ := bind_eq_ok.mp h
  obtain ⟨_, _, h⟩ := bind_eq_ok.mp h
  obtain ⟨_, _, h⟩ := bind_eq_ok.mp h
  obtain ⟨found, hfound, h⟩ := bind_eq_ok.mp h
  cases h
  rwa [wrapErr_eq_ok] at hfound

theorem Synced.stored_adds {c : Crafter} (hsync : Synced c)
    (h : Adds added st c.state) : Adds added st (stored st c) := by
  unfold stored
  rw [hsync]
  exact ⟨rfl, h.materials⟩

def AddsOne (c : Crafter) (result : Outcome Material × Crafter) (p : String × MaterialType) : Prop :=
  Adds [p] c.state result.2.state ∧
    ∀ mt, result.1 = .ok mt → (mt.id, mt.materialType) = p ∧ Synced result.2

theorem addMaterial_addsOne (env : AddEnv) (c : Crafter) (m : SchemaMaterial) (value : String)
    (annotations : Map String String) (opts : AddOpts) :
    AddsOne c (addMaterial env c m value annotations opts) (m.name, m.type) := by
  obtain ⟨hadds, hok⟩ := stageMaterial_adds env.stage c.state m value annotations opts
  unfold addMaterial
  generalize stageMaterial env.stage c.state m value annotations opts = staged at hadds hok ⊢
  obtain ⟨outcome, st⟩ := staged
  cases outcome with
  | failed e => exact ⟨hadds, by simp⟩
  | panicked => exact ⟨hadds, by simp⟩
  | ok mt =>
    obtain ⟨hid, htype, -⟩ := hok mt rfl
    cases env.write with
    | error e => exact ⟨hadds, by simp [Crafter.write]⟩
    | ok _ =>
      refine ⟨hadds, ?_⟩
      rintro mt ⟨⟩
      exact ⟨by rw [hid, htype], by simp [Synced, Crafter.write]⟩

def generatedName (env : AddEnv) (name : String) : String :=
  if name = "" then "material-" ++ env.unixNano.repr else name

theorem addContractFree_addsOne (env : AddEnv) (c : Crafter) (type : MaterialType)
    (name value : String) (annotations : Map String String) (opts : AddOpts) :
    AddsOne c (addMaterialContractFree env c type.name name value annotations opts)
      (generatedName env name, type) := by
  unfold addMaterialContractFree
  rw [MaterialType.value?_name]
  exact addMaterial_addsOne env c (freeMaterial type (generatedName env name)) value annotations opts

theorem lookup_mem {contract : Contract} {m : SchemaMaterial}
    (h : Contract.lookup contract key = some m) : m ∈ contract.materials ∧ m.name = key := by
  have hmem := mem_of_getLast? h
  simpa using hmem

theorem fits_of_mem {contract : Contract} {m : SchemaMaterial} (hm : m ∈ contract.materials) :
    Fits contract (m.name, m.type) := by
  intro m' hm' hname
  rw [inj_on_of_nodup_map contract.unique hm' hm hname]

theorem fits_of_not_inContract {type : MaterialType}
    (h : isMaterialInContract contract name = false) : Fits contract (name, type) := by
  intro m hm hname
  have hany := any_eq_false.mp h m hm
  exact absurd (by simpa using hname) hany

theorem tryKinds_adds (env : Nat → AddEnv) (name value : String) (annotations : Map String String)
    (opts : AddOpts) (kinds : List MaterialType) (attempt : Nat) (c : Crafter) :
    let result := tryKinds env name value annotations opts kinds attempt c
    let tried := (kinds.zipIdx attempt).map fun t => (generatedName (env t.2) name, t.1)
    Adds tried c.state result.2.state ∧
      ∀ mt, result.1 = .ok mt → Synced result.2 ∧ (mt.id, mt.materialType) ∈ tried := by
  induction kinds generalizing attempt c with
  | nil => exact ⟨.refl _, by simp [tryKinds]⟩
  | cons kind rest ih =>
    obtain ⟨hadds, hone⟩ := addContractFree_addsOne (env attempt) c kind name value annotations opts
    simp only [tryKinds] at ih ⊢
    generalize addMaterialContractFree (env attempt) c kind.name name value annotations opts =
      result at hadds hone ⊢
    obtain ⟨outcome, c'⟩ := result
    cases outcome with
    | ok mt =>
      refine ⟨hadds.mono (by simp), ?_⟩
      rintro mt ⟨⟩
      obtain ⟨hpair, hsync⟩ := hone mt rfl
      exact ⟨hsync, by simp [hpair]⟩
    | panicked => exact ⟨hadds.mono (by simp), by simp⟩
    | failed e =>
      dsimp only
      split_ifs
      · exact ⟨hadds.mono (by simp), by simp⟩
      · obtain ⟨hrest, hok⟩ := ih (attempt + 1) c'
        refine ⟨(hadds.trans hrest).mono (by simp), fun mt hmt => ?_⟩
        obtain ⟨hsync, hmem⟩ := hok mt hmt
        exact ⟨hsync, mem_cons_of_mem _ hmem⟩

def generatedWrites (env : Nat → AddEnv) (req : AddRequest) : List (String × MaterialType) :=
  if req.materialName ≠ "" then []
  else if req.materialType = "" then
    (MaterialType.inValidationOrder.zipIdx 0).map fun t => (generatedName (env t.2) "", t.1)
  else ((MaterialType.value? req.materialType).map fun t => (generatedName (env 0) "", t)).toList

def subjectNames (env : Nat → AddEnv) (req : AddRequest) : List String :=
  if req.materialName ≠ "" then [req.materialName] else (generatedWrites env req).map Prod.fst

def SubjectAdded (c : Crafter) (names : List String) (result : Outcome Material × Crafter) : Prop :=
  ∃ added, Adds added c.state result.2.state ∧ (∀ p ∈ added, Fits c.state.contract p) ∧
    ∀ mt, result.1 = .ok mt → Synced result.2 ∧ (mt.id, mt.materialType) ∈ added ∧ mt.id ∈ names

theorem AddsOne.subjectAdded {c : Crafter} {p : String × MaterialType} (h : AddsOne c result p)
    (hp : Fits c.state.contract p) (hname : p.1 ∈ names) : SubjectAdded c names result := by
  refine ⟨[p], h.1, by simpa using hp, fun mt hmt => ?_⟩
  obtain ⟨hpair, hsync⟩ := h.2 mt hmt
  exact ⟨hsync, by simp [hpair], by simpa [← hpair] using hname⟩

theorem contractFree_subjectAdded (env : AddEnv) (c : Crafter) (kind name value : String)
    (annotations : Map String String) (opts : AddOpts)
    (hkind : ∀ type, MaterialType.value? kind = some type →
      Fits c.state.contract (generatedName env name, type) ∧ generatedName env name ∈ names) :
    SubjectAdded c names (addMaterialContractFree env c kind name value annotations opts) := by
  cases hvalue : MaterialType.value? kind with
  | none =>
    simp only [addMaterialContractFree, hvalue]
    exact ⟨[], .refl _, by simp, fun mt hmt => nomatch hmt⟩
  | some type =>
    have hadd := addContractFree_addsOne env c type name value annotations opts
    rw [MaterialType.name_of_value? hvalue] at hadd
    exact hadd.subjectAdded (hkind type hvalue).1 (hkind type hvalue).2

theorem fromContract_subjectAdded (env : AddEnv) (c : Crafter) (key value : String)
    (annotations : Map String String) (opts : AddOpts) (hkey : key ∈ names) :
    SubjectAdded c names (addMaterialFromContract env c key value annotations opts) := by
  unfold addMaterialFromContract
  cases hlookup : Contract.lookup c.state.contract key with
  | none => exact ⟨[], .refl _, by simp, by simp⟩
  | some m =>
    obtain ⟨hm, hmname⟩ := lookup_mem hlookup
    have hadd := addMaterial_addsOne env c m value annotations opts
    exact hadd.subjectAdded (fits_of_mem hm) (by simpa [hmname] using hkey)

theorem autoDetected_subjectAdded (env : Nat → AddEnv) (c : Crafter) (name value : String)
    (annotations : Map String String) (opts : AddOpts)
    (hname : ∀ t ∈ MaterialType.inValidationOrder.zipIdx 0,
      Fits c.state.contract (generatedName (env t.2) name, t.1) ∧
        generatedName (env t.2) name ∈ names) :
    SubjectAdded c names
      (addMaterialContactFreeWithAutoDetectedKind env c name value annotations opts) := by
  obtain ⟨hadds, hok⟩ := tryKinds_adds env name value annotations opts
    MaterialType.inValidationOrder 0 c
  refine ⟨_, hadds, fun p hp => ?_, fun mt hmt => ?_⟩
  · obtain ⟨t, ht, rfl⟩ := mem_map.mp hp
    exact (hname t ht).1
  · obtain ⟨hsync, hmem⟩ := hok mt hmt
    obtain ⟨t, ht, he⟩ := mem_map.mp hmem
    have hid : generatedName (env t.2) name = mt.id := congrArg Prod.fst he
    exact ⟨hsync, hmem, hid ▸ (hname t ht).2⟩

theorem addSubject_subjectAdded {c : Crafter} (opts : AddOpts)
    (hfits : ∀ p ∈ generatedWrites env req, Fits c.state.contract p) :
    SubjectAdded c (subjectNames env req) (addSubject env c req opts) := by
  unfold addSubject
  by_cases hname : req.materialName = ""
  · have hmem : ∀ p ∈ generatedWrites env req,
        Fits c.state.contract p ∧ p.1 ∈ subjectNames env req := by
      intro p hp
      refine ⟨hfits p hp, ?_⟩
      simp only [subjectNames, hname]
      exact mem_map_of_mem hp
    by_cases htype : req.materialType = ""
    · simp only [hname, htype, and_self, if_true]
      refine autoDetected_subjectAdded env c "" _ _ opts fun t ht => hmem (_, t.1) ?_
      simp only [generatedWrites, hname, htype]
      exact mem_map_of_mem ht
    · simp only [hname, htype, and_false, ne_eq, not_true_eq_false, false_and, if_false]
      refine contractFree_subjectAdded (env 0) c _ "" _ _ opts fun type hkind => hmem (_, type) ?_
      rw [generatedWrites, if_neg (not_not.mpr hname), if_neg htype, hkind]
      exact mem_singleton_self _
  · have hsubject : req.materialName ∈ subjectNames env req := by simp [subjectNames, hname]
    have hgen : ∀ e, generatedName e req.materialName = req.materialName := by
      simp [generatedName, hname]
    simp only [hname, ne_eq, not_false_eq_true, true_and]
    cases hin : isMaterialInContract c.state.contract req.materialName with
    | true => exact fromContract_subjectAdded (env 0) c _ _ _ opts hsubject
    | false =>
      by_cases htype : req.materialType = ""
      · simp only [htype, Bool.false_eq_true, if_false, if_true]
        refine autoDetected_subjectAdded env c _ _ _ opts fun t _ => ?_
        rw [hgen]
        exact ⟨fits_of_not_inContract hin, hsubject⟩
      · simp only [htype, Bool.false_eq_true, if_false]
        refine contractFree_subjectAdded (env 0) c _ _ _ _ opts fun type _ => ?_
        rw [hgen]
        exact ⟨fits_of_not_inContract hin, hsubject⟩

theorem numberNames_length (base : List String) (seen : Map String Nat) (l : List String) :
    (numberNames base seen l).length = l.length := by
  induction l generalizing seen with
  | nil => rfl
  | cons b rest ih =>
    unfold numberNames
    split_ifs <;> simp [ih]

theorem evidenceNames_length (id : String) (files : List PolicyInputFromFile) :
    (policyInputEvidenceNames id files).length = files.length := by
  simp [policyInputEvidenceNames, numberNames_length]

theorem hyphened_ne_empty (a b : String) : a ++ "-" ++ b ≠ "" := by
  intro h
  have hlen := congrArg String.length h
  simp only [String.length_append] at hlen
  have hone : "-".length = 1 := rfl
  have hzero : "".length = 0 := rfl
  omega

theorem numberNames_ne_empty (base : List String) (seen : Map String Nat) (l : List String)
    (hl : ∀ b ∈ l, b ≠ "") : ∀ n ∈ numberNames base seen l, n ≠ "" := by
  induction l generalizing seen with
  | nil => simp [numberNames]
  | cons b rest ih =>
    have hrest : ∀ b ∈ rest, b ≠ "" := fun b hb => hl b (mem_cons_of_mem _ hb)
    unfold numberNames
    split_ifs
    · intro n hn
      rcases mem_cons.mp hn with rfl | hn
      · exact hyphened_ne_empty _ _
      · exact ih _ hrest n hn
    · intro n hn
      rcases mem_cons.mp hn with rfl | hn
      · exact hl _ mem_cons_self
      · exact ih _ hrest n hn

theorem evidenceNames_ne_empty (id : String) (files : List PolicyInputFromFile) :
    ∀ n ∈ policyInputEvidenceNames id files, n ≠ "" := by
  refine numberNames_ne_empty _ _ _ fun b hb => ?_
  obtain ⟨pif, _, rfl⟩ := mem_map.mp hb
  exact hyphened_ne_empty _ _

theorem recordEvidence_adds {c : Crafter} (hitems : ∀ item ∈ items, item.1 ≠ "")
    (hok : (recordEvidence env subject items i c).1 = .ok ()) :
    Adds (items.map fun item => (item.1, .evidence)) c.state
        (recordEvidence env subject items i c).2.state ∧
      (items = [] ∧ (recordEvidence env subject items i c).2 = c ∨
        Synced (recordEvidence env subject items i c).2) := by
  induction items generalizing i c with
  | nil => exact ⟨.refl _, .inl ⟨rfl, rfl⟩⟩
  | cons item rest ih =>
    have hname : generatedName (env i) item.1 = item.1 := by
      simp [generatedName, hitems item mem_cons_self]
    have hone : AddsOne c (addEvidence (env i) c subject item.1 item.2)
        (generatedName (env i) item.1, .evidence) := by
      unfold addEvidence
      exact addContractFree_addsOne (env i) c .evidence item.1 item.2.file _ _
    rw [hname] at hone
    rw [recordEvidence] at hok ⊢
    generalize addEvidence (env i) c subject item.1 item.2 = result at hone hok ⊢
    obtain ⟨outcome, c'⟩ := result
    cases outcome with
    | failed e => exact nomatch hok
    | panicked => exact nomatch hok
    | ok mt =>
      obtain ⟨hrest, hlast⟩ := ih (fun item h => hitems item (mem_cons_of_mem _ h)) hok
      refine ⟨hone.1.trans hrest, .inr ?_⟩
      rcases hlast with ⟨_, hsame⟩ | hlast
      · simpa only [hsame] using (hone.2 mt rfl).2
      · exact hlast

theorem referBack_adds (c : Crafter) (subject : Material) (names : List String) :
    Adds [(subject.id, subject.materialType)] c.state (referBack c subject names).state := by
  unfold referBack
  split_ifs
  · exact .refl _
  · have hset : Adds [(subject.id, (addReference subject names).materialType)] c.state
        { c.state with materials := c.state.materials.set subject.id (addReference subject names) } :=
      .of_set rfl rfl
    exact hset

theorem addPolicyInputEvidence_adds (env : Nat → AddEnv) (subject : Material)
    (files : List PolicyInputFromFile) (hsync : Synced c)
    (hok : (addPolicyInputEvidence env c subject files).1 = .ok ()) :
    Adds ((subject.id, subject.materialType) ::
        (policyInputEvidenceNames subject.id files).map fun name => (name, .evidence)) c.state
        (addPolicyInputEvidence env c subject files).2.state ∧
      Synced (addPolicyInputEvidence env c subject files).2 := by
  have hlen := evidenceNames_length subject.id files
  have hnames := evidenceNames_ne_empty subject.id files
  simp only [addPolicyInputEvidence] at hok ⊢
  generalize policyInputEvidenceNames subject.id files = names at hlen hnames hok ⊢
  have hitems : ∀ item ∈ names.zip files, item.1 ≠ "" :=
    fun item h => hnames item.1 (of_mem_zip h).1
  obtain ⟨hadds, hlast⟩ := recordEvidence_adds hitems hok
  refine ⟨((referBack_adds c subject names).trans hadds).mono ?_, ?_⟩
  · intro p hp
    rcases mem_append.mp hp with hp | hp
    · exact mem_cons.mpr (.inl (mem_singleton.mp hp))
    · obtain ⟨item, hitem, rfl⟩ := mem_map.mp hp
      exact mem_cons_of_mem _ (mem_map_of_mem (of_mem_zip hitem).1)
  · rcases hlast with ⟨hnil, hsame⟩ | hlast
    · -- without files there are no names, and nothing is touched
      have hnone : names = [] := by
        rcases zip_eq_nil_iff.mp hnil with h | h
        · exact h
        · exact length_eq_zero_iff.mp (hlen.trans (length_eq_zero_iff.mpr h))
      rw [hsame, referBack, if_pos hnone]
      exact hsync
    · exact hlast

end Chainloop.Action
