import Chainloop.Action.Adds
import Chainloop.Crafter.Complete

namespace Chainloop.Action

open Go Policies Materials Crafting List

def explodedNames (namePrefix : String) : Nat → NameAllocator → List String × NameAllocator
  | 0, a => ([], a)
  | count + 1, a =>
    let (name, a) := allocateNamed a namePrefix
    let (names, a) := explodedNames namePrefix count a
    (name :: names, a)

def explodeWrites (st : CraftingState) (kind : MaterialType) (namePrefix : String) (count : Nat) :
    List (String × MaterialType) :=
  let (names, a) := explodedNames namePrefix count (newNameAllocator st.materials.keys)
  names.map (fun name => (name, kind)) ++
    [((allocateNamed a (nameOr "material" namePrefix ++ "-archive")).1, .evidence)]

theorem stageEntries_adds (env : Nat → StageEnv) (kind : MaterialType) (namePrefix : String)
    (annotations : Map String String) (opts : AddOpts) (entries : List ArchiveEntry) (s : Staging) :
    let result := stageEntries env kind namePrefix annotations opts entries s
    let names := explodedNames namePrefix entries.length s.allocator
    result.1 = .ok () → Adds (names.1.map fun name => (name, kind)) s.state result.2.state ∧
        result.2.allocator = names.2 ∧
        result.2.result.map (fun mt => (mt.id, mt.materialType)) =
          s.result.map (fun mt => (mt.id, mt.materialType)) ++ names.1.map fun name => (name, kind) := by
  induction entries generalizing s with
  | nil => exact fun _ => ⟨.refl _, rfl, by simp [explodedNames, stageEntries]⟩
  | cons e rest ih =>
    obtain ⟨hadds, hone⟩ := stageMaterial_adds (env s.result.length) s.state
      (freeMaterial kind (allocateNamed s.allocator namePrefix).1) e.tmpPath annotations opts
    simp only [stageEntries, length_cons, explodedNames] at ih ⊢
    generalize (allocateNamed s.allocator namePrefix).1 = name at hadds hone ⊢
    generalize stageMaterial (env s.result.length) s.state (freeMaterial kind name) e.tmpPath
      annotations opts = staged at hadds hone ⊢
    obtain ⟨outcome, st⟩ := staged
    cases outcome with
    | failed e => exact fun hok => nomatch hok
    | panicked => exact fun hok => nomatch hok
    | ok mt =>
      intro hok
      obtain ⟨hid, htype, -⟩ := hone mt rfl
      obtain ⟨hrest, halloc, hres⟩ := ih ⟨st, (allocateNamed s.allocator namePrefix).2,
        s.stagedNames ++ [name], s.result ++ [mt]⟩ hok
      refine ⟨hadds.trans hrest, halloc, ?_⟩
      rw [hres, map_append, append_assoc]
      simp only [map_cons, hid, htype]
      rfl

theorem setAll_adds (mts : List Material) (st : CraftingState) :
    Adds (mts.map fun mt => (mt.id, mt.materialType)) st
      { st with materials := mts.foldl (fun m mt => m.set mt.id mt) st.materials } := by
  induction mts generalizing st with
  | nil => exact .of_same rfl rfl
  | cons mt rest ih =>
    have hone : Adds [(mt.id, mt.materialType)] st
        { st with materials := st.materials.set mt.id mt } := .of_set rfl rfl
    exact hone.trans (ih _)

theorem stageSourceArchive_adds (env : Nat → StageEnv) (namePrefix archivePath : String)
    (opts : AddOpts) (s : Staging) :
    let result := stageSourceArchive env namePrefix archivePath opts s
    let name := (allocateNamed s.allocator (nameOr "material" namePrefix ++ "-archive")).1
    result.1 = .ok () →
      Adds ((name, .evidence) :: s.result.map fun mt => (mt.id, mt.materialType)) s.state
        result.2.state := by
  have hadds := (stageMaterial_adds (env s.result.length) s.state
    (freeMaterial .evidence (allocateNamed s.allocator (nameOr "material" namePrefix ++ "-archive")).1)
    archivePath (.ofList [(materialReferences, ",".intercalate (s.result.map Material.id))]) opts).1
  unfold stageSourceArchive
  dsimp only
  generalize (allocateNamed s.allocator (nameOr "material" namePrefix ++ "-archive")).1 = name
    at hadds ⊢
  generalize stageMaterial (env s.result.length) s.state (freeMaterial .evidence name) archivePath
    (.ofList [(materialReferences, ",".intercalate (s.result.map Material.id))]) opts = staged
    at hadds ⊢
  obtain ⟨outcome, st⟩ := staged
  cases outcome with
  | failed e => exact fun hok => nomatch hok
  | panicked => exact fun hok => nomatch hok
  | ok mt =>
    intro _
    refine (hadds.trans (setAll_adds (s.result.map fun mt => addReference mt [name]) st)).mono ?_
    simp [addReference, freeMaterial]

theorem rollbackAndReturn_ne_ok (checkpoint : Nat) (s : Staging) (c : Crafter) (e : GoError)
    (mts : List Material) : (rollbackAndReturn checkpoint s c e).1 ≠ .ok mts := by
  unfold rollbackAndReturn
  cases rollback checkpoint s <;> simp

theorem stageArchive_adds (env : Nat → StageEnv) (st : CraftingState) (kind : MaterialType)
    (namePrefix archivePath : String) (annotations : Map String String)
    (runtimeInputs : Option RuntimeInputs) (entries : List ArchiveEntry) :
    let result := stageArchive env kind namePrefix archivePath annotations ⟨runtimeInputs, true⟩ entries
      ⟨st, newNameAllocator st.materials.keys, [], []⟩
    result.1 = .ok () → Adds (explodeWrites st kind namePrefix entries.length) st result.2.state := by
  have hentries := stageEntries_adds env kind namePrefix annotations ⟨runtimeInputs, true⟩
    (sortEntries entries) ⟨st, newNameAllocator st.materials.keys, [], []⟩
  have hlen : (sortEntries entries).length = entries.length := length_insertionSort _ _
  simp only [stageArchive, explodeWrites, hlen, map_nil, nil_append] at hentries ⊢
  generalize stageEntries env kind namePrefix annotations ⟨runtimeInputs, true⟩ (sortEntries entries)
    ⟨st, newNameAllocator st.materials.keys, [], []⟩ = staged at hentries ⊢
  obtain ⟨outcome, s⟩ := staged
  cases outcome with
  | failed e => exact fun hok => nomatch hok
  | panicked => exact fun hok => nomatch hok
  | ok _ =>
    obtain ⟨hadds, halloc, hres⟩ := hentries rfl
    intro hok
    have hsource := stageSourceArchive_adds env namePrefix archivePath ⟨runtimeInputs, true⟩ s hok
    rw [halloc, hres] at hsource
    refine (hadds.trans hsource).mono fun p hp => ?_
    simp only [mem_append, mem_cons, not_mem_nil, or_false] at hp ⊢
    rcases hp with hp | hp | hp
    · exact .inl hp
    · exact .inr hp
    · exact .inl hp

theorem addMaterialsFromArchive_adds {env : ArchiveEnv} {c : Crafter}
    (hok : (addMaterialsFromArchive env c kind namePrefix archivePath annotations
      ⟨runtimeInputs, true⟩).1 = .ok mts) :
    ∃ type entries, MaterialType.value? kind = some type ∧ env.walk = .ok entries ∧
      Adds (explodeWrites c.state type namePrefix entries.length) c.state
        (addMaterialsFromArchive env c kind namePrefix archivePath annotations
          ⟨runtimeInputs, true⟩).2.state ∧
      Synced (addMaterialsFromArchive env c kind namePrefix archivePath annotations
        ⟨runtimeInputs, true⟩).2 := by
  unfold addMaterialsFromArchive at hok ⊢
  cases hkind : MaterialType.value? kind with
  | none => simp [hkind] at hok
  | some type =>
    cases hdir : env.mkdirTemp with
    | error e => simp [hkind, hdir] at hok
    | ok _ =>
      cases hwalk : env.walk with
      | error e => simp [hkind, hdir, hwalk] at hok
      | ok entries =>
        cases entries with
        | nil => simp [hkind, hdir, hwalk] at hok
        | cons entry rest =>
          simp only [hkind, hdir, hwalk, commitArchive] at hok ⊢
          have hstage := stageArchive_adds env.stage c.state type namePrefix archivePath
            annotations runtimeInputs (entry :: rest)
          generalize stageArchive env.stage type namePrefix archivePath annotations
            ⟨runtimeInputs, true⟩ (entry :: rest)
            ⟨c.state, newNameAllocator c.state.materials.keys, [], []⟩ = staged
            at hstage hok ⊢
          obtain ⟨outcome, s⟩ := staged
          cases outcome with
          | panicked => exact nomatch hok
          | failed e => exact absurd hok (rollbackAndReturn_ne_ok _ s c e mts)
          | ok _ =>
            cases hw : env.write with
            | error e =>
              rw [hw] at hok
              exact absurd hok (rollbackAndReturn_ne_ok _ s c _ mts)
            | ok _ =>
              refine ⟨type, entry :: rest, rfl, rfl, hstage rfl, ?_⟩
              simp [Synced, Crafter.write]

-- The names that a run can write without asking the contract: the exploded
-- materials and their archive, generated names, and the evidence of policy inputs.
def undeclaredWrites (env : RunEnv) (st : CraftingState) (req : AddRequest) :
    List (String × MaterialType) :=
  match shouldExplode env req.materialType req.materialValue with
  | .error _ => []
  | .ok format =>
    if format = .none then
      generatedWrites env.add req ++ (subjectNames env.add req).flatMap fun id =>
        (policyInputEvidenceNames id req.policyInputFiles).map fun name => (name, .evidence)
    else
      match MaterialType.value? req.materialType, (env.archive format).walk with
      | some type, .ok entries => explodeWrites st type req.materialName entries.length
      | _, _ => []

theorem runPlain_adds {env : RunEnv} {c : Crafter} {req : AddRequest}
    (hok : (runPlain env c req runtimeInputs).1 = .ok mts)
    (hgen : ∀ p ∈ generatedWrites env.add req, Fits c.state.contract p)
    (hevidence : ∀ id ∈ subjectNames env.add req,
      ∀ name ∈ policyInputEvidenceNames id req.policyInputFiles,
        Fits c.state.contract (name, .evidence)) :
    Synced (runPlain env c req runtimeInputs).2 ∧
      ∃ added, Adds added c.state (runPlain env c req runtimeInputs).2.state ∧
        ∀ p ∈ added, Fits c.state.contract p := by
  have hsubject := addSubject_subjectAdded ⟨runtimeInputs, false⟩ hgen
  simp only [runPlain] at hsubject hok ⊢
  generalize addSubject env.add c req ⟨runtimeInputs, false⟩ = result at hsubject hok ⊢
  obtain ⟨outcome, c'⟩ := result
  obtain ⟨added, hadds, hfits, hret⟩ := hsubject
  cases outcome with
  | failed e => cases hok
  | panicked => cases hok
  | ok mt =>
    obtain ⟨hsync, hmem, hid⟩ := hret mt rfl
    have hev := addPolicyInputEvidence_adds env.evidence mt req.policyInputFiles hsync
    simp only at hok hadds ⊢
    generalize addPolicyInputEvidence env.evidence c' mt req.policyInputFiles = recorded
      at hev hok ⊢
    obtain ⟨outcome, c''⟩ := recorded
    cases outcome with
    | failed e => cases hok
    | panicked => cases hok
    | ok _ =>
      obtain ⟨hevadds, hevsync⟩ := hev rfl
      refine ⟨hevsync, _, hadds.trans hevadds, fun p hp => ?_⟩
      rcases mem_append.mp hp with hp | hp
      · exact hfits p hp
      · rcases mem_cons.mp hp with rfl | hp
        · exact hfits _ hmem
        · obtain ⟨name, hname, rfl⟩ := mem_map.mp hp
          exact hevidence mt.id hid name hname

theorem runExplode_adds {env : RunEnv} {c : Crafter} {req : AddRequest} {format : ArchiveFormat}
    (hok : (runExplode env c req format runtimeInputs).1 = .ok mts) :
    Synced (runExplode env c req format runtimeInputs).2 ∧
      ∃ type entries, MaterialType.value? req.materialType = some type ∧
        (env.archive format).walk = .ok entries ∧
        Adds (explodeWrites c.state type req.materialName entries.length) c.state
          (runExplode env c req format runtimeInputs).2.state := by
  unfold runExplode at hok ⊢
  split at hok
  · rename_i mts' c' hresult
    obtain ⟨type, entries, hkind, hwalk, hadds, hsync⟩ :=
      addMaterialsFromArchive_adds (congrArg Prod.fst hresult)
    rw [hresult] at hadds hsync
    exact ⟨hsync, type, entries, hkind, hwalk, hadds⟩
  · rename_i outcome c' hnot _
    cases outcome with
    | ok mts' => exact absurd rfl (hnot mts')
    | failed e => exact nomatch hok
    | panicked => exact nomatch hok

theorem run_adds {st : CraftingState} (hok : (run env st req).1 = .ok mts)
    (hfits : ∀ p ∈ undeclaredWrites env st req, Fits st.contract p) :
    ∃ added, Adds added st (run env st req).2 ∧ ∀ p ∈ added, Fits st.contract p := by
  unfold run at hok ⊢
  cases hprep : prepareRun env req with
  | error e => simp [hprep] at hok
  | ok prepared =>
    obtain ⟨runtimeInputs, format⟩ := prepared
    simp only [hprep] at hok ⊢
    unfold undeclaredWrites at hfits
    rw [prepareRun_format hprep] at hfits
    by_cases hnone : format = .none
    · simp only [hnone, if_true] at hok hfits ⊢
      obtain ⟨hsync, added, hadds, hadded⟩ := runPlain_adds hok
        (fun p hp => hfits p (mem_append_left _ hp))
        (fun id hid name hname => hfits _ (mem_append_right _
          (mem_flatMap.mpr ⟨id, hid, mem_map_of_mem hname⟩)))
      exact ⟨added, hsync.stored_adds hadds, hadded⟩
    · simp only [hnone, if_false] at hok hfits ⊢
      obtain ⟨hsync, type, entries, hkind, hwalk, hadds⟩ := runExplode_adds hok
      rw [hkind, hwalk] at hfits
      exact ⟨_, hsync.stored_adds hadds, hfits⟩

inductive AddRuns (allowed : RunEnv → CraftingState → AddRequest → Prop) :
    CraftingState → CraftingState → Prop
  | nil (st : CraftingState) : AddRuns allowed st st
  | snoc {st st' : CraftingState} (h : AddRuns allowed st st') (env : RunEnv) (req : AddRequest)
      (mts : List Material) (hallowed : allowed env st' req) (hok : (run env st' req).1 = .ok mts) :
      AddRuns allowed st (run env st' req).2

def Supplied (st : CraftingState) (m : SchemaMaterial) : Prop :=
  ∃ mt, st.materials.get? m.name = some mt ∧ mt.materialType = m.type

theorem addRuns_typed {st st' : CraftingState}
    (h : AddRuns (fun env st req => ∀ p ∈ undeclaredWrites env st req, Fits st.contract p) st st')
    (htyped : Typed st) : Typed st' ∧ st'.contract = st.contract := by
  induction h with
  | nil => exact ⟨htyped, rfl⟩
  | snoc _ env req mts hallowed hok ih =>
    obtain ⟨added, hadds, hfits⟩ := run_adds hok hallowed
    exact ⟨hadds.typed ih.1 hfits, hadds.contract.trans ih.2⟩

theorem Typed.supplied {st : CraftingState} (h : Typed st) {m : SchemaMaterial}
    (hm : m ∈ st.contract.materials) (hname : m.name ∈ st.materials.keys) : Supplied st m := by
  rw [Map.mem_keys_iff_isSome] at hname
  obtain ⟨mt, hmt⟩ := Option.isSome_iff_exists.mp hname
  exact ⟨mt, hmt, (h m.name mt hmt m hm rfl).symm⟩

-- Every slot of the contract keeps its type along such runs, so that a complete
-- state has each required material, and one of each group, with the declared type.
theorem contract_slots_keep_type (contract : Contract) (block : Bool) (hostnames : List String)
    (project version : String) (st : CraftingState)
    (hruns : AddRuns (fun env st req => ∀ p ∈ undeclaredWrites env st req, Fits st.contract p)
      (Crafter.fresh contract block hostnames project version).state st) :
    (∀ m ∈ contract.materials, ∀ mt, st.materials.get? m.name = some mt →
      mt.materialType = m.type) ∧
    ∀ validate dryRun, validateComplete validate dryRun st = .ok () →
      (∀ m ∈ contract.materials, m.group = "" → m.optional = false → Supplied st m) ∧
      ∀ m ∈ contract.materials, m.group ≠ "" →
        ∃ m' ∈ contract.materials, m'.group = m.group ∧ Supplied st m' := by
  obtain ⟨htyped, hcontract⟩ := addRuns_typed hruns (by intro k mt hk; cases hk)
  have hmaterials : st.contract.materials = contract.materials := by rw [hcontract]; rfl
  constructor
  · intro m hm mt hmt
    exact (htyped m.name mt hmt m (hmaterials ▸ hm) rfl).symm
  · intro validate dryRun hcomplete
    have hpresence : validateMaterialsPresence st.contract.materials st.materials.keys = .ok () := by
      obtain ⟨_, _, hcomplete⟩ := bind_eq_ok.mp hcomplete
      exact hcomplete
    rw [hmaterials, validateMaterialsPresence_iff] at hpresence
    refine ⟨fun m hm hgroup hopt => ?_, fun m hm hgroup => ?_⟩
    · exact htyped.supplied (hmaterials ▸ hm) (hpresence.1 m hm hgroup hopt)
    · obtain ⟨m', hm', he, hname⟩ := hpresence.2 m hm hgroup
      exact ⟨m', hm', he, htyped.supplied (hmaterials ▸ hm') hname⟩

def artifactContract : Contract where
  materials := [⟨.artifact, "foo", false, false, [], ""⟩]
  policies := ⟨[], []⟩
  policyGroups := []
  unique := List.nodup_singleton _

def offlineStage : StageEnv where
  craftArtifact _ value := .ok ⟨value, .empty, []⟩
  validate _ := .ok ()
  groups := .offline ⟨[], false, "", false, none⟩
  standalone := .offline ⟨[], false, "", false, none⟩
  grow _ needed := needed

def offlineRun : RunEnv where
  newCrafter := .ok ()
  extractColumnValues _ _ := .ok []
  alreadyInitialized := .ok true
  loadCraftingState := .ok ()
  getCASBackend := .ok ()
  detectPath _ := .ok .zip
  archive _ := ⟨.ok (), .ok [⟨"a.json", "/tmp/a.json"⟩], fun _ => offlineStage, .ok ()⟩
  add _ := ⟨offlineStage, .ok (), 0⟩
  evidence _ := ⟨offlineStage, .ok (), 0⟩
  setMaterialValue _ := .ok ()

def artifactState : CraftingState := (Crafter.fresh artifactContract false [] "" "").state

def fooRequest (kind : String) : AddRequest := ⟨"foo", "foo.zip", kind, .empty, [], []⟩

-- With --kind SARIF the first report of the archive is stored as "foo", and the
-- state counts as complete.
theorem exploded_archive_takes_slot : ∃ st mts, AddRuns (fun _ _ _ => True) artifactState st ∧
      run offlineRun artifactState (fooRequest "SARIF") = (.ok mts, st) ∧
      (∃ mt, st.materials.get? "foo" = some mt ∧ mt.materialType = .sarif) ∧
      validateComplete (fun _ => .ok ()) false st = .ok () ∧
      ¬ Supplied st ⟨.artifact, "foo", false, false, [], ""⟩ := by
  have hok : (run offlineRun artifactState (fooRequest "SARIF")).1 = .ok
      [addReference ⟨"foo", "/tmp/a.json", .sarif, .empty, false, false⟩ ["foo-archive"]] := by
    decide +kernel
  refine ⟨_, _, .snoc (.nil _) offlineRun (fooRequest "SARIF") _ trivial hok, Prod.ext hok rfl,
    ⟨_, rfl, rfl⟩, by decide +kernel, ?_⟩
  rintro ⟨mt, hmt, htype⟩
  cases hmt
  cases htype

theorem contract_slots_keep_type_foo :
    ∃ st mt, AddRuns (fun env st req => ∀ p ∈ undeclaredWrites env st req, Fits st.contract p)
        artifactState st ∧
      st.materials.get? "foo" = some mt ∧ mt.materialType = .artifact := by
  have hok : (run offlineRun artifactState (fooRequest "")).1 = .ok
      [⟨"foo", "foo.zip", .artifact, .empty, false, true⟩] := by
    decide +kernel
  have hruns : AddRuns (fun env st req => ∀ p ∈ undeclaredWrites env st req, Fits st.contract p)
      artifactState (run offlineRun artifactState (fooRequest "")).2 :=
    .snoc (.nil _) offlineRun (fooRequest "") _ (by decide +kernel) hok
  exact ⟨_, _, hruns, rfl, (contract_slots_keep_type artifactContract false [] "" "" _ hruns).1
    ⟨.artifact, "foo", false, false, [], ""⟩ mem_cons_self _ rfl⟩

end Chainloop.Action
