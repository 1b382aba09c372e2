import Chainloop.Referrers.Extract
import Chainloop.Renderer.RoundTrip

namespace Chainloop.Referrers

open Go Structpb Renderer List Option Map

def IllTyped (e : String × Value) : Prop :=
  (e.1 = Api.annotationMaterialType ∧ ∀ s, e.2 ≠ .string s) ∨
    (e.1 = Api.annotationMaterialCAS ∧ ∀ b, e.2 ≠ .bool b)

theorem read_of_illTyped (h : IllTyped e) (info : SubjectInfo) : info.read e = .error .panic := by
  have hne : Api.annotationMaterialCAS ≠ Api.annotationMaterialType := by decide
  unfold SubjectInfo.read
  rcases h with ⟨hkey, hvalue⟩ | ⟨hkey, hvalue⟩
  · rw [if_pos hkey]
    cases hv : e.2 with
    | string s => exact absurd hv (hvalue s)
    | _ => rfl
  · rw [if_neg (hkey ▸ hne), if_pos hkey]
    cases hv : e.2 with
    | bool b => exact absurd hv (hvalue b)
    | _ => rfl

theorem read_of_not_illTyped (h : ¬ IllTyped e) (info : SubjectInfo) :
    ∃ info', info.read e = .ok info' := by
  unfold SubjectInfo.read
  split_ifs with htype hcas
  · cases hv : e.2 with
    | string s => exact ⟨_, rfl⟩
    | _ => exact absurd (.inl ⟨htype, by simp [hv]⟩) h
  · cases hv : e.2 with
    | bool b => exact ⟨_, rfl⟩
    | _ => exact absurd (.inr ⟨hcas, by simp [hv]⟩) h
  · exact ⟨info, rfl⟩

def Fails (r : Intoto.ResourceDescriptor) : Prop :=
  r.name ≠ subjectGitHead ∧ ∃ e ∈ r.annotations.entries, IllTyped e

theorem intotoSubjectToReferrer_panic (h : Fails r) :
    intotoSubjectToReferrer r = .error .panic := by
  have hpanic := (Run.foldlM_eq_panic_iff IllTyped (fun e _ info h => read_of_illTyped h info)
    (fun e _ info h => read_of_not_illTyped h info) ⟨"", false⟩).mpr h.2
  rw [intotoSubjectToReferrer, if_neg h.1, hpanic]
  rfl

theorem intotoSubjectToReferrer_ok (hdigest : digestText r ≠ "") (h : ¬ Fails r) :
    ∃ referrer, intotoSubjectToReferrer r = .ok referrer := by
  unfold intotoSubjectToReferrer
  by_cases hhead : r.name = subjectGitHead
  · simp [hhead, hdigest]
  · obtain ⟨info, hinfo⟩ := Run.foldlM_exists_ok (l := r.annotations.entries)
      (fun e he info => read_of_not_illTyped (fun hill => h ⟨hhead, e, he, hill⟩) info) ⟨"", false⟩
    rw [if_neg hhead, hinfo]
    by_cases htype : info.materialType = ""
    · exact ⟨none, by simp [bind, Except.bind, htype, pure, Except.pure]⟩
    · refine ⟨some ⟨⟨digestText r, info.materialType⟩, info.uploadedToCAS, [], .empty, .empty⟩, ?_⟩
      simp [bind, Except.bind, htype, hdigest, pure, Except.pure]

-- A subject of the statement whose type assertion fails: an output material that is not
-- in the CAS, with an annotation of the user where the flag would be.
def Forges (m : Api.Material) : Prop :=
  ∃ n, m.normalizedOutput = .ok n ∧ n.isOutput = true ∧ n.digest ≠ "" ∧ n.name ≠ subjectGitHead ∧
    m.uploadedToCas = false ∧ Api.annotationMaterialCAS ∈ m.annotations.keys

theorem exists_illTyped_iff (m : Api.Material) (name : String) :
    (∃ e ∈ (m.descriptorAnnotations name).entries, IllTyped e) ↔
      m.uploadedToCas = false ∧ Api.annotationMaterialCAS ∈ m.annotations.keys := by
  have hcas := m.get?_descriptorAnnotations_cas name
  constructor
  · rintro ⟨⟨k, v⟩, he, ⟨hkey, hvalue⟩ | ⟨hkey, hvalue⟩⟩
    · have hget := (get?_eq_some_iff ..).mpr he
      simp only at hkey hvalue
      rw [hkey, get?_materialType] at hget
      exact absurd (some.inj hget).symm (hvalue _)
    · have hget := (get?_eq_some_iff ..).mpr he
      simp only at hkey hvalue
      rw [hkey, hcas] at hget
      cases huploaded : m.uploadedToCas with rw [huploaded] at hget
      | true =>
        exact absurd (some.inj hget).symm (hvalue true)
      | false =>
        obtain ⟨text, htext, _⟩ := map_eq_some_iff.mp hget
        exact ⟨rfl, (mem_keys_iff_isSome ..).mpr (by rw [htext]; rfl)⟩
  · rintro ⟨huploaded, hkey⟩
    obtain ⟨text, htext⟩ := isSome_iff_exists.mp ((mem_keys_iff_isSome ..).mp hkey)
    rw [huploaded, htext] at hcas
    exact ⟨_, (get?_eq_some_iff ..).mp hcas, .inr ⟨rfl, fun b h => by cases h⟩⟩

inductive SubjectOf (env : RenderEnv) (att : CraftedAttestation) : Intoto.ResourceDescriptor → Prop
  | workflow (name : String) :
      SubjectOf env att ⟨name, "", empty.set "sha256" env.attestationDigest, [], .empty⟩
  | head (commit : Commit) : SubjectOf env att
      ⟨subjectGitHead, "", empty.set "sha1" commit.hash, [], commitAnnotations commit⟩
  | material (e : String × Api.Material) (n : Api.NormalizedMaterialOutput)
      (r : Intoto.ResourceDescriptor) (he : e ∈ att.materials.entries)
      (hn : e.2.normalizedOutput = .ok n) (houtput : n.isOutput = true) (hdigest : n.digest ≠ "")
      (hname : r.name = n.name) (hentries : ∃ algorithm hex, r.digest = empty.set algorithm hex)
      (hannotations : ∃ name, r.annotations = e.2.descriptorAnnotations name) : SubjectOf env att r

theorem subjectOf_of_mem (h : renderSubject env att = .ok subject) (hr : r ∈ subject) :
    SubjectOf env att r := by
  obtain ⟨ds, hds, h⟩ := bind_eq_ok.mp h
  rw [Run.wrapErr_eq_ok] at hds
  cases h
  rcases mem_append.mp hr with hr | hr
  · rcases mem_cons.mp hr with rfl | hr
    · exact .workflow _
    · split at hr
      · cases hr
      · rw [mem_singleton.mp hr]
        exact .head _
  · obtain ⟨d, hd, rfl⟩ := mem_map.mp hr
    obtain ⟨hd, hdigest⟩ := mem_filter.mp hd
    obtain ⟨e, he, hout⟩ := (mem_outputMaterials hds d).mp hd
    obtain ⟨n, hn, houtput, hdescriptor⟩ := outputMaterial_eq_some.mp hout
    obtain ⟨hannotations, n', hn', hempty, hfull⟩ :=
      Api.Material.craftingStateToIntotoDescriptor_spec hdescriptor
    rw [hn] at hn'
    cases hn'
    by_cases hnone : n.digest = ""
    · rw [hempty hnone] at hdigest
      simp [empty] at hdigest
    · obtain ⟨hname, hset⟩ := hfull hnone
      exact .material e n _ he hn (houtput rfl) hnone hname hset ⟨_, hannotations⟩

variable {att : CraftedAttestation}

theorem material_subject (h : renderSubject env att = .ok subject)
    (he : e ∈ att.materials.entries) {n : Api.NormalizedMaterialOutput}
    (hn : e.2.normalizedOutput = .ok n) (houtput : n.isOutput = true) (hdigest : n.digest ≠ "") :
    ∃ r ∈ subject, r.name = n.name ∧ ∃ name, r.annotations = e.2.descriptorAnnotations name := by
  obtain ⟨ds, hds, h⟩ := bind_eq_ok.mp h
  rw [Run.wrapErr_eq_ok] at hds
  cases h
  obtain ⟨o, ho⟩ := outputMaterial_ok hds he
  have hdescriptor : ∃ d, e.2.craftingStateToIntotoDescriptor e.1 = .ok d := by
    obtain ⟨n', hn', ho⟩ := bind_eq_ok.mp ho
    rw [hn] at hn'
    cases hn'
    rw [houtput] at ho
    obtain ⟨d, hd, _⟩ := bind_eq_ok.mp ho
    exact ⟨d, (Run.wrapErr_eq_ok ..).mp hd⟩
  obtain ⟨d, hd⟩ := hdescriptor
  have hmem : d ∈ ds :=
    (mem_outputMaterials hds d).mpr ⟨e, he, outputMaterial_eq_some.mpr ⟨n, hn, fun _ => houtput, hd⟩⟩
  obtain ⟨hannotations, n', hn', _, hfull⟩ := Api.Material.craftingStateToIntotoDescriptor_spec hd
  rw [hn] at hn'
  cases hn'
  obtain ⟨hname, algorithm, hex, hset⟩ := hfull hdigest
  refine ⟨{ d with uri := "", content := [] }, mem_append_right _ (mem_map.mpr
    ⟨d, mem_filter.mpr ⟨hmem, ?_⟩, rfl⟩), hname, _, hannotations⟩
  rw [hset]
  rfl

theorem digestText_ne_empty {r : Intoto.ResourceDescriptor}
    (h : r.digest = empty.set algorithm hex) : digestText r ≠ "" := by
  have hentries : r.digest.entries = [(algorithm, hex)] := by
    rw [h]
    rfl
  rw [digestText, hentries]
  intro hempty
  have hlist := congrArg String.toList hempty
  simp at hlist

theorem SubjectOf.digestText_ne_empty (h : SubjectOf env att r) : digestText r ≠ "" := by
  cases h with
  | workflow name => exact Referrers.digestText_ne_empty rfl
  | head commit => exact Referrers.digestText_ne_empty rfl
  | material e n r he hn houtput hdigest hname hentries hannotations =>
    obtain ⟨algorithm, hex, hset⟩ := hentries
    exact Referrers.digestText_ne_empty hset

theorem exists_fails_iff (h : renderSubject env att = .ok subject) :
    (∃ r ∈ subject, Fails r) ↔ ∃ e ∈ att.materials.entries, Forges e.2 := by
  constructor
  · rintro ⟨r, hr, hhead, hill⟩
    cases subjectOf_of_mem h hr with
    | workflow name =>
      obtain ⟨e, he, _⟩ := hill
      cases he
    | head commit => exact absurd rfl hhead
    | material e n _ he hn houtput hdigest hname _ hannotations =>
      obtain ⟨name, hannotations⟩ := hannotations
      rw [hannotations, exists_illTyped_iff] at hill
      exact ⟨e, he, n, hn, houtput, hdigest, hname ▸ hhead, hill⟩
  · rintro ⟨e, he, n, hn, houtput, hdigest, hhead, hforged⟩
    obtain ⟨r, hr, hname, name, hannotations⟩ := material_subject h he hn houtput hdigest
    refine ⟨r, hr, hname ▸ hhead, ?_⟩
    rw [hannotations, exists_illTyped_iff]
    exact hforged

-- The attestations among the materials of a statement are in the system.
def AttestationsKnown (print : Value → String) (exist : String → Except GoError Bool)
    (s : Statement) : Prop :=
  ∀ p, s.extractPredicate = .ok p → ∀ m ∈ getMaterials print p, ∀ hash, m.hash = some hash →
    checkAttestation exist m hash = .ok ()

theorem addMaterial_eq_ok_iff (exist : String → Except GoError Bool) (d : Draft)
    (m : NormalizedMaterial) : (∃ d', addMaterial exist d m = .ok d') ↔
      ∀ hash, m.hash = some hash → checkAttestation exist m hash = .ok () := by
  unfold addMaterial
  cases m.hash with
  | none => simp
  | some hash => cases hcheck : checkAttestation exist m hash <;>
      simp [bind, Except.bind, hcheck, pure, Except.pure]

theorem addMaterials_eq_ok_iff (exist : String → Except GoError Bool) (ms : List NormalizedMaterial)
    (d : Draft) : (∃ d', ms.foldlM (addMaterial exist) d = .ok d') ↔
      ∀ m ∈ ms, ∀ hash, m.hash = some hash → checkAttestation exist m hash = .ok () := by
  induction ms generalizing d with
  | nil => simp [pure, Except.pure]
  | cons m rest ih =>
    rw [forall_mem_cons, ← addMaterial_eq_ok_iff exist d m]
    constructor
    · rintro ⟨d', h⟩
      obtain ⟨next, hnext, h⟩ := bind_eq_ok.mp h
      exact ⟨⟨next, hnext⟩, (ih next).mp ⟨d', h⟩⟩
    · rintro ⟨⟨next, hnext⟩, hrest⟩
      obtain ⟨d', h⟩ := (ih next).mpr hrest
      exact ⟨d', bind_eq_ok.mpr ⟨next, hnext, h⟩⟩

theorem addSubjects_eq_panic_iff {subject : List Intoto.ResourceDescriptor}
    (hdigest : ∀ r ∈ subject, digestText r ≠ "") (d : Draft) :
    subject.foldlM addSubject d = .error .panic ↔ ∃ r ∈ subject, Fails r := by
  refine Run.foldlM_eq_panic_iff Fails (fun r _ d hfails => ?_) (fun r hr d hreads => ?_) d
  · rw [addSubject, intotoSubjectToReferrer_panic hfails]
    rfl
  · obtain ⟨referrer, hreferrer⟩ := intotoSubjectToReferrer_ok (hdigest r hr) hreads
    rw [addSubject, hreferrer]
    cases referrer with
    | none => exact ⟨d, rfl⟩
    | some r => exact ⟨d.link r, rfl⟩

theorem extractReferrers_never_panics_iff {env : RenderEnv} {att : CraftedAttestation}
    {s : Statement} (h : renderStatement env att = .ok s) (print : Value → String)
    (exist : String → Except GoError Bool) (digest : String) :
    extractReferrers print exist ⟨.ok s⟩ digest ≠ .error .panic ↔
      ¬ (AttestationsKnown print exist s ∧ ∃ e ∈ att.materials.entries, Forges e.2) := by
  obtain ⟨p, hp, hextract⟩ := extractPredicate_renderStatement h
  obtain ⟨_, _, hsubject, _, _⟩ := renderStatement_spec h
  obtain ⟨_, _, hmetadata, _, _⟩ := renderPredicate_spec hp
  have hdigest : ∀ r ∈ s.subject, digestText r ≠ "" :=
    fun r hr => (subjectOf_of_mem hsubject hr).digestText_ne_empty
  have hknown : AttestationsKnown print exist s ↔ ∀ m ∈ getMaterials print p, ∀ hash,
      m.hash = some hash → checkAttestation exist m hash = .ok () := by
    constructor
    · exact fun hall => hall p hextract
    · intro hall p' hp'
      rw [hextract] at hp'
      cases hp'
      exact hall
  have hattestation : ∃ a, attestationReferrer digest p = .ok a := by
    simp [attestationReferrer, hmetadata]
  obtain ⟨a, ha⟩ := hattestation
  rw [not_iff_not, hknown, ← addMaterials_eq_ok_iff exist _ ⟨a, .empty⟩, ← exists_fails_iff hsubject,
    extractReferrers_eq hextract ha]
  cases hmaterials : (getMaterials print p).foldlM (addMaterial exist) ⟨a, .empty⟩ with
  | error e => simp [Run.ofExcept, Except.mapError, bind, Except.bind]
  | ok d =>
    rw [← addSubjects_eq_panic_iff hdigest d]
    cases hrun : s.subject.foldlM addSubject d with
    | error f => simp [bind, Except.bind, hrun]
    | ok d' => simp [bind, Except.bind, hrun, pure, Except.pure]

def binaryAttestation (annotations : Map String String) : CraftedAttestation :=
  ⟨⟨[], false, false⟩, buildWorkflow,
    ((stageBinary annotations).toOption.map (empty.set "binary")).getD .empty, .empty, none⟩

def releaseAnnotation : Map String String := empty.set "release" "yes"

theorem extractReferrers_never_panics_release :
    ∃ s, renderStatement inlineEnv (binaryAttestation releaseAnnotation) = .ok s ∧
      extractReferrers (fun _ => "") (fun _ => .ok true) ⟨.ok s⟩ "sha256:aa" ≠ .error .panic := by
  have hrun : ((renderStatement inlineEnv (binaryAttestation releaseAnnotation)).toOption.map
      fun _ => ()) = some () := by decide +kernel
  have hplain : (binaryAttestation releaseAnnotation).materials.entries.all
      (fun e => !e.2.annotations.keys.contains Api.annotationMaterialCAS) = true := by decide +kernel
  obtain ⟨s, hs, _⟩ := exists_ok_of_toOption hrun
  refine ⟨s, hs, (extractReferrers_never_panics_iff hs _ _ _).mpr ?_⟩
  rintro ⟨_, e, he, n, _, _, _, _, _, hkey⟩
  have hmissing := all_eq_true.mp hplain e he
  simp [hkey] at hmissing

def casAnnotation : Map String String := empty.set "chainloop.material.cas" "true"

-- A text of the user under the key of the flag is asserted to be a bool.
theorem user_annotation_panics_control_plane :
    ∃ s, renderStatement inlineEnv (binaryAttestation casAnnotation) = .ok s ∧
      extractReferrers (fun _ => "") (fun _ => .ok true) ⟨.ok s⟩ "sha256:aa" = .error .panic := by
  have hrun : ((renderStatement inlineEnv (binaryAttestation casAnnotation)).toOption.map fun s =>
      errorOf (extractReferrers (fun _ => "") (fun _ => .ok true) ⟨.ok s⟩ "sha256:aa"))
        = some (some .panic) := by decide +kernel
  obtain ⟨s, hs, hpanic⟩ := exists_ok_of_toOption hrun
  exact ⟨s, hs, eq_error_of_errorOf hpanic⟩

end Chainloop.Referrers
