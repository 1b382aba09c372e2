import Chainloop.Referrers.Graph

namespace Chainloop.Referrers

open Go Structpb Renderer List Map

def Envelope.materials (print : Value → String) (e : Envelope) : List Referrer :=
  match e.extractStatement with
  | .error _ => []
  | .ok statement =>
    match statement.extractPredicate with
    | .error _ => []
    | .ok predicate => materialItems (getMaterials print predicate)

def Envelope.subjects (e : Envelope) : List Referrer :=
  match e.extractStatement with
  | .error _ => []
  | .ok statement => statement.subject.filterMap fun subject =>
    match intotoSubjectToReferrer subject with
    | .ok (some r) => some r
    | _ => none

-- The attestation has a material with this digest and kind that was uploaded to the CAS.
def Envelope.Uploads (print : Value → String) (e : Envelope) (ref : Ref) : Prop :=
  ∃ m ∈ e.materials print, m.toRef = ref ∧ m.downloadable = true

-- Every stored referrer but the attestations is marked as downloadable exactly when one
-- of the saved attestations uploads it.
def Truthful (print : Value → String) (saved : List Push) (s : Store) : Prop :=
  ∀ row ∈ s.referrers, row.kind ≠ referrerAttestationType →
    (row.downloadable = true ↔ ∃ p ∈ saved, p.envelope.Uploads print row.toRef)

namespace Extraction

variable {print : Value → String} {att : Envelope} {digest : String}

theorem materials_eq (x : Extraction print att digest) :
    att.materials print = materialItems (getMaterials print x.predicate) := by
  rw [Envelope.materials, x.hstatement]
  simp only [x.hpredicate]

theorem mem_items (x : Extraction print att digest) (hr : r ∈ x.items) :
    r ∈ att.materials print ∨ r ∈ att.subjects := by
  rcases mem_append.mp hr with hr | hr
  · rw [x.materials_eq]
    exact .inl hr
  · obtain ⟨subject, hsubject, hread⟩ := x.hsubjects r hr
    refine .inr ?_
    rw [Envelope.subjects, x.hstatement]
    exact mem_filterMap.mpr ⟨subject, hsubject, by rw [hread]⟩

end Extraction

theorem Draft.link_get? (d : Draft) (r : Referrer) (hkey : key ≠ d.attestation.mapID) :
    (d.link r).others.get? key = (d.others.get? key).or
      (if r.mapID = key then some { r with references := [d.attestation.toRef] } else none) := by
  unfold Draft.link
  by_cases hhas : d.has r.mapID
  · rw [if_pos hhas]
    by_cases hr : r.mapID = key
    · have hmem : key ∈ d.others.keys := by
        rw [← hr]
        exact hhas.resolve_left (fun heq => hkey (hr.symm.trans heq))
      obtain ⟨r', hr'⟩ := Option.isSome_iff_exists.mp ((mem_keys_iff_isSome ..).mp hmem)
      rw [hr']
      rfl
    · rw [if_neg hr, Option.or_none]
  · rw [if_neg hhas]
    simp only [get?_set]
    by_cases hr : r.mapID = key
    · have hnone : d.others.get? key = none := by
        rw [get?_eq_none_iff, ← hr]
        exact fun hmem => hhas (.inr hmem)
      rw [hnone, if_pos hr.symm, if_pos hr]
      rfl
    · rw [if_neg (Ne.symm hr), if_neg hr, Option.or_none]

theorem Draft.foldl_get? (items : List Referrer) {d : Draft} (hkey : key ≠ d.attestation.mapID) :
    (items.foldl Draft.link d).others.get? key = (d.others.get? key).or
      ((items.find? fun r => r.mapID = key).map
        fun r => { r with references := [d.attestation.toRef] }) := by
  induction items generalizing d with
  | nil => simp
  | cons r rest ih =>
    have hroot := d.link_toRef r
    rw [foldl_cons, ih (by rw [hroot]; exact hkey), d.link_get? r hkey, hroot,
      find?_cons, Option.or_assoc]
    by_cases hr : r.mapID = key <;> simp [hr]

theorem Extraction.draft_get? (x : Extraction print att digest) (hkey : key ≠ x.attestation.mapID) :
    x.draft.others.get? key = (x.items.find? fun r => r.mapID = key).map
      fun r => { r with references := [x.attestation.toRef] } := by
  have h := Draft.foldl_get? x.items (d := ⟨x.attestation, .empty⟩) hkey
  exact h

theorem Extraction.find_referrer (x : Extraction print att digest) {ref : Ref}
    (hkind : ref.kind ≠ referrerAttestationType) (r : Referrer) :
    x.draft.referrers.find? (fun r => r.toRef = ref) = some r ↔
      r.toRef = ref ∧ x.draft.others.get? ref.mapID = some r := by
  obtain ⟨hstar, hroot⟩ := x.star
  have hmem (r) : r ∈ x.draft.referrers ↔
      r = x.draft.attestation ∨ ∃ e ∈ x.draft.others.entries, e.2 = r := by
    rw [x.draft.referrers_perm.mem_iff, mem_cons, mem_map]
  constructor
  · intro hfind
    have href : r.toRef = ref := by simpa using find?_some hfind
    refine ⟨href, ?_⟩
    rcases (hmem r).mp (mem_of_find?_eq_some hfind) with rfl | ⟨e, he, rfl⟩
    · rw [hroot] at href
      exact absurd (by rw [← href]) hkind
    · rw [get?_eq_some_iff, ← href, ← hstar.keyed e he]
      exact he
  · rintro ⟨href, hget⟩
    have hr : r ∈ x.draft.referrers :=
      (hmem r).mpr (.inr ⟨_, (get?_eq_some_iff ..).mp hget, rfl⟩)
    exact find?_of_nodup (hstar.toStar hroot).distinct hr href

-- A push after which the marks are as right as before: what it uploads is marked
-- already, or it is new, uploaded wherever it occurs and the only one with its key; and a
-- subject that is marked and new is one of the uploaded materials.
structure KeepsMarks (print : Value → String) (s : Store) (p : Push) : Prop where
  materials : ∀ m ∈ p.envelope.materials print, m.downloadable = true →
    m.kind ≠ referrerAttestationType →
      (∃ row, s.find m.toRef = some row ∧ row.downloadable = true) ∨ (s.find m.toRef = none ∧
          (∀ m' ∈ p.envelope.materials print, m'.toRef = m.toRef → m'.downloadable = true) ∧
          ∀ ref ∈ ⟨p.digest, referrerAttestationType⟩ ::
            (p.envelope.materials print).map Referrer.toRef, ref.mapID = m.mapID → ref = m.toRef)
  subjects : ∀ r ∈ p.envelope.subjects, r.downloadable = true → r.kind ≠ referrerAttestationType →
      (s.find r.toRef).isSome ∨ p.envelope.Uploads print r.toRef

-- The invariant of a run, for stored and for unknown referrers alike.
def Marked (print : Value → String) (saved : List Push) (s : Store) : Prop :=
  ∀ ref : Ref, ref.kind ≠ referrerAttestationType →
    ((∃ row, s.find ref = some row ∧ row.downloadable = true) ↔
      ∃ p ∈ saved, p.envelope.Uploads print ref)

theorem Marked.truthful (h : Marked print saved s) : Truthful print saved s := by
  intro row hrow hkind
  have hfind := s.find_of_mem hrow
  rw [← h row.toRef hkind]
  constructor
  · exact fun hdownloadable => ⟨row, hfind, hdownloadable⟩
  · rintro ⟨row', hfind', hdownloadable⟩
    rw [hfind] at hfind'
    cases hfind'
    exact hdownloadable

theorem Extraction.uploaded_first {p : Push} {s : Store} (x : Extraction print p.envelope p.digest)
    (hkeeps : KeepsMarks print s p) {m : Referrer} (hm : m ∈ p.envelope.materials print)
    (hdownloadable : m.downloadable = true) (hkind : m.kind ≠ referrerAttestationType)
    (hnew : s.find m.toRef = none) :
    ∃ r, x.draft.referrers.find? (fun r => r.toRef = m.toRef) = some r ∧ r.downloadable = true := by
  rcases hkeeps.materials m hm hdownloadable hkind with ⟨row, hrow, _⟩ | ⟨_, hsame, hkeys⟩
  · rw [hnew] at hrow
    cases hrow
  have hroot : m.mapID ≠ x.attestation.mapID := by
    intro heq
    rw [x.attestation_eq.1] at heq
    have href := hkeys _ mem_cons_self heq.symm
    exact hkind (by rw [← href])
  obtain ⟨first, hfirst⟩ := Option.isSome_iff_exists.mp (find?_isSome.mpr ⟨m, hm, by simp⟩ :
      ((p.envelope.materials print).find? fun r => r.mapID = m.mapID).isSome)
  have hmem := mem_of_find?_eq_some hfirst
  have hkey : first.mapID = m.mapID := by simpa using find?_some hfirst
  have href : first.toRef = m.toRef :=
    hkeys _ (mem_cons_of_mem _ (mem_map_of_mem hmem)) hkey
  refine ⟨{ first with references := [x.attestation.toRef] },
    (x.find_referrer hkind _).mpr ⟨href, ?_⟩, hsame first hmem href⟩
  rw [x.draft_get? hroot, Extraction.items, find?_append, ← x.materials_eq, hfirst]
  rfl

theorem Extraction.uploads_of_marked {p : Push} {s : Store}
    (x : Extraction print p.envelope p.digest) (hkeeps : KeepsMarks print s p) {ref : Ref}
    (hkind : ref.kind ≠ referrerAttestationType) (hnew : s.find ref = none) {r : Referrer}
    (hfind : x.draft.referrers.find? (fun r => r.toRef = ref) = some r)
    (hdownloadable : r.downloadable = true) : p.envelope.Uploads print ref := by
  obtain ⟨href, hget⟩ := (x.find_referrer hkind r).mp hfind
  have hroot : ref.mapID ≠ x.attestation.mapID := by
    intro heq
    have hown := x.star.1.own
    rw [x.star.2, ← x.attestation_eq.1, ← heq, mem_keys_iff_isSome, hget] at hown
    exact hown rfl
  rw [x.draft_get? hroot] at hget
  obtain ⟨item, hitem, rfl⟩ := Option.map_eq_some_iff.mp hget
  rcases x.mem_items (mem_of_find?_eq_some hitem) with hmaterial | hsubject
  · exact ⟨item, hmaterial, href, hdownloadable⟩
  · rcases hkeeps.subjects item hsubject hdownloadable (href ▸ hkind) with hstored | huploads
    · have hnone : s.find item.toRef = none := by
        rw [← hnew, ← href]
      rw [hnone] at hstored
      cases hstored
    · exact href ▸ huploads

theorem Marked.step (h : Marked print saved s) (hkeeps : KeepsMarks print s p)
    (hstep : extractAndPersist print s c p = .ok s') : Marked print (saved ++ [p]) s' := by
  obtain ⟨workflowID, rs, hrs, hsave⟩ := extractAndPersist_ok hstep
  obtain ⟨x, rfl⟩ := extractReferrers_ok hrs
  have hfind := (save_ok hsave).1
  intro ref hkind
  have hsaved : (∃ q ∈ saved ++ [p], q.envelope.Uploads print ref) ↔
      (∃ row, s.find ref = some row ∧ row.downloadable = true) ∨ p.envelope.Uploads print ref := by
    rw [h ref hkind]
    simp
  rw [hsaved, hfind ref]
  cases hold : s.find ref with
  | some row =>
    rw [Option.some_or]
    constructor
    · exact .inl
    · rintro (hrow | ⟨m, hm, href, hdownloadable⟩)
      · exact hrow
      · rw [← href] at hold hkind
        rcases hkeeps.materials m hm hdownloadable hkind with ⟨row', hrow', hmark⟩ | ⟨hnone, _⟩
        · exact ⟨row', by rw [← hold]; exact hrow', hmark⟩
        · rw [hold] at hnone
          cases hnone
  | none =>
    constructor
    · rintro ⟨row, hrow, hmark⟩
      obtain ⟨r, hr, rfl⟩ := Option.map_eq_some_iff.mp hrow
      exact .inr (x.uploads_of_marked hkeeps hkind hold hr hmark)
    · rintro (⟨row, hrow, _⟩ | ⟨m, hm, rfl, hdownloadable⟩)
      · cases hrow
      · obtain ⟨r, hr, hmark⟩ := x.uploaded_first hkeeps hm hdownloadable hkind hold
        exact ⟨newRow c r, by rw [hr]; rfl, hmark⟩

inductive MarkingRun (print : Value → String) : List Push → Store → Prop
  | start (s : Store) (hempty : s.referrers = []) : MarkingRun print [] s
  | save (saved : List Push) (s s' : Store) (c : Connection) (p : Push)
      (hrun : MarkingRun print saved s) (hkeeps : KeepsMarks print s p)
      (hstep : extractAndPersist print s c p = .ok s') : MarkingRun print (saved ++ [p]) s'

theorem MarkingRun.marked (h : MarkingRun print saved s) : Marked print saved s := by
  induction h with
  | start s hempty =>
    intro ref _
    simp [Store.find, hempty]
  | save saved s s' c p hrun hkeeps hstep ih => exact ih.step hkeeps hstep

theorem downloadable_truthful_along_runs {print : Value → String} {saved : List Push} {s : Store}
    (h : MarkingRun print saved s) : Truthful print saved s := h.marked.truthful

theorem zeros_plain : ':' ∉ "00".toList := by decide

def uploadedAttestation : CraftedAttestation :=
  let staged := Crafters.stageSource (fun _ => ⟨"00", zeros_plain⟩) binaryInput false
    ⟨"cas", 0, some fun _ => .ok ()⟩ (.file "app" [1, 2] []) .empty
  ⟨⟨[], false, false⟩, buildWorkflow, (staged.toOption.map (empty.set "binary")).getD .empty,
    .empty, none⟩

def binaryRef : Ref := ⟨"sha256:00", "ARTIFACT"⟩

theorem downloadable_truthful_after_upload :
    ∃ uploaded s, renderStatement inlineEnv uploadedAttestation = .ok uploaded ∧
      extractAndPersist (fun _ => "") buildStore (goodConnection 0) (pushOf uploaded "sha256:aa") = .ok s ∧
      (∃ row, s.find binaryRef = some row ∧ row.downloadable = true) ∧
      Truthful (fun _ => "") [pushOf uploaded "sha256:aa"] s := by
  have hrun : ((renderStatement inlineEnv uploadedAttestation).toOption.bind fun uploaded =>
      (extractAndPersist (fun _ => "") buildStore (goodConnection 0)
        (pushOf uploaded "sha256:aa")).toOption.map fun s =>
          ((s.find binaryRef).map Row.downloadable,
            ((pushOf uploaded "sha256:aa").envelope.materials fun _ => "").map
              fun m => (m.toRef, m.downloadable),
            (pushOf uploaded "sha256:aa").envelope.subjects.map fun r => r.toRef))
        = some (some true, [(binaryRef, true)], [binaryRef]) := by decide +kernel
  obtain ⟨uploaded, huploaded, hrun⟩ := Option.bind_eq_some_iff.mp hrun
  obtain ⟨s, hs, hfields⟩ := Option.map_eq_some_iff.mp hrun
  obtain ⟨hrow, hlists⟩ := Prod.ext_iff.mp hfields
  obtain ⟨hmaterials, hsubjects⟩ := Prod.ext_iff.mp hlists
  simp only at hrow hmaterials hsubjects
  obtain ⟨row, hfind, hmark⟩ := Option.map_eq_some_iff.mp hrow
  have hall : ∀ m ∈ (pushOf uploaded "sha256:aa").envelope.materials fun _ => "",
      m.toRef = binaryRef ∧ m.downloadable = true := by
    intro m hm
    have hpair := mem_map_of_mem (f := fun m => (m.toRef, m.downloadable)) hm
    rw [hmaterials, mem_singleton] at hpair
    exact Prod.ext_iff.mp hpair
  have hkeeps : KeepsMarks (fun _ => "") buildStore (pushOf uploaded "sha256:aa") := by
    refine ⟨fun m hm _ _ => .inr ⟨rfl, fun m' hm' _ => (hall m' hm').2, fun ref href hkey => ?_⟩,
      fun r hr _ _ => .inr ?_⟩
    · rw [(hall m hm).1] at hkey ⊢
      rcases mem_cons.mp href with rfl | href
      · exact absurd (show newRef "sha256:aa" "ATTESTATION" = newRef "sha256:00" "ARTIFACT" from hkey)
          (by decide)
      · obtain ⟨m', hm', rfl⟩ := mem_map.mp href
        exact (hall m' hm').1
    · have href := mem_map_of_mem (f := fun r => r.toRef) hr
      rw [hsubjects, mem_singleton] at href
      obtain ⟨m, hm⟩ := exists_mem_of_ne_nil
        ((pushOf uploaded "sha256:aa").envelope.materials fun _ => "") (by
          intro hnil
          rw [hnil] at hmaterials
          cases hmaterials)
      exact ⟨m, hm, (hall m hm).1.trans href.symm, (hall m hm).2⟩
  have hstep := eq_ok_of_toOption hs
  exact ⟨uploaded, s, eq_ok_of_toOption huploaded, hstep, ⟨row, hfind, hmark⟩,
    downloadable_truthful_along_runs
      (.save [] buildStore s (goodConnection 0) _ (.start _ rfl) hkeeps hstep)⟩

-- The file is first attested without an upload. Once it is uploaded, its row is left as
-- it is.
theorem later_upload_is_not_marked :
    ∃ inline uploaded s, renderStatement inlineEnv (binaryAttestation .empty) = .ok inline ∧
      renderStatement inlineEnv uploadedAttestation = .ok uploaded ∧
      completedSaves (fun _ => "") buildStore [(goodConnection 0, pushOf inline "sha256:aa"),
        (goodConnection 100, pushOf uploaded "sha256:bb")] = .ok s ∧
      ¬ Truthful (fun _ => "") [pushOf inline "sha256:aa", pushOf uploaded "sha256:bb"] s := by
  have hrun : ((renderStatement inlineEnv (binaryAttestation .empty)).toOption.bind fun inline =>
      (renderStatement inlineEnv uploadedAttestation).toOption.bind fun uploaded =>
        (completedSaves (fun _ => "") buildStore [(goodConnection 0, pushOf inline "sha256:aa"),
          (goodConnection 100, pushOf uploaded "sha256:bb")]).toOption.map fun s =>
            ((s.find binaryRef).map Row.downloadable,
              ((pushOf uploaded "sha256:bb").envelope.materials fun _ => "").map
                fun m => (m.toRef, m.downloadable)))
        = some (some false, [(binaryRef, true)]) := by decide +kernel
  obtain ⟨inline, hinline, hrun⟩ := Option.bind_eq_some_iff.mp hrun
  obtain ⟨uploaded, huploaded, hrun⟩ := Option.bind_eq_some_iff.mp hrun
  obtain ⟨s, hs, hfields⟩ := Option.map_eq_some_iff.mp hrun
  obtain ⟨hrow, hmaterials⟩ := Prod.ext_iff.mp hfields
  simp only at hrow hmaterials
  obtain ⟨row, hfind, hmark⟩ := Option.map_eq_some_iff.mp hrow
  obtain ⟨hmem, href⟩ := Store.find_eq_some hfind
  refine ⟨inline, uploaded, s, eq_ok_of_toOption hinline, eq_ok_of_toOption huploaded,
    eq_ok_of_toOption hs, fun htruthful => ?_⟩
  have hmarked := (htruthful row hmem (by rw [href]; decide)).mpr ⟨_, mem_cons_of_mem _
    (mem_singleton_self _), ?_⟩
  · rw [hmark] at hmarked
    cases hmarked
  · have hpair : (binaryRef, true) ∈ ((pushOf uploaded "sha256:bb").envelope.materials
        fun _ => "").map fun m => (m.toRef, m.downloadable) := by
      rw [hmaterials]
      exact mem_singleton_self _
    obtain ⟨m, hm, hpair⟩ := mem_map.mp hpair
    obtain ⟨hm', hdownloadable⟩ := Prod.ext_iff.mp hpair
    exact ⟨m, hm, hm'.trans href.symm, hdownloadable⟩

end Chainloop.Referrers
