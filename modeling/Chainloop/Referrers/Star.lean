import Chainloop.Referrers.Extract

namespace Chainloop.Referrers

open Go Structpb Renderer List Except

variable {d : Draft} {r : Referrer}

-- The links go from the attestation to every other referrer, once, and from each of
-- them back.
structure Draft.Star (d : Draft) : Prop where
  own : d.attestation.mapID ∉ d.others.keys
  keyed : ∀ e ∈ d.others.entries, e.1 = e.2.mapID
  back : ∀ e ∈ d.others.entries, e.2.references = [d.attestation.toRef]
  forth : d.attestation.references = d.others.entries.map fun e => e.2.toRef

theorem Draft.link_of_has (h : d.has r.mapID) : d.link r = d := if_pos h

theorem Draft.link_toRef (d : Draft) (r : Referrer) :
    (d.link r).attestation.toRef = d.attestation.toRef := by
  unfold Draft.link
  split <;> rfl

theorem Draft.link_entries (h : ¬ d.has r.mapID) : (d.link r).others.entries =
      d.others.entries ++ [(r.mapID, { r with references := [d.attestation.toRef] })] := by
  have hfresh : r.mapID ∉ d.others.keys := fun hmem => h (.inr hmem)
  rw [Draft.link, if_neg h]
  exact Map.set_entries_of_fresh _ _ _ hfresh

theorem Draft.Star.link (h : d.Star) (r : Referrer) : (d.link r).Star := by
  by_cases hhas : d.has r.mapID
  · rw [Draft.link_of_has hhas]
    exact h
  · have hentries := Draft.link_entries hhas
    have hroot := d.link_toRef r
    refine ⟨?_, fun e he => ?_, fun e he => ?_, ?_⟩
    · have hown : d.attestation.mapID ≠ r.mapID := fun heq => hhas (.inl heq.symm)
      rw [hroot, Map.keys, hentries, map_append, mem_append, not_or]
      exact ⟨h.own, by simpa using hown⟩
    · rw [hentries, mem_append, mem_singleton] at he
      rcases he with he | rfl
      · exact h.keyed e he
      · rfl
    · rw [hroot]
      rw [hentries, mem_append, mem_singleton] at he
      rcases he with he | rfl
      · exact h.back e he
      · rfl
    · rw [hentries, map_append, ← h.forth, Draft.link, if_neg hhas]
      rfl

theorem Draft.star_foldl (h : d.Star) (items : List Referrer) : (items.foldl Draft.link d).Star ∧
      (items.foldl Draft.link d).attestation.toRef = d.attestation.toRef := by
  induction items generalizing d with
  | nil => exact ⟨h, rfl⟩
  | cons r rest ih =>
    obtain ⟨hstar, hroot⟩ := ih (h.link r)
    exact ⟨hstar, hroot.trans (d.link_toRef r)⟩

theorem Draft.referrers_perm (d : Draft) :
    d.referrers.Perm (d.attestation :: d.others.entries.map Prod.snd) := by
  exact (perm_insertionSort _ _).map Prod.snd

def materialItems (ms : List NormalizedMaterial) : List Referrer :=
  ms.filterMap fun m => m.hash.map (materialReferrer m)

theorem addMaterials_link {ms : List NormalizedMaterial}
    (h : ms.foldlM (addMaterial exist) d = .ok d') :
    d' = (materialItems ms).foldl Draft.link d := by
  induction ms generalizing d with
  | nil => exact (ok.inj h).symm
  | cons m rest ih =>
    obtain ⟨next, hnext, h⟩ := bind_eq_ok.mp h
    rw [ih h]
    unfold addMaterial at hnext
    cases hhash : m.hash with rw [hhash] at hnext
    | none =>
      rw [← ok.inj hnext, materialItems, materialItems,
        filterMap_cons_none (by rw [hhash]; rfl)]
    | some hash =>
      obtain ⟨_, _, hnext⟩ := bind_eq_ok.mp hnext
      rw [← ok.inj hnext, materialItems, materialItems,
        filterMap_cons_some (by rw [hhash]; rfl), foldl_cons]

theorem addSubjects_link {subjects : List Intoto.ResourceDescriptor}
    (h : subjects.foldlM addSubject d = .ok d') :
    ∃ items : List Referrer, d' = items.foldl Draft.link d ∧
      ∀ r ∈ items, ∃ subject ∈ subjects, intotoSubjectToReferrer subject = .ok (some r) := by
  induction subjects generalizing d with
  | nil => exact ⟨[], (ok.inj h).symm, by simp⟩
  | cons subject rest ih =>
    obtain ⟨next, hnext, h⟩ := bind_eq_ok.mp h
    obtain ⟨items, hd', hitems⟩ := ih h
    have hrest (r) (hr : r ∈ items) : ∃ subject' ∈ subject :: rest,
        intotoSubjectToReferrer subject' = .ok (some r) := by
      obtain ⟨subject', hmem, hr⟩ := hitems r hr
      exact ⟨subject', mem_cons_of_mem _ hmem, hr⟩
    obtain ⟨referrer, hreferrer, hnext⟩ := bind_eq_ok.mp hnext
    rw [Run.wrapErr_eq_ok] at hreferrer
    cases referrer with rw [← ok.inj hnext] at hd'
    | none =>
      exact ⟨items, hd', hrest⟩
    | some r =>
      refine ⟨r :: items, hd', fun r' hr' => ?_⟩
      rcases mem_cons.mp hr' with rfl | hr'
      · exact ⟨subject, mem_cons_self, hreferrer⟩
      · exact hrest r' hr'

structure Extraction (print : Value → String) (att : Envelope) (digest : String) where
  statement : Statement
  predicate : ProvenancePredicateV02
  attestation : Referrer
  subjectItems : List Referrer
  hstatement : att.extractStatement = .ok statement
  hpredicate : statement.extractPredicate = .ok predicate
  hattestation : attestationReferrer digest predicate = .ok attestation
  hsubjects : ∀ r ∈ subjectItems, ∃ subject ∈ statement.subject,
    intotoSubjectToReferrer subject = .ok (some r)

namespace Extraction

variable {print : Value → String} {att : Envelope} {digest : String}

def items (x : Extraction print att digest) : List Referrer :=
  materialItems (getMaterials print x.predicate) ++ x.subjectItems

def draft (x : Extraction print att digest) : Draft :=
  x.items.foldl Draft.link ⟨x.attestation, .empty⟩

theorem attestation_eq (x : Extraction print att digest) :
    x.attestation.toRef = ⟨digest, referrerAttestationType⟩ ∧ x.attestation.references = [] := by
  have h := x.hattestation
  unfold attestationReferrer at h
  split at h
  · cases h
  · rw [← ok.inj h]
    exact ⟨rfl, rfl⟩

theorem star (x : Extraction print att digest) :
    x.draft.Star ∧ x.draft.attestation.toRef = ⟨digest, referrerAttestationType⟩ := by
  obtain ⟨hroot, hempty⟩ := x.attestation_eq
  have hinit : Draft.Star ⟨x.attestation, .empty⟩ :=
    ⟨not_mem_nil, fun e he => absurd he not_mem_nil, fun e he => absurd he not_mem_nil, hempty⟩
  obtain ⟨hstar, htoRef⟩ := Draft.star_foldl hinit x.items
  exact ⟨hstar, htoRef.trans hroot⟩

end Extraction

theorem extractReferrers_ok (h : extractReferrers print exist att digest = .ok rs) :
    ∃ x : Extraction print att digest, rs = x.draft.referrers := by
  obtain ⟨statement, hstatement, h⟩ := bind_eq_ok.mp h
  obtain ⟨predicate, hpredicate, h⟩ := bind_eq_ok.mp h
  obtain ⟨attestation, hattestation, h⟩ := bind_eq_ok.mp h
  obtain ⟨d, hmaterials, h⟩ := bind_eq_ok.mp h
  obtain ⟨d', hsubjects, h⟩ := bind_eq_ok.mp h
  simp only [Run.ofExcept_eq_ok, wrapErr_eq_ok] at hstatement hpredicate hmaterials
  obtain ⟨items, hitems, hread⟩ := addSubjects_link hsubjects
  refine ⟨⟨statement, predicate, attestation, items, hstatement, hpredicate, hattestation, hread⟩, ?_⟩
  rw [Extraction.draft, Extraction.items, foldl_append, ← addMaterials_link hmaterials, ← hitems]
  exact (ok.inj h).symm

structure Star (digest : String) (rs : List Referrer) : Prop where
  distinct : (rs.map Referrer.toRef).Nodup
  links : ∃ attestation others, rs.Perm (attestation :: others) ∧
    attestation.toRef = ⟨digest, referrerAttestationType⟩ ∧
    attestation.references.Perm (others.map Referrer.toRef) ∧
    ∀ r ∈ others, r.references = [attestation.toRef]

theorem Draft.Star.nodup_mapID (h : d.Star) :
    ((d.attestation :: d.others.entries.map Prod.snd).map fun r => r.mapID).Nodup := by
  have hkeys : (d.others.entries.map Prod.snd).map (fun r => r.mapID) = d.others.keys := by
    rw [map_map]
    exact map_congr_left fun e he => (h.keyed e he).symm
  rw [map_cons, hkeys]
  exact nodup_cons.mpr ⟨h.own, d.others.nodup⟩

-- Two entries with one kind and one digest would have one key.
theorem Draft.Star.toStar (h : d.Star)
    (hroot : d.attestation.toRef = ⟨digest, referrerAttestationType⟩) :
    Referrers.Star digest d.referrers := by
  have hperm := d.referrers_perm
  refine ⟨?_, d.attestation, d.others.entries.map Prod.snd, hperm, hroot, ?_, fun r hr => ?_⟩
  · refine (hperm.map _).nodup_iff.mpr (List.Nodup.of_map Ref.mapID ?_)
    rw [map_map]
    exact h.nodup_mapID
  · rw [h.forth, map_map]
    exact List.Perm.refl _
  · obtain ⟨e, he, rfl⟩ := mem_map.mp hr
    exact h.back e he

theorem Star.mutual (h : Star digest rs) (hr : r ∈ rs) (href : ref ∈ r.references) :
    ∃ t ∈ rs, t.toRef = ref ∧ r.toRef ∈ t.references := by
  obtain ⟨attestation, others, hperm, _, hforth, hback⟩ := h.links
  rcases mem_cons.mp (hperm.mem_iff.mp hr) with rfl | hother
  · obtain ⟨t, ht, rfl⟩ := mem_map.mp (hforth.mem_iff.mp href)
    refine ⟨t, hperm.mem_iff.mpr (mem_cons_of_mem _ ht), rfl, ?_⟩
    rw [hback t ht]
    exact mem_singleton_self _
  · rw [hback r hother, mem_singleton] at href
    refine ⟨attestation, hperm.mem_iff.mpr mem_cons_self, href.symm, ?_⟩
    exact hforth.mem_iff.mpr (mem_map_of_mem hother)

theorem extractReferrers_star (h : extractReferrers print exist att digest = .ok rs) :
    Star digest rs := by
  obtain ⟨x, rfl⟩ := extractReferrers_ok h
  obtain ⟨hstar, hroot⟩ := x.star
  exact hstar.toStar hroot

end Chainloop.Referrers
