import Chainloop.Pagination.Cursor
import Chainloop.Referrers.Graph

-- The stores that pushes build up: every reference has an attestation at one of its ends.
namespace Chainloop.Referrers

open Go Structpb Renderer List Option Map

-- The ids are the ones of uuid.New, of 128 bits, and the times are readings of the server's
-- clock, with years of four digits.
structure Connection.Genuine (c : Connection) (l : Pagination.Locale) : Prop where
  id : ∀ ref, c.newID ref < 2 ^ 128
  time : ∀ ref, l.Writable (c.now ref)

-- The stores that are reached from one without referrers, by pushes and by whatever else
-- happens to the other tables.
inductive Reached (l : Pagination.Locale) (print : Value → String) : Store → Prop
  | start (s : Store) (hreferrers : s.referrers = []) (hreferences : s.references = []) :
      Reached l print s
  | push (s s' : Store) (c : Connection) (p : Push) (hs : Reached l print s) (hc : c.Genuine l)
      (h : extractAndPersist print s c p = .ok s') : Reached l print s'
  | other (s s' : Store) (hs : Reached l print s) (hreferrers : s'.referrers = s.referrers)
      (hreferences : s'.references = s.references) : Reached l print s'

structure Store.Sound (l : Pagination.Locale) (s : Store) : Prop where
  linked : ∀ e ∈ s.references, ∃ a ∈ s.referrers, ∃ b ∈ s.referrers, e = (a.id, b.id) ∧
    (a.kind = referrerAttestationType ∨ b.kind = referrerAttestationType)
  id : ∀ row ∈ s.referrers, row.id < 2 ^ 128
  time : ∀ row ∈ s.referrers, l.Writable row.createdAt

theorem Store.upsert_find {s s' : Store} {row : Row} {id : UUID}
    (h : s.upsert row workflowID = .ok (s', id)) :
    ∃ r, s'.find row.toRef = some r ∧ r.id = id := by
  have hfind' := (Store.upsert_ok h).2 row.toRef
  unfold Store.upsert at h
  split at h
  next r hfind =>
    cases h
    rw [hfind] at hfind'
    exact ⟨r, hfind', rfl⟩
  next hfind =>
    split at h
    · cases h
    · cases h
      exact ⟨row, hfind'.trans (by simp [hfind]), rfl⟩

def Points (done : List Referrer) (acc : Store × Map String UUID) : Prop :=
  ∀ r ∈ done, ∃ row, acc.1.find r.toRef = some row ∧ acc.2.get? r.mapID = some row.id

theorem Points.step {r : Referrer} (h : Points done acc) (hfresh : ∀ r' ∈ done, r'.mapID ≠ r.mapID)
    (hstep : saveReferrer c workflowID acc r = .ok acc') : Points (done ++ [r]) acc' := by
  have hfind := (saveReferrer_ok hstep).2.1
  obtain ⟨⟨s, id⟩, hupsert, hstep⟩ := bind_eq_ok.mp hstep
  obtain ⟨_, _, hstep⟩ := bind_eq_ok.mp hstep
  have hupsert := Connection.query_eq_ok (mapError_eq_ok.mp hupsert)
  cases hstep
  intro r' hr'
  rcases mem_append.mp hr' with hr' | hr'
  · obtain ⟨row, hrow, hid⟩ := h r' hr'
    refine ⟨row, ?_, ?_⟩
    · rw [hfind, hrow]
      rfl
    · rw [get?_set, if_neg (hfresh r' hr')]
      exact hid
  · rw [mem_singleton.mp hr']
    obtain ⟨row, hrow, hid⟩ := Store.upsert_find hupsert
    exact ⟨row, hrow, by rw [get?_set, if_pos rfl, hid]⟩

variable {rs : List Referrer}

theorem points_of_saved (hnodup : (rs.map fun r => r.mapID).Nodup)
    (h : rs.foldlM (saveReferrer c workflowID) (s, .empty) = .ok acc) : Points rs acc := by
  refine foldlM_invariant (fun done acc => (done.map fun r : Referrer => r.mapID).Nodup →
    Points done acc) (fun done r acc acc' hdone hstep hnodup => ?_)
      (fun _ r hr => absurd hr not_mem_nil) h hnodup
  rw [map_append, nodup_append] at hnodup
  refine (hdone hnodup.1).step (fun r' hr' heq => ?_) hstep
  exact hnodup.2.2 _ (mem_map_of_mem hr') _ (mem_singleton_self _) heq

theorem extractReferrers_keys
    (h : extractReferrers print exist att digest = .ok rs) : (rs.map fun r => r.mapID).Nodup := by
  obtain ⟨x, rfl⟩ := extractReferrers_ok h
  exact (x.draft.referrers_perm.map _).nodup_iff.mpr x.star.1.nodup_mapID

theorem Star.attested (h : Star digest rs) {r : Referrer} (hr : r ∈ rs) {ref : Ref}
    (href : ref ∈ r.references) :
    r.kind = referrerAttestationType ∨ ref.kind = referrerAttestationType := by
  obtain ⟨attestation, others, hperm, hroot, _, hback⟩ := h.links
  have hkind : attestation.kind = referrerAttestationType := by rw [hroot]
  rcases mem_cons.mp (hperm.mem_iff.mp hr) with rfl | hother
  · exact .inl hkind
  · rw [hback r hother, mem_singleton] at href
    rw [href]
    exact .inr hkind

theorem Store.Sound.save {c : Connection} {s s' : Store} (hs : s.Sound l)
    (hc : c.Genuine l) (hstar : Star digest rs) (hkeys : (rs.map fun r => r.mapID).Nodup)
    (h : save c s rs workflowID = .ok s') : s'.Sound l := by
  have hfind := (save_ok h).1
  obtain ⟨_, _, h⟩ := bind_eq_ok.mp h
  obtain ⟨acc, hfirst, hsecond⟩ := bind_eq_ok.mp h
  have hpoints := points_of_saved hkeys hfirst
  obtain ⟨hreferrers, hedges⟩ := saveAllReferences_ok hsecond
  have hkept (row) (hrow : row ∈ s.referrers) : row ∈ s'.referrers := by
    have hsome : s'.find row.toRef = some row := by
      rw [hfind, s.find_of_mem hrow]
      rfl
    exact (Store.find_eq_some hsome).1
  -- A row is an old one or one that this connection has filled in.
  have hrows (row) (hrow : row ∈ s'.referrers) : row ∈ s.referrers ∨ ∃ r, row = newRow c r := by
    have hsome := s'.find_of_mem hrow
    rw [hfind] at hsome
    rcases or_eq_some_iff.mp hsome with hold | ⟨_, hnew⟩
    · exact .inl (Store.find_eq_some hold).1
    · obtain ⟨r, _, hr⟩ := map_eq_some_iff.mp hnew
      exact .inr ⟨r, hr.symm⟩
  have hrow (r) (hr : r ∈ rs) : ∃ row ∈ s'.referrers, row.toRef = r.toRef ∧
      acc.2.get? r.mapID = some row.id := by
    obtain ⟨row, hrow, hid⟩ := hpoints r hr
    obtain ⟨hmem, hRef⟩ := Store.find_eq_some hrow
    exact ⟨row, hreferrers ▸ hmem, hRef, hid⟩
  refine ⟨fun e he => ?_, fun row hmem => ?_, fun row hmem => ?_⟩
  · rw [hedges, (saveReferrers_ok hfirst).references] at he
    rcases he with he | ⟨parent, hparent, ref, href, hfrom, hto⟩
    · obtain ⟨a, ha, b, hb, hab⟩ := hs.linked e he
      exact ⟨a, hkept a ha, b, hkept b hb, hab⟩
    · obtain ⟨t, ht, rfl, _⟩ := hstar.mutual hparent href
      obtain ⟨a, ha, haRef, haid⟩ := hrow parent hparent
      obtain ⟨b, hb, hbRef, hbid⟩ := hrow t ht
      refine ⟨a, ha, b, hb, Prod.ext ?_ ?_, ?_⟩
      · rw [hfrom, Map.getD, haid]
        rfl
      · exact some.inj (hto.symm.trans hbid)
      · rw [haRef, hbRef]
        exact hstar.attested hparent href
  · rcases hrows row hmem with hold | ⟨r, rfl⟩
    · exact hs.id row hold
    · exact hc.id _
  · rcases hrows row hmem with hold | ⟨r, rfl⟩
    · exact hs.time row hold
    · exact hc.time _

theorem Reached.sound {s : Store} (h : Reached l print s) : s.Sound l := by
  induction h with
  | start s hreferrers hreferences =>
    refine ⟨fun e he => ?_, fun row hrow => ?_, fun row hrow => ?_⟩
    · rw [hreferences] at he
      cases he
    · rw [hreferrers] at hrow
      cases hrow
    · rw [hreferrers] at hrow
      cases hrow
  | push s s' c p _ hc h ih =>
    obtain ⟨workflowID, rs, hrs, hsave⟩ := extractAndPersist_ok h
    exact ih.save hc (extractReferrers_star hrs) (extractReferrers_keys hrs) hsave
  | other s s' _ hreferrers hreferences ih =>
    refine ⟨fun e he => ?_, fun row hrow => ?_, fun row hrow => ?_⟩
    · rw [hreferences] at he
      rw [hreferrers]
      exact ih.linked e he
    · exact ih.id row (hreferrers ▸ hrow)
    · exact ih.time row (hreferrers ▸ hrow)

end Chainloop.Referrers
