import Chainloop.Referrers.Panics
import Chainloop.Referrers.Store

namespace Chainloop.Referrers

open Go Structpb Renderer List Map

variable {s s' : Store} {rs : List Referrer}

theorem Store.upsert_ok {row : Row} {id : UUID}
    (h : s.upsert row workflowID = .ok (s', id)) : s'.references = s.references ∧
      ∀ ref, s'.find ref = (s.find ref).or (if row.toRef = ref then some row else none) := by
  unfold Store.upsert at h
  split at h
  next r hfind =>
    cases h
    refine ⟨rfl, fun ref => ?_⟩
    by_cases href : row.toRef = ref
    · rw [← href, hfind]
      exact hfind
    · rw [if_neg href, Option.or_none]
      rfl
  next hfind =>
    split at h
    · cases h
    · cases h
      refine ⟨rfl, fun ref => ?_⟩
      have happend (p : Row → Bool) : (s.referrers ++ [row]).find? p =
          (s.referrers.find? p).or (if p row then some row else none) := by
        rw [find?_append, find?_singleton]
      exact (happend _).trans (by simp [Store.find])

theorem saveReferrer_ok {r : Referrer} (h : saveReferrer c workflowID acc r = .ok acc') :
    acc'.1.references = acc.1.references ∧ (∀ ref, acc'.1.find ref =
        (acc.1.find ref).or (if r.toRef = ref then some (newRow c r) else none)) ∧
      ∃ id, acc'.2 = acc.2.set r.mapID id := by
  obtain ⟨⟨s, id⟩, hupsert, h⟩ := bind_eq_ok.mp h
  obtain ⟨_, _, h⟩ := bind_eq_ok.mp h
  have hupsert := Store.upsert_ok (Connection.query_eq_ok (mapError_eq_ok.mp hupsert))
  cases h
  exact ⟨hupsert.1, hupsert.2, id, rfl⟩

structure RowsSaved (c : Connection) (s : Store) (done : List Referrer)
    (acc : Store × Map String UUID) : Prop where
  references : acc.1.references = s.references
  find_eq : ∀ ref, acc.1.find ref = (s.find ref).or
    ((done.find? fun r => r.toRef = ref).map (newRow c))
  keys : ∀ r ∈ done, r.mapID ∈ acc.2.keys

theorem RowsSaved.step (h : RowsSaved c s done acc)
    (hstep : saveReferrer c workflowID acc r = .ok acc') : RowsSaved c s (done ++ [r]) acc' := by
  obtain ⟨hreferences, hfind, id, hstored⟩ := saveReferrer_ok hstep
  refine ⟨hreferences.trans h.references, fun ref => ?_, fun r' hr' => ?_⟩
  · rw [hfind ref, h.find_eq ref, Option.or_assoc, find?_append, find?_singleton]
    by_cases href : r.toRef = ref <;>
      cases done.find? (fun r => decide (r.toRef = ref)) <;> simp
  · rw [hstored, mem_keys_set]
    rcases mem_append.mp hr' with hr' | hr'
    · exact .inr (h.keys r' hr')
    · exact .inl (by rw [mem_singleton.mp hr'])

theorem saveReferrers_ok
    (h : rs.foldlM (saveReferrer c workflowID) (s, .empty) = .ok acc) : RowsSaved c s rs acc := by
  have hstart : RowsSaved c s [] (s, .empty) := ⟨rfl, by simp, by simp⟩
  exact foldlM_invariant (RowsSaved c s) (fun _ _ _ _ h hstep => h.step hstep) hstart h

theorem mem_addReferences (s : Store) (id : UUID) (references : List UUID) (e : UUID × UUID) :
    e ∈ (s.addReferences id references).references ↔
      e ∈ s.references ∨ (e.1 = id ∧ e.2 ∈ references) := by
  unfold Store.addReferences
  induction references generalizing s with
  | nil => simp
  | cons first rest ih =>
    have hnext := ih { s with references := s.references.insert (id, first) }
    rw [foldl_cons]
    rw [hnext, mem_insert_iff, mem_cons, Prod.ext_iff]
    tauto

-- An edge that the second loop adds, between the stored ids of a referrer and one of its
-- references.
def NewEdge (stored : Map String UUID) (parents : List Referrer) (e : UUID × UUID) : Prop :=
  ∃ parent ∈ parents, ∃ ref ∈ parent.references,
    e.1 = stored.getD parent.mapID 0 ∧ stored.get? ref.mapID = some e.2

variable {stored : Map String UUID}

theorem storedReference_eq_ok {ref : Ref} {id : UUID} :
    storedReference stored ref = .ok id ↔ stored.get? ref.mapID = some id := by
  unfold storedReference
  cases stored.get? ref.mapID <;> simp

theorem saveReferences_ok (h : saveReferences c stored s parent = .ok s') :
    s'.referrers = s.referrers ∧
      ∀ e, e ∈ s'.references ↔ e ∈ s.references ∨ NewEdge stored [parent] e := by
  obtain ⟨ids, hids, h⟩ := bind_eq_ok.mp h
  have hall := mapM_eq_ok_iff.mp hids
  have hnew (e) : NewEdge stored [parent] e ↔ e.1 = stored.getD parent.mapID 0 ∧ e.2 ∈ ids := by
    constructor
    · rintro ⟨parent', hparent, ref, href, hfrom, hto⟩
      rw [mem_singleton.mp hparent] at href hfrom
      obtain ⟨id, hid, hstored⟩ := forall₂_exists_of_mem_left hall href
      rw [storedReference_eq_ok, hto] at hstored
      cases hstored
      exact ⟨hfrom, hid⟩
    · rintro ⟨hfrom, hto⟩
      obtain ⟨ref, href, hstored⟩ := forall₂_exists_of_mem_right hall hto
      exact ⟨parent, mem_singleton_self _, ref, href, hfrom, storedReference_eq_ok.mp hstored⟩
  split_ifs at h with hempty
  · cases h
    refine ⟨rfl, fun e => ?_⟩
    rw [hnew, isEmpty_iff.mp hempty]
    simp
  · obtain ⟨_, _, h⟩ := bind_eq_ok.mp h
    cases h
    refine ⟨rfl, fun e => ?_⟩
    rw [hnew, mem_addReferences]

theorem newEdge_append (stored : Map String UUID) (done rest : List Referrer) (e : UUID × UUID) :
    NewEdge stored (done ++ rest) e ↔ NewEdge stored done e ∨ NewEdge stored rest e := by
  unfold NewEdge
  simp [or_and_right, exists_or]

theorem saveAllReferences_ok (h : rs.foldlM (saveReferences c stored) s = .ok s') :
    s'.referrers = s.referrers ∧
      ∀ e, e ∈ s'.references ↔ e ∈ s.references ∨ NewEdge stored rs e := by
  induction rs generalizing s with
  | nil =>
    cases h
    exact ⟨rfl, fun e => by simp [NewEdge]⟩
  | cons parent rest ih =>
    obtain ⟨t, hstep, h⟩ := bind_eq_ok.mp h
    obtain ⟨hreferrers, hreferences⟩ := saveReferences_ok hstep
    obtain ⟨hreferrers', hreferences'⟩ := ih h
    refine ⟨hreferrers'.trans hreferrers, fun e => ?_⟩
    rw [hreferences', hreferences, or_assoc, ← newEdge_append, singleton_append]

theorem save_ok (h : save c s rs workflowID = .ok s') :
    (∀ ref, s'.find ref = (s.find ref).or ((rs.find? fun r => r.toRef = ref).map (newRow c))) ∧
      ∃ stored : Map String UUID, (∀ r ∈ rs, r.mapID ∈ stored.keys) ∧
        ∀ e, e ∈ s'.references ↔ e ∈ s.references ∨ NewEdge stored rs e := by
  obtain ⟨_, _, h⟩ := bind_eq_ok.mp h
  obtain ⟨acc, hfirst, hsecond⟩ := bind_eq_ok.mp h
  have hrows := saveReferrers_ok hfirst
  obtain ⟨hreferrers, hedges⟩ := saveAllReferences_ok hsecond
  refine ⟨fun ref => ?_, acc.2, hrows.keys, fun e => ?_⟩
  · rw [← hrows.find_eq ref, Store.find, Store.find, hreferrers]
  · rw [hedges e, hrows.references]

def Store.Symmetric (s : Store) : Prop := ∀ a b, (a, b) ∈ s.references → (b, a) ∈ s.references

theorem Star.symmetric_save (hstar : Star digest rs)
    (h : save c s rs workflowID = .ok s') (hs : s.Symmetric) : s'.Symmetric := by
  obtain ⟨_, stored, hkeys, hedges⟩ := save_ok h
  intro a b hab
  rw [hedges] at hab ⊢
  rcases hab with hab | ⟨parent, hparent, ref, href, hfrom, hto⟩
  · exact .inl (hs a b hab)
  · have hfrom : a = stored.getD parent.mapID 0 := hfrom
    obtain ⟨t, ht, rfl, hback⟩ := hstar.mutual hparent href
    obtain ⟨id, hid⟩ := Option.isSome_iff_exists.mp
      ((mem_keys_iff_isSome ..).mp (hkeys parent hparent))
    refine .inr ⟨t, ht, parent.toRef, hback, ?_, ?_⟩
    · rw [Map.getD, hto]
      rfl
    · rw [hid, hfrom, Map.getD, hid]
      rfl

theorem saveReferrer_ne_notFound (c : Connection) (workflowID : UUID)
    (acc : Store × Map String UUID) (r : Referrer) (ref : Ref) :
    saveReferrer c workflowID acc r ≠ .error (.referrerNotFound ref) := by
  intro h
  rcases bind_eq_error.mp h with hcreate | ⟨_, _, h⟩
  · obtain ⟨e, _, he⟩ := mapError_eq_error.mp hcreate
    cases he
  · rcases bind_eq_error.mp h with hload | ⟨_, _, h⟩
    · obtain ⟨e, _, he⟩ := mapError_eq_error.mp hload
      cases he
    · cases h

theorem saveReferences_finds {parent : Referrer}
    (hkeys : ∀ ref ∈ parent.references, ref.mapID ∈ stored.keys) (c : Connection) (s : Store)
    (ref : Ref) : saveReferences c stored s parent ≠ .error (.referrerNotFound ref) := by
  intro h
  rcases bind_eq_error.mp h with hids | ⟨ids, _, h⟩
  · obtain ⟨ref', href', hmissing⟩ := mapM_eq_error hids
    obtain ⟨id, hid⟩ := Option.isSome_iff_exists.mp
      ((mem_keys_iff_isSome ..).mp (hkeys ref' href'))
    rw [storedReference, hid] at hmissing
    cases hmissing
  · split at h
    · cases h
    · rcases bind_eq_error.mp h with hrelate | ⟨_, _, h⟩
      · obtain ⟨e, _, he⟩ := mapError_eq_error.mp hrelate
        cases he
      · cases h

theorem Star.save_finds (hstar : Star digest rs) (c : Connection) (s : Store) (workflowID : UUID)
    (ref : Ref) :
    save c s rs workflowID ≠ .error (.referrerNotFound ref) := by
  intro h
  rcases bind_eq_error.mp h with hworkflow | ⟨_, _, h⟩
  · obtain ⟨e, _, he⟩ := mapError_eq_error.mp hworkflow
    cases he
  rcases bind_eq_error.mp h with hfirst | ⟨acc, hfirst, hsecond⟩
  · obtain ⟨r, _, acc, hround⟩ := foldlM_eq_error hfirst
    exact saveReferrer_ne_notFound c workflowID acc r ref hround
  · obtain ⟨parent, hparent, t, hround⟩ := foldlM_eq_error hsecond
    refine saveReferences_finds (fun ref' href' => ?_) c t ref hround
    obtain ⟨t', ht', rfl, _⟩ := hstar.mutual hparent href'
    exact (saveReferrers_ok hfirst).keys t' ht'

theorem extractAndPersist_ok {p : Push} (h : extractAndPersist print s c p = .ok s') :
    ∃ workflowID rs, extractReferrers print (s.exist c) p.envelope p.digest = .ok rs ∧
        save c s rs workflowID = .ok s' := by
  obtain ⟨workflowID, _, h⟩ := bind_eq_ok.mp h
  obtain ⟨_, _, h⟩ := bind_eq_ok.mp h
  obtain ⟨rs, hrs, h⟩ := bind_eq_ok.mp h
  simp only [Run.ofExcept_eq_ok, wrapErr_eq_ok, Run.wrapErr_eq_ok] at hrs h
  exact ⟨workflowID, rs, hrs, mapError_eq_ok.mp h⟩

theorem completedSaves_symmetric (h : completedSaves print s pushes = .ok s')
    (hs : s.Symmetric) : s'.Symmetric := by
  refine foldlM_keeps Store.Symmetric (fun p t t' ht hstep => ?_) hs h
  obtain ⟨workflowID, rs, hrs, hsave⟩ := extractAndPersist_ok hstep
  exact (extractReferrers_star hrs).symmetric_save hsave ht

theorem referrer_graph_is_star :
    (∀ (print : Value → String) (exist : String → Except GoError Bool) (att : Envelope)
      (digest : String) (rs : List Referrer), extractReferrers print exist att digest = .ok rs →
        Star digest rs ∧ (∀ r ∈ rs, ∀ ref ∈ r.references, ∃ t ∈ rs, t.toRef = ref) ∧
          ∀ c s workflowID ref, save c s rs workflowID ≠ .error (.referrerNotFound ref)) ∧
      ∀ (print : Value → String) (pushes : List (Connection × Push)) (s s' : Store),
        s.Symmetric → completedSaves print s pushes = .ok s' → s'.Symmetric := by
  refine ⟨fun print exist att digest rs h => ?_, fun print pushes s s' hs h => ?_⟩
  · have hstar := extractReferrers_star h
    refine ⟨hstar, fun r hr ref href => ?_, hstar.save_finds⟩
    obtain ⟨t, ht, htoRef, _⟩ := hstar.mutual hr href
    exact ⟨t, ht, htoRef⟩
  · exact completedSaves_symmetric h hs

def buildStore : Store :=
  ⟨[], [], [], [⟨1, 10, 20, none⟩], [], [], [], List.nodup_nil, List.nodup_nil⟩

def goodConnection (firstID : UUID) : Connection :=
  ⟨fun _ => none, fun ref => firstID + ref.kind.length, fun _ => 0⟩

def pushOf (s : Statement) (digest : String) : Push := ⟨⟨.ok s⟩, digest, .ok 1⟩

theorem referrer_graph_is_star_binary :
    ∃ statement rs s', renderStatement inlineEnv (binaryAttestation releaseAnnotation) = .ok statement ∧
      extractReferrers (fun _ => "") (fun _ => .ok true) ⟨.ok statement⟩ "sha256:aa" = .ok rs ∧
      rs.length = 2 ∧ Star "sha256:aa" rs ∧
      completedSaves (fun _ => "") buildStore [(goodConnection 0, pushOf statement "sha256:aa")] = .ok s' ∧
      s'.references.length = 2 ∧ s'.Symmetric := by
  have hrun : ((renderStatement inlineEnv (binaryAttestation releaseAnnotation)).toOption.bind
      fun statement => (extractReferrers (fun _ => "") (fun _ => .ok true) ⟨.ok statement⟩
        "sha256:aa").toOption.bind fun rs => (completedSaves (fun _ => "") buildStore
          [(goodConnection 0, pushOf statement "sha256:aa")]).toOption.map
            fun s' => (rs.length, s'.references.length)) = some (2, 2) := by decide +kernel
  obtain ⟨statement, hstatement, hrun⟩ := Option.bind_eq_some_iff.mp hrun
  obtain ⟨rs, hrs, hrun⟩ := Option.bind_eq_some_iff.mp hrun
  obtain ⟨s', hs', hlengths⟩ := Option.map_eq_some_iff.mp hrun
  obtain ⟨hlength, hreferences⟩ := Prod.ext_iff.mp hlengths
  have hempty : buildStore.Symmetric := fun a b hab => absurd hab not_mem_nil
  refine ⟨statement, rs, s', eq_ok_of_toOption hstatement, eq_ok_of_toOption hrs, hlength, ?_,
    eq_ok_of_toOption hs', hreferences, ?_⟩
  · exact (referrer_graph_is_star.1 _ _ _ _ _ (eq_ok_of_toOption hrs)).1
  · exact referrer_graph_is_star.2 _ _ _ _ hempty (eq_ok_of_toOption hs')

end Chainloop.Referrers
