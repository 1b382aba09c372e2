import Chainloop.Referrers.Read

namespace Chainloop.Referrers

open Go List

variable {root row : Row} {next : Option Cursor} {t : StoredReferrer}

section Visibility

variable {s : Store} {failure : ReadQuery → Option GoError} {orgIDs : List UUID}
  {visible : Map UUID (List UUID)} {pred : Option (Row → Bool)}

theorem filter_of_nodup {α β : Type} {key : α → β} {l : List α} (h : (l.map key).Nodup) {a : α}
    (ha : a ∈ l) {selects : α → Bool} (hselects : selects a = true)
    (hother : ∀ x ∈ l, selects x = true → key x = key a) : l.filter selects = [a] := by
  have hnodup : (l.filter selects).Nodup := (Nodup.of_map key h).filter _
  refine perm_singleton.mp ((perm_ext_iff_of_nodup hnodup (nodup_singleton a)).mpr fun x => ?_)
  rw [mem_filter, mem_singleton]
  constructor
  · rintro ⟨hx, hsel⟩
    exact inj_on_of_nodup_map h hx ha (hother x hx hsel)
  · rintro rfl
    exact ⟨ha, hselects⟩

theorem runQuery_eq_ok {α : Type} {q : ReadQuery} {context : String} {answer a : α}
    (h : runQuery failure q context answer = .ok a) : a = answer := by
  unfold runQuery at h
  split at h
  · cases h
  · exact (Except.ok.inj h).symm

theorem mem_workflowsOf {w : Workflow} :
    w ∈ s.workflowsOf row ↔ w ∈ s.workflows ∧ (row.id, w.id) ∈ s.attachments := by
  simp [Store.workflowsOf]

theorem referrerVisibleToOrgs_iff : referrerVisibleToOrgs s orgIDs row = true ↔
    ∃ w ∈ s.workflowsOf row, w.deletedAt = none ∧ w.organizationID ∈ orgIDs := by
  simp only [referrerVisibleToOrgs, any_eq_true, Bool.and_eq_true, beq_iff_eq,
    Option.isNone_iff_eq_none, contains_iff_mem]
  constructor
  · rintro ⟨⟨id, workflowID⟩, he, rfl, w, hw, ⟨rfl, hlive⟩, horg⟩
    exact ⟨w, mem_workflowsOf.mpr ⟨hw, he⟩, hlive, horg⟩
  · rintro ⟨w, hw, hlive, horg⟩
    obtain ⟨hw, he⟩ := mem_workflowsOf.mp hw
    exact ⟨(row.id, w.id), he, rfl, w, hw, ⟨rfl, hlive⟩, horg⟩

-- What the check in Go asks of it. The project may be the one of another workflow.
theorem isReferrerVisible_iff :
    isReferrerVisible (hydrateWorkflowsInfo s row) orgIDs visible = true ↔
      ∃ w ∈ s.workflowsOf row, w.organizationID ∈ orgIDs ∧
        ∀ projects, visible.get? w.organizationID = some projects →
          ∃ w' ∈ s.workflowsOf row, w'.projectID ∈ projects := by
  simp only [isReferrerVisible, hydrateWorkflowsInfo, any_eq_true, Bool.and_eq_true,
    mem_eraseDups, mem_map, contains_iff_mem]
  constructor
  · rintro ⟨_, ⟨w, hw, rfl⟩, horg, hprojects⟩
    refine ⟨w, hw, horg, fun projects hget => ?_⟩
    rw [hget] at hprojects
    simpa using hprojects
  · rintro ⟨w, hw, horg, hprojects⟩
    refine ⟨w.organizationID, ⟨w, hw, rfl⟩, horg, ?_⟩
    cases hget : visible.get? w.organizationID with
    | none => rfl
    | some projects => simpa using hprojects projects hget

inductive Returned (f : Found) : StoredReferrer → Prop
  | root (references : List StoredReferrer) : Returned f ⟨f, references⟩
  | reference (found : Found) (references : List StoredReferrer) (t : StoredReferrer)
      (ht : t ∈ references) (h : Returned f t) : Returned f ⟨found, references⟩

structure Passed (s : Store) (orgIDs : List UUID) (visible : Map UUID (List UUID)) (f : Found) :
    Prop where
  hydrated : f = hydrateWorkflowsInfo s f.row
  stored : f.row ∈ s.referrers
  live : referrerVisibleToOrgs s orgIDs f.row = true
  allowed : isReferrerVisible f orgIDs visible = true

theorem cutPage_subset {limit : Nat} {refs page : List Row}
    (h : cutPage limit refs = .ok (page, next)) : page ⊆ refs := by
  unfold cutPage at h
  split at h
  · cases limit with
    | zero => cases h
    | succ last =>
      obtain ⟨_, _, h⟩ := bind_eq_ok.mp h
      cases h
      exact take_subset _ _
  · cases h
    exact List.Subset.refl _

theorem addReferences_mem {get : Row → Run (StoredReferrer × Option Cursor)} {refs : List Row}
    {acc references : List StoredReferrer}
    (h : refs.foldlM (fun acc r => addReference acc (get r)) acc = .ok references)
    (ht : t ∈ references) :
    t ∈ acc ∨ ∃ r ∈ refs, ∃ next, get r = .ok (t, next) := by
  induction refs generalizing acc with
  | nil =>
    cases h
    exact .inl ht
  | cons r rest ih =>
    rw [foldlM_cons] at h
    obtain ⟨acc', hstep, h⟩ := bind_eq_ok.mp h
    rcases ih h with hacc | ⟨r', hr', hget⟩
    · unfold addReference at hstep
      split at hstep
      next ref next hget =>
        cases hstep
        rcases mem_append.mp hacc with hacc | hnew
        · exact .inl hacc
        · rw [mem_singleton.mp hnew]
          exact .inr ⟨r, mem_cons_self, next, hget⟩
      next e _ =>
        split at hstep
        · cases hstep
          exact .inl hacc
        · cases hstep
      next => cases hstep
    · exact .inr ⟨r', mem_cons_of_mem _ hr', hget⟩

theorem mem_queryReferences {p : CursorOptions} {r : Row}
    (h : r ∈ queryReferences s orgIDs pred p root) :
    r ∈ s.referrers ∧ referrerVisibleToOrgs s orgIDs r = true := by
  have hsorted := mem_of_mem_take h
  rw [mem_insertionSort, mem_filter] at hsorted
  obtain ⟨hmem, hchecks⟩ := hsorted
  simp only [Bool.and_eq_true] at hchecks
  exact ⟨(mem_filter.mp hmem).1, hchecks.1.1⟩

variable {p : Option CursorOptions}

theorem doGet_succ_ok {levels : Nat}
    (h : doGet s failure orgIDs visible pred (levels + 1) root p = .ok (t, next)) :
    isReferrerVisible (hydrateWorkflowsInfo s root) orgIDs visible = true ∧
      ∃ references, t = ⟨hydrateWorkflowsInfo s root, references⟩ ∧
        ∀ t' ∈ references, ∃ r ∈ s.referrers, referrerVisibleToOrgs s orgIDs r = true ∧
          ∃ next', doGet s failure orgIDs visible pred levels r none = .ok (t', next') := by
  unfold doGet at h
  cases hvisible : isReferrerVisible (hydrateWorkflowsInfo s root) orgIDs visible with
  | false =>
    simp only [hvisible] at h
    cases h
  | true =>
    simp only [hvisible] at h
    obtain ⟨refs, hrefs, h⟩ := bind_eq_ok.mp h
    obtain ⟨⟨page, cursor⟩, hpage, h⟩ := bind_eq_ok.mp h
    obtain ⟨references, hreferences, h⟩ := bind_eq_ok.mp h
    refine ⟨rfl, references, ?_, fun t' ht' => ?_⟩
    · cases pred with
      | none =>
        cases h
        rfl
      | some projectPred =>
        simp only at h
        split at h
        · obtain ⟨inProject, _, h⟩ := bind_eq_ok.mp h
          cases inProject with
          | false => cases h
          | true =>
            cases h
            rfl
        · cases h
          rfl
    · rcases addReferences_mem hreferences ht' with hnil | ⟨r, hr, next', hget⟩
      · cases hnil
      · have hr := cutPage_subset hpage hr
        rw [runQuery_eq_ok hrefs] at hr
        obtain ⟨hstored, hlive⟩ := mem_queryReferences hr
        exact ⟨r, hstored, hlive, next', hget⟩

theorem doGet_returned {levels : Nat}
    (h : doGet s failure orgIDs visible pred levels root p = .ok (t, next))
    (hroot : root ∈ s.referrers) (hlive : referrerVisibleToOrgs s orgIDs root = true) {f : Found}
    (hf : Returned f t) : Passed s orgIDs visible f := by
  induction levels generalizing root p t next with
  | zero =>
    unfold doGet at h
    simp only at h
    split at h
    next hvisible =>
      cases h
      cases hf with
      | root references => exact ⟨rfl, hroot, hlive, hvisible⟩
      | reference found references t' ht' => cases ht'
    next => cases h
  | succ levels ih =>
    obtain ⟨hvisible, references, rfl, hreferences⟩ := doGet_succ_ok h
    cases hf with
    | root references => exact ⟨rfl, hroot, hlive, hvisible⟩
    | reference found references t' ht' hf =>
      obtain ⟨r, hr, hlive', next', hget⟩ := hreferences t' ht'
      exact ih hget hr hlive' hf

theorem getFromRoot_returned {digest : String} {opts : GetFromRootFilters}
    (h : getFromRoot s failure digest orgIDs p opts = .ok (some t, next)) {f : Found}
    (hf : Returned f t) : Passed s orgIDs opts.projectIDs f := by
  obtain ⟨refs, hrefs, h⟩ := bind_eq_ok.mp h
  match refs, runQuery_eq_ok hrefs, h with
  | [], _, h => cases h
  | [root], hquery, h =>
    have hroot : root ∈ s.referrers.filter (rootMatches s digest orgIDs opts) := by
      rw [← hquery]
      exact mem_singleton_self _
    obtain ⟨hstored, hmatches⟩ := mem_filter.mp hroot
    simp only [rootMatches, Bool.and_eq_true] at hmatches
    simp only at h
    split at h
    next res nextCursor hget =>
      cases h
      exact doGet_returned hget hstored hmatches.1.2 hf
    next e _ =>
      split at h <;> cases h
    next => cases h
  | _ :: _ :: _, _, h => cases h

-- A live workflow of an allowed organization, in a project that the caller sees there.
def Granted (s : Store) (orgIDs : List UUID) (visible : Map UUID (List UUID)) (row : Row) : Prop :=
  ∃ w ∈ s.workflowsOf row, w.deletedAt = none ∧ w.organizationID ∈ orgIDs ∧
    ∀ projects, visible.get? w.organizationID = some projects → w.projectID ∈ projects

-- The caller sees none of the live workflows in the allowed organizations, but there is
-- a soft-deleted one in an organization without restrictions, or one whose project is
-- granted in the organization of an attached workflow while it is soft-deleted or in
-- another organization.
structure Leaks (s : Store) (orgIDs : List UUID) (visible : Map UUID (List UUID)) (row : Row) :
    Prop where
  live : ∃ w ∈ s.workflowsOf row, w.deletedAt = none ∧ w.organizationID ∈ orgIDs
  hidden : ∀ w ∈ s.workflowsOf row, w.deletedAt = none → w.organizationID ∈ orgIDs →
    ∃ projects, visible.get? w.organizationID = some projects ∧ w.projectID ∉ projects
  borrowed : ∃ w ∈ s.workflowsOf row, w.organizationID ∈ orgIDs ∧
    ((visible.get? w.organizationID = none ∧ w.deletedAt ≠ none) ∨
      ∃ projects, visible.get? w.organizationID = some projects ∧
        ∃ w' ∈ s.workflowsOf row, w'.projectID ∈ projects ∧
          (w'.deletedAt ≠ none ∨ w'.organizationID ≠ w.organizationID))

theorem not_granted_of_leaks (h : Leaks s orgIDs visible row) : ¬ Granted s orgIDs visible row := by
  rintro ⟨w, hw, hlive, horg, hprojects⟩
  obtain ⟨projects, hget, hnot⟩ := h.hidden w hw hlive horg
  exact hnot (hprojects projects hget)

theorem leaks_iff : Leaks s orgIDs visible row ↔ referrerVisibleToOrgs s orgIDs row = true ∧
      isReferrerVisible (hydrateWorkflowsInfo s row) orgIDs visible = true ∧
        ¬ Granted s orgIDs visible row := by
  rw [referrerVisibleToOrgs_iff, isReferrerVisible_iff]
  constructor
  · intro h
    refine ⟨h.live, ?_, not_granted_of_leaks h⟩
    obtain ⟨w, hw, horg, hborrowed⟩ := h.borrowed
    refine ⟨w, hw, horg, fun projects hget => ?_⟩
    rcases hborrowed with ⟨hnone, _⟩ | ⟨projects', hget', w', hw', hproject, _⟩
    · rw [hget] at hnone
      cases hnone
    · rw [hget] at hget'
      cases hget'
      exact ⟨w', hw', hproject⟩
  · rintro ⟨hlive, ⟨w, hw, horg, hprojects⟩, hnot⟩
    have hhidden : ∀ w ∈ s.workflowsOf row, w.deletedAt = none → w.organizationID ∈ orgIDs →
        ∃ projects, visible.get? w.organizationID = some projects ∧ w.projectID ∉ projects := by
      intro w hw hlive horg
      by_contra hno
      refine hnot ⟨w, hw, hlive, horg, fun projects hget => ?_⟩
      by_contra hproject
      exact hno ⟨projects, hget, hproject⟩
    refine ⟨hlive, hhidden, w, hw, horg, ?_⟩
    cases hget : visible.get? w.organizationID with
    | none =>
      refine .inl ⟨rfl, fun hdeleted => ?_⟩
      obtain ⟨projects, hsome, _⟩ := hhidden w hw hdeleted horg
      rw [hget] at hsome
      cases hsome
    | some projects =>
      obtain ⟨w', hw', hproject⟩ := hprojects projects hget
      refine .inr ⟨projects, rfl, w', hw', hproject, ?_⟩
      -- A live workflow of the same organization would be granted.
      by_contra hsame
      rw [not_or, not_not, not_not] at hsame
      obtain ⟨projects', hget', hnot'⟩ := hhidden w' hw' hsame.1 (hsame.2 ▸ horg)
      rw [hsame.2, hget] at hget'
      cases hget'
      exact hnot' hproject

theorem cutPage_ok (hlimit : 0 < limit) (refs : List Row) :
    ∃ page, cutPage limit refs = .ok page := by
  unfold cutPage
  split_ifs with hlong
  · cases limit with
    | zero => exact absurd hlimit (Nat.lt_irrefl 0)
    | succ last =>
      have hlast : last < refs.length := by omega
      simp only [Run.index, getElem?_eq_getElem hlast]
      exact ⟨_, rfl⟩
  · exact ⟨_, rfl⟩

theorem addReference_leaf (acc : List StoredReferrer) (r : Row) : ∃ acc',
    addReference acc (doGet s failure orgIDs visible pred 0 r none) = .ok acc' := by
  unfold doGet
  simp only
  split_ifs
  · exact ⟨_, rfl⟩
  · exact ⟨acc, rfl⟩

theorem doGet_root_ok
    (hvisible : isReferrerVisible (hydrateWorkflowsInfo s row) orgIDs visible = true) :
    ∃ references next, doGet s (fun _ => none) orgIDs visible none maxTraverseLevels row none
      = .ok (⟨hydrateWorkflowsInfo s row, references⟩, next) := by
  obtain ⟨⟨page, next⟩, hpage⟩ := cutPage_ok (show 0 < defaultCursorLimit by decide)
    (queryReferences s orgIDs none ⟨none, defaultCursorLimit⟩ row)
  obtain ⟨references, hreferences⟩ := Run.foldlM_exists_ok (l := page)
    (fun r _ acc => addReference_leaf acc r) []
  refine ⟨references, next, ?_⟩
  unfold maxTraverseLevels doGet
  simp only [hvisible]
  change (cutPage defaultCursorLimit
    (queryReferences s orgIDs none ⟨none, defaultCursorLimit⟩ row) >>= _) = _
  rw [hpage]
  change (page.foldlM (fun acc r =>
    addReference acc (doGet s (fun _ => none) orgIDs visible none 0 r none)) [] >>= _) = _
  rw [hreferences]
  rfl

theorem getFromRoot_of_passes (hrow : row ∈ s.referrers)
    (hlive : referrerVisibleToOrgs s orgIDs row = true)
    (hvisible : isReferrerVisible (hydrateWorkflowsInfo s row) orgIDs visible = true) :
    ∃ references next, getFromRoot s (fun _ => none) row.digest orgIDs none
      ⟨some row.kind, visible, none, none⟩ = .ok (some ⟨hydrateWorkflowsInfo s row, references⟩, next) := by
  have hroot : s.referrers.filter
      (rootMatches s row.digest orgIDs ⟨some row.kind, visible, none, none⟩) = [row] := by
    refine filter_of_nodup s.index hrow ?_ fun r _ hmatches => ?_
    · simp [rootMatches, hlive, projectPred, inScope]
    · simp only [rootMatches, Option.all_some, Bool.and_eq_true, beq_iff_eq] at hmatches
      obtain ⟨⟨⟨hdigest, hkind⟩, _⟩, _⟩ := hmatches
      exact Ref.ext hdigest hkind
  obtain ⟨references, next, hget⟩ := doGet_root_ok hvisible
  exact ⟨references, next, getFromRoot_of_ok hroot hget⟩

theorem getFromRoot_granted_iff (s : Store) (orgIDs : List UUID) (visible : Map UUID (List UUID)) :
    (∀ failure digest p opts t next f, opts.projectIDs = visible →
      getFromRoot s failure digest orgIDs p opts = .ok (some t, next) → Returned f t →
        Granted s orgIDs visible f.row) ↔
      ∀ row ∈ s.referrers, ¬ Leaks s orgIDs visible row := by
  constructor
  · intro h row hrow hleaks
    obtain ⟨hlive, hvisible, hnot⟩ := leaks_iff.mp hleaks
    obtain ⟨references, next, hget⟩ := getFromRoot_of_passes hrow hlive hvisible
    exact hnot (h _ _ _ _ _ _ _ rfl hget (.root references))
  · intro h failure digest p opts t next f hopts hget hf
    have hpassed := getFromRoot_returned hget hf
    rw [hopts] at hpassed
    by_contra hnot
    refine h f.row hpassed.stored (leaks_iff.mpr ⟨hpassed.live, ?_, hnot⟩)
    rw [← hpassed.hydrated]
    exact hpassed.allowed

end Visibility

def artifactRow : Row := ⟨⟨"sha256:aa", "ARTIFACT"⟩, 7, true, 0, .empty, .empty⟩

def sharedStore (deletedAt : Option Time) : Store :=
  ⟨[artifactRow], [], [(7, 1), (7, 2)], [⟨1, 10, 20, none⟩, ⟨2, 10, 21, deletedAt⟩], [], [], [],
    nodup_singleton _, nodup_singleton _⟩

def secondProject : Map UUID (List UUID) := Map.empty.set 10 [21]

theorem getFromRoot_granted_shared :
    ∃ t next, getFromRoot (sharedStore none) (fun _ => none) "sha256:aa" [10] none
        ⟨none, secondProject, none, none⟩ = .ok (some t, next) ∧
      ∀ f, Returned f t → Granted (sharedStore none) [10] secondProject f.row := by
  have hno : ∀ row ∈ (sharedStore none).referrers, ¬ Leaks (sharedStore none) [10] secondProject row := by
    intro row hrow hleaks
    obtain ⟨projects, hget, hnot⟩ := hleaks.hidden ⟨2, 10, 21, none⟩
      (by rw [mem_singleton.mp hrow]; decide) rfl (mem_singleton_self _)
    cases (show some [21] = some projects from hget)
    exact hnot (mem_singleton_self _)
  have hrun : ((getFromRoot (sharedStore none) (fun _ => none) "sha256:aa" [10] none
      ⟨none, secondProject, none, none⟩).toOption.bind fun answer => answer.1.map fun _ => ())
        = some () := by decide +kernel
  obtain ⟨⟨answer, next⟩, hanswer, hrun⟩ := Option.bind_eq_some_iff.mp hrun
  obtain ⟨t, rfl, _⟩ := Option.map_eq_some_iff.mp hrun
  have hget := eq_ok_of_toOption hanswer
  exact ⟨t, next, hget, fun f hf => (getFromRoot_granted_iff (sharedStore none) [10]
    secondProject).mpr hno _ _ _ _ t next f rfl hget hf⟩

-- The project of a workflow that is gone opens the artifact of one that is hidden.
theorem deleted_workflow_opens_referrer :
    ∃ t next f, getFromRoot (sharedStore (some 5)) (fun _ => none) "sha256:aa" [10] none
        ⟨none, secondProject, none, none⟩ = .ok (some t, next) ∧ Returned f t ∧
      ¬ Granted (sharedStore (some 5)) [10] secondProject f.row := by
  have hrun : ((getFromRoot (sharedStore (some 5)) (fun _ => none) "sha256:aa" [10] none
      ⟨none, secondProject, none, none⟩).toOption.bind fun answer => answer.1.map fun
        | ⟨found, _⟩ => found.row) = some artifactRow := by decide +kernel
  obtain ⟨⟨answer, next⟩, hanswer, hrun⟩ := Option.bind_eq_some_iff.mp hrun
  obtain ⟨⟨found, references⟩, rfl, hrow⟩ := Option.map_eq_some_iff.mp hrun
  refine ⟨_, next, found, eq_ok_of_toOption hanswer, .root references, ?_⟩
  simp only at hrow
  rw [hrow]
  rintro ⟨w, hw, hlive, _, hprojects⟩
  have hworkflows : (sharedStore (some 5)).workflowsOf artifactRow
      = [⟨1, 10, 20, none⟩, ⟨2, 10, 21, some 5⟩] := by decide
  rcases mem_cons.mp hw with rfl | hw
  · exact absurd (hprojects [21] rfl) (by decide)
  · rw [mem_singleton.mp hw] at hlive
    cases hlive

end Chainloop.Referrers
