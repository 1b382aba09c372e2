import Chainloop.Lists.Keyset
import Chainloop.Referrers.Links
import Chainloop.Referrers.Visibility

namespace Chainloop.Referrers

open Go Chainloop.Lists Structpb Renderer List Bool Nat

inductive PageError where
  | cursor (e : Pagination.CursorError)
  | failure (f : Failure)
deriving DecidableEq

def StoredReferrer.references : StoredReferrer → List StoredReferrer
  | ⟨_, references⟩ => references

-- The options that GetFromRoot is called with. No time of a server is before the epoch.
def optionsOf (p : Pagination.CursorOptions) : CursorOptions :=
  ⟨p.cursor.map fun c => ⟨c.timestamp.toNat, c.id.toNat⟩, p.limit.toNat⟩

def nextText (l : Pagination.Locale) : Option Cursor → String
  | none => ""
  | some c => Pagination.encodeCursor l c.timestamp (.ofNat c.id)

def getPage (l : Pagination.Locale) (s : Store) (digest : String) (orgIDs : List UUID)
    (opts : GetFromRootFilters) (limit : Int) (cursor : String) :
    Except PageError (List StoredReferrer × String) := do
  let p ← (Pagination.newCursor l cursor limit).mapError .cursor
  let (res, next) ← (getFromRoot s (fun _ => none) digest orgIDs (some (optionsOf p)) opts).mapError
    .failure
  return ((res.map StoredReferrer.references).getD [], nextText l next)

def queried (s : Store) (orgIDs : List UUID) (opts : GetFromRootFilters) (root : Row) : List Row :=
  (s.referencesOf root).filter fun r =>
    referrerVisibleToOrgs s orgIDs r && inScope (projectPred s orgIDs opts) r

def seen (s : Store) (orgIDs : List UUID) (visible : Map UUID (List UUID)) (r : Row) : Bool :=
  isReferrerVisible (hydrateWorkflowsInfo s r) orgIDs visible

def leaf (s : Store) (r : Row) : StoredReferrer := ⟨hydrateWorkflowsInfo s r, []⟩

instance : Std.Total newerFirst := inferInstanceAs (Std.Total (descending Row.createdAt Row.id))

instance : IsTrans Row newerFirst := inferInstanceAs (IsTrans Row (descending Row.createdAt Row.id))

-- The order of the query, which is the same each time.
def byNewest (_ : Nat) (rows : List Row) : List Row := rows.insertionSort newerFirst

theorem sorts_byNewest : Sorts (descending Row.createdAt Row.id) byNewest := by
  refine ⟨fun n rows => perm_insertionSort _ rows, fun n rows => ?_⟩
  exact (pairwise_insertionSort newerFirst rows).imp fun h => h

section Page

variable {s : Store} {failure : ReadQuery → Option GoError} {orgIDs : List UUID}
  {visible : Map UUID (List UUID)} {pred : Option (Row → Bool)} {opts : GetFromRootFilters}

def cursorAt (r : Row) : Cursor := ⟨r.createdAt, r.id⟩

theorem cutPage_eq (hlimit : 0 < limit) (refs : List Row) :
    cutPage limit refs = .ok ((cutRows limit refs).1, (cutRows limit refs).2.map cursorAt) := by
  unfold cutPage
  by_cases hlong : refs.length > limit
  · obtain ⟨last, hlast, hcut⟩ := cutRows_long hlimit hlong
    obtain ⟨i, rfl⟩ : ∃ i, limit = i + 1 := ⟨limit - 1, by omega⟩
    rw [Nat.add_sub_cancel] at hlast
    rw [if_pos hlong, hcut]
    simp [Run.index, hlast, cursorAt, bind, Except.bind, pure, Except.pure]
  · rw [if_neg hlong, cutRows_short (by omega)]
    rfl

theorem addReferences_eq (refs : List Row) (acc : List StoredReferrer) :
    refs.foldlM (fun acc r => addReference acc (doGet s failure orgIDs visible pred 0 r none)) acc =
      .ok (acc ++ (refs.filter (seen s orgIDs visible)).map (leaf s)) := by
  induction refs generalizing acc with
  | nil => simp [pure, Except.pure]
  | cons r rest ih =>
    rw [foldlM_cons]
    cases hseen : seen s orgIDs visible r with
    | true =>
      have hround : addReference acc (doGet s failure orgIDs visible pred 0 r none)
          = .ok (acc ++ [leaf s r]) := by
        unfold doGet
        simp only [show isReferrerVisible (hydrateWorkflowsInfo s r) orgIDs visible = true
          from hseen, if_true]
        rfl
      rw [hround, filter_cons_of_pos hseen, map_cons]
      exact (ih _).trans (by rw [append_assoc, singleton_append])
    | false =>
      have hround : addReference acc (doGet s failure orgIDs visible pred 0 r none) = .ok acc := by
        unfold doGet
        simp only [show isReferrerVisible (hydrateWorkflowsInfo s r) orgIDs visible = false
          from hseen]
        rfl
      rw [hround, filter_cons_of_neg (by simp [hseen])]
      exact ih acc

theorem queryReferences_eq (s : Store) (orgIDs : List UUID) (opts : GetFromRootFilters) (root : Row) (cursor : Option Row)
    (limit n : Nat) :
    queryReferences s orgIDs (projectPred s orgIDs opts) ⟨cursor.map cursorAt, limit⟩ root =
      (byNewest n (remaining (older Row.createdAt Row.id) cursor
        (queried s orgIDs opts root))).take (limit + 1) := by
  have hrows : ((s.referencesOf root).filter fun r => referrerVisibleToOrgs s orgIDs r &&
      inScope (projectPred s orgIDs opts) r && beforeCursor (cursor.map cursorAt) r) =
        remaining (older Row.createdAt Row.id) cursor (queried s orgIDs opts root) := by
    rw [remaining, queried, filter_filter]
    apply filter_congr
    intro r _
    rw [and_comm _ (beforeCursor _ r)]
    congr 1
    cases cursor with
    | none => rfl
    | some c =>
      rw [Bool.eq_iff_iff, Option.all_some, older_iff]
      simp [beforeCursor, cursorAt]
  unfold queryReferences
  rw [hrows]
  rfl

theorem inProject_of_mem (hs : s.Sound l) {root r : Row} (hroot : root ∈ s.referrers)
    (hkind : root.kind ≠ referrerAttestationType)
    (hpred : projectPred s orgIDs opts = some projectPred') (hr : r ∈ queried s orgIDs opts root) :
    ((s.referencesOf root).any fun r => r.kind == referrerAttestationType && projectPred' r &&
      referrerVisibleToOrgs s orgIDs r) = true := by
  obtain ⟨href, hchecks⟩ := mem_filter.mp hr
  obtain ⟨hmem, hedge⟩ := mem_filter.mp href
  simp only [and_eq_true, hpred] at hchecks
  obtain ⟨a, ha, b, hb, hids, hattested⟩ := hs.linked _ (by simpa using hedge)
  have haroot : root = a := inj_on_of_nodup_map s.ids hroot ha (congrArg Prod.fst hids)
  have hbr : r = b := inj_on_of_nodup_map s.ids hmem hb (congrArg Prod.snd hids)
  subst haroot hbr
  have hattestation : r.kind = referrerAttestationType := hattested.resolve_left hkind
  have hproject : projectPred' r = true := by simpa [inScope, hattestation] using hchecks.2
  exact any_eq_true.mpr ⟨r, href, by simp [hattestation, hproject, hchecks.1]⟩

theorem doGet_page (hs : s.Sound l) (hroot : root ∈ s.referrers)
    (hseen : seen s orgIDs opts.projectIDs root = true) (hne : queried s orgIDs opts root ≠ [])
    (hlimit : 0 < limit) (cursor : Option Row) (n : Nat) {page : List Row} {next : Option Row}
    (hpage : cutRows limit (byNewest n (remaining (older Row.createdAt Row.id) cursor
      (queried s orgIDs opts root))) = (page, next)) :
    doGet s (fun _ => none) orgIDs opts.projectIDs (projectPred s orgIDs opts) maxTraverseLevels root
        (some ⟨cursor.map cursorAt, limit⟩) =
      .ok (⟨hydrateWorkflowsInfo s root, (page.filter (seen s orgIDs opts.projectIDs)).map (leaf s)⟩,
        next.map cursorAt) := by
  have hcut := cutPage_eq hlimit (queryReferences s orgIDs (projectPred s orgIDs opts)
    ⟨cursor.map cursorAt, limit⟩ root)
  rw [queryReferences_eq s orgIDs opts root cursor limit n, cutRows_take hlimit, hpage] at hcut
  have hadd : page.foldlM (fun acc r => addReference acc (doGet s (fun _ => none) orgIDs
      opts.projectIDs (projectPred s orgIDs opts) 0 r none)) [] =
        .ok ([] ++ (page.filter (seen s orgIDs opts.projectIDs)).map (leaf s)) :=
    addReferences_eq page []
  have hvisible : isReferrerVisible (hydrateWorkflowsInfo s root) orgIDs opts.projectIDs = true := hseen
  unfold maxTraverseLevels doGet
  simp only [hvisible, Option.getD_some]
  rw [queryReferences_eq s orgIDs opts root cursor limit n]
  change (cutPage limit _ >>= _) = _
  rw [hcut]
  change (page.foldlM (fun acc reference => addReference acc (doGet s (fun _ => none) orgIDs
    opts.projectIDs (projectPred s orgIDs opts) 0 reference none)) [] >>= _) = _
  rw [hadd]
  cases hpred : projectPred s orgIDs opts with
  | none => rfl
  | some projectPred' =>
    obtain ⟨r, hr⟩ := exists_mem_of_ne_nil _ hne
    by_cases hkind : root.kind = referrerAttestationType
    · simp [hkind, bind, Except.bind, pure, Except.pure]
    · have hin := inProject_of_mem hs hroot hkind hpred hr
      simp only [bind, Except.bind, hin]
      split <;> rfl

theorem doGet_empty (hseen : seen s orgIDs opts.projectIDs root = true)
    (hnone : queried s orgIDs opts root = []) (hlimit : 0 < limit) :
    doGet s (fun _ => none) orgIDs opts.projectIDs (projectPred s orgIDs opts) maxTraverseLevels root
        (some ⟨none, limit⟩) = .ok (leaf s root, none) ∨
      doGet s (fun _ => none) orgIDs opts.projectIDs (projectPred s orgIDs opts) maxTraverseLevels root
        (some ⟨none, limit⟩) =
          .error (.error ⟨"referrer not part of the requested project", [.unauthorized]⟩) := by
  have hquery := queryReferences_eq s orgIDs opts root none limit 0
  rw [hnone] at hquery
  have hcut := cutPage_eq hlimit ([] : List Row)
  rw [cutRows_short (zero_le _)] at hcut
  have hvisible : isReferrerVisible (hydrateWorkflowsInfo s root) orgIDs opts.projectIDs = true := hseen
  unfold maxTraverseLevels doGet
  simp only [hvisible, Option.getD_some, runQuery]
  rw [show queryReferences s orgIDs (projectPred s orgIDs opts) ⟨none, limit⟩ root = [] from hquery]
  simp only [Bool.not_true, Bool.false_eq_true, if_false, bind, Except.bind, hcut, pure, Except.pure,
    foldlM_nil]
  cases projectPred s orgIDs opts with
  | none => exact .inl rfl
  | some projectPred' =>
    simp only
    split
    · split
      · exact .inr rfl
      · exact .inl rfl
    · exact .inl rfl

end Page

section Follow

variable {l : Pagination.Locale} {s : Store} {digest : String} {orgIDs : List UUID}
  {opts : GetFromRootFilters} {root : Row} {limit : Nat}

theorem newCursor_nextText (hs : s.Sound l) (hlimit : 0 < limit) {cursor : Option Row}
    (hcursor : ∀ r, cursor = some r → r ∈ s.referrers) :
    ∃ p, Pagination.newCursor l (nextText l (cursor.map cursorAt)) limit = .ok p ∧
      optionsOf p = ⟨cursor.map cursorAt, limit⟩ := by
  have hpositive : (0 : Int) < limit := by omega
  cases cursor with
  | none => exact ⟨_, Pagination.newCursor_empty l hpositive, rfl⟩
  | some r =>
    have hr := hcursor r rfl
    refine ⟨_, Pagination.newCursor_encodeCursor (hs.time r hr) (.ofNat r.id) hpositive, ?_⟩
    have hid : (Go.UUID.ofNat r.id).toNat = r.id := Go.UUID.toNat_ofNat (hs.id r hr)
    simp [optionsOf, cursorAt, hid]

theorem getPage_eq (hs : s.Sound l)
    (hroot : s.referrers.filter (rootMatches s digest orgIDs opts) = [root])
    (hseen : seen s orgIDs opts.projectIDs root = true) (hne : queried s orgIDs opts root ≠ [])
    (hlimit : 0 < limit) {cursor : Option Row} (hcursor : ∀ r, cursor = some r → r ∈ s.referrers)
    (n : Nat) {page : List Row} {next : Option Row}
    (hpage : cutRows limit (byNewest n (remaining (older Row.createdAt Row.id) cursor
      (queried s orgIDs opts root))) = (page, next)) :
    getPage l s digest orgIDs opts limit (nextText l (cursor.map cursorAt)) =
      .ok ((page.filter (seen s orgIDs opts.projectIDs)).map (leaf s), nextText l (next.map cursorAt)) := by
  have hmem : root ∈ s.referrers := by
    have hmem : root ∈ s.referrers.filter (rootMatches s digest orgIDs opts) := by
      rw [hroot]
      exact mem_singleton_self _
    exact mem_of_mem_filter hmem
  obtain ⟨p, hp, hoptions⟩ := newCursor_nextText hs hlimit hcursor
  have hget := doGet_page hs hmem hseen hne hlimit cursor n hpage
  unfold getPage
  rw [hp]
  change ((getFromRoot s (fun _ => none) digest orgIDs (some (optionsOf p)) opts).mapError
    PageError.failure >>= _) = _
  rw [hoptions, getFromRoot_of_ok hroot hget]
  rfl

theorem getPage_empty (hroot : s.referrers.filter (rootMatches s digest orgIDs opts) = [root])
    (hseen : seen s orgIDs opts.projectIDs root = true) (hnone : queried s orgIDs opts root = [])
    (hlimit : 0 < limit) : getPage l s digest orgIDs opts limit "" = .ok ([], "") := by
  have hpositive : (0 : Int) < limit := by omega
  unfold getPage
  rw [Pagination.newCursor_empty l hpositive]
  change ((getFromRoot s (fun _ => none) digest orgIDs (some ⟨none, limit⟩) opts).mapError
    PageError.failure >>= _) = _
  rcases doGet_empty hseen hnone hlimit with hget | hget
  · rw [getFromRoot_of_ok hroot hget]
    rfl
  · rw [getFromRoot_of_unauthorized hroot hget rfl]
    rfl

theorem follow_pages (hs : s.Sound l)
    (hroot : s.referrers.filter (rootMatches s digest orgIDs opts) = [root])
    (hseen : seen s orgIDs opts.projectIDs root = true) (hne : queried s orgIDs opts root ≠ [])
    (hlimit : 0 < limit) (fuel n : Nat) (cursor : Option Row)
    (hcursor : ∀ r, cursor = some r → r ∈ s.referrers) :
    Pagination.follow (fun _ => getPage l s digest orgIDs opts limit) fuel n
        (nextText l (cursor.map cursorAt)) =
      (visits byNewest (older Row.createdAt Row.id) limit (queried s orgIDs opts root) fuel n
        cursor).map fun rows => .ok ((rows.filter (seen s orgIDs opts.projectIDs)).map (leaf s)) := by
  induction fuel generalizing n cursor with
  | zero => rfl
  | succ fuel ih =>
    obtain ⟨page, next, hpage⟩ : ∃ page next, cutRows limit (byNewest n (remaining
        (older Row.createdAt Row.id) cursor (queried s orgIDs opts root))) = (page, next) :=
      ⟨_, _, rfl⟩
    rw [Pagination.follow, getPage_eq hs hroot hseen hne hlimit hcursor n hpage, visits, hpage]
    cases next with
    | none => rfl
    | some last =>
      have hlast (r) : some last = some r → r ∈ s.referrers := by
        intro hr
        have hcut : (cutRows limit (byNewest n (remaining (older Row.createdAt Row.id) cursor
            (queried s orgIDs opts root)))).2 = some r := by rw [hpage, hr]
        have hrow := (sorts_byNewest.perm n _).mem_iff.mp (cutRows_mem hcut)
        have hreference := mem_of_mem_filter (mem_of_mem_filter hrow)
        exact mem_of_mem_filter hreference
      have hnext : nextText l (some (cursorAt last)) ≠ "" :=
        Pagination.encodeCursor_ne_empty _ _ _
      have hrest := ih (n + 1) (some last) hlast
      rw [Option.map_some] at hrest
      simp only [Option.map_some, if_neg hnext, hrest, Option.map_map]
      congr 1
      funext rows
      simp [Except.map]

end Follow

theorem referrer_pages_complete (l : Pagination.Locale) (print : Value → String) (s : Store)
    (hs : Reached l print s) (digest : String) (orgIDs : List UUID) (opts : GetFromRootFilters)
    (root : Row) (hroot : s.referrers.filter (rootMatches s digest orgIDs opts) = [root])
    (hseen : seen s orgIDs opts.projectIDs root = true) (limit : Int) (hlimit : 1 ≤ limit) :
    (∃ (fuel : Nat) (visited : List Row),
      Pagination.follow (fun _ => getPage l s digest orgIDs opts limit) fuel 0 "" =
          some (.ok (visited.map (leaf s))) ∧
        visited.Nodup ∧ visited.Pairwise newerFirst ∧
        ∀ r, r ∈ visited ↔ r ∈ s.referencesOf root ∧ referrerVisibleToOrgs s orgIDs r = true ∧
          inScope (projectPred s orgIDs opts) r = true ∧ seen s orgIDs opts.projectIDs r = true) ∧
      ∀ r ∈ s.referrers, Pagination.decodeCursor l (nextText l (some (cursorAt r))) =
        .ok ⟨r.createdAt, .ofNat r.id⟩ := by
  have hsound := hs.sound
  obtain ⟨size, rfl⟩ : ∃ size : Nat, limit = size := ⟨limit.toNat, by omega⟩
  have hsize : 0 < size := by omega
  refine ⟨?_, fun r hr => Pagination.decodeCursor_encodeCursor (hsound.time r hr) _⟩
  have hmem : ∀ r, r ∈ (queried s orgIDs opts root).filter (seen s orgIDs opts.projectIDs) ↔
      r ∈ s.referencesOf root ∧ referrerVisibleToOrgs s orgIDs r = true ∧
        inScope (projectPred s orgIDs opts) r = true ∧ seen s orgIDs opts.projectIDs r = true := by
    simp only [queried, mem_filter, and_eq_true]
    tauto
  by_cases hne : queried s orgIDs opts root = []
  · refine ⟨1, [], ?_, nodup_nil, List.Pairwise.nil, fun r => ?_⟩
    · rw [Pagination.follow, getPage_empty hroot hseen hne hsize]
      rfl
    · rw [← hmem, hne]
      simp
  · have hrows : remaining (older Row.createdAt Row.id) none (queried s orgIDs opts root) =
        queried s orgIDs opts root := by simp [remaining]
    have hnodup : (queried s orgIDs opts root).Nodup :=
      ((List.Nodup.of_map _ s.ids).filter _).filter _
    have hid : Set.InjOn Row.id {r | r ∈ queried s orgIDs opts root} := by
      intro a ha b hb hab
      exact inj_on_of_nodup_map s.ids (mem_of_mem_filter (mem_of_mem_filter ha))
        (mem_of_mem_filter (mem_of_mem_filter hb)) hab
    have hfuel : (remaining (older Row.createdAt Row.id) none (queried s orgIDs opts root)).length <
        (queried s orgIDs opts root).length + 1 := by
      rw [hrows]
      exact lt_succ_self _
    obtain ⟨rows, hvisits, hperm, hsorted⟩ := visits_perm hsize sorts_byNewest older_trans
      (splits_descending hsize) _ 0 none (by rw [hrows]; exact ⟨hnodup, hid⟩) hfuel
    rw [hrows] at hperm
    refine ⟨(queried s orgIDs opts root).length + 1, rows.filter (seen s orgIDs opts.projectIDs), ?_,
      (hperm.nodup_iff.mpr hnodup).filter _, hsorted.filter _, fun r => ?_⟩
    · have hfollow := follow_pages hsound hroot hseen hne hsize
        ((queried s orgIDs opts root).length + 1) 0 none (fun r hr => by cases hr)
      rw [hvisits] at hfollow
      exact hfollow
    · rw [← hmem]
      exact (hperm.filter _).mem_iff

def clockedConnection (firstID : UUID) : Connection :=
  ⟨fun _ => none, fun ref => (firstID + ref.kind.length) % 2 ^ 128, fun _ => 0⟩

theorem clockedConnection_genuine (firstID : UUID) : (clockedConnection firstID).Genuine .utc :=
  ⟨fun _ => mod_lt _ (by decide), fun _ => Pagination.Locale.utc_zero⟩

def anyProject : GetFromRootFilters := ⟨none, .empty, none, none⟩

def threePushes (statement : Statement) : List (Connection × Push) :=
  [(clockedConnection 100, pushOf statement "sha256:aa"), (clockedConnection 200, pushOf statement "sha256:bb"),
    (clockedConnection 300, pushOf statement "sha256:cc")]

theorem reached_completedSaves (hstart : Reached l print s) (hgenuine : ∀ p ∈ pushes, p.1.Genuine l)
    (h : completedSaves print s pushes = .ok s') : Reached l print s' := by
  induction pushes generalizing s with
  | nil =>
    cases h
    exact hstart
  | cons p pushes ih =>
    obtain ⟨hp, hpushes⟩ := forall_mem_cons.mp hgenuine
    obtain ⟨mid, hmid, h⟩ := bind_eq_ok.mp h
    exact ih (.push s mid p.1 p.2 hstart hp hmid) hpushes h

-- A file that three attestations hold, with one of them on each page.
theorem referrer_pages_complete_binary : ∃ s root, Reached .utc (fun _ => "") s ∧
      s.referrers.filter (rootMatches s "sha256:00" [10] anyProject) = [root] ∧
      (s.referencesOf root).map (·.digest) = ["sha256:aa", "sha256:bb", "sha256:cc"] ∧
      ∃ (fuel : Nat) (visited : List Row),
        Pagination.follow (fun _ => getPage .utc s "sha256:00" [10] anyProject 1) fuel 0 "" =
            some (.ok (visited.map (leaf s))) ∧
          visited.length = 3 ∧ visited.Nodup ∧ visited.Pairwise newerFirst ∧
          ∀ r, r ∈ visited ↔ r ∈ s.referencesOf root ∧ referrerVisibleToOrgs s [10] r = true ∧
            inScope (projectPred s [10] anyProject) r = true ∧ seen s [10] .empty r = true := by
  have hrun : ((renderStatement inlineEnv (binaryAttestation releaseAnnotation)).toOption.bind
      fun statement => (completedSaves (fun _ => "") buildStore (threePushes statement)).toOption.map fun s =>
        (s.referrers.filter (rootMatches s "sha256:00" [10] anyProject)).map fun root =>
          (seen s [10] .empty root, (s.referencesOf root).map (·.digest), (s.referencesOf root).all fun r =>
            referrerVisibleToOrgs s [10] r && inScope (projectPred s [10] anyProject) r &&
              seen s [10] .empty r)) =
        some [(true, ["sha256:aa", "sha256:bb", "sha256:cc"], true)] := by
    decide +kernel
  obtain ⟨statement, _, hrun⟩ := Option.bind_eq_some_iff.mp hrun
  obtain ⟨s, hpush, hroots⟩ := Option.map_eq_some_iff.mp hrun
  obtain ⟨root, hroot, hchecks⟩ := map_eq_singleton_iff.mp hroots
  simp only [Prod.mk.injEq] at hchecks
  obtain ⟨hseen, hdigests, hall⟩ := hchecks
  have hs : Reached .utc (fun _ => "") s := by
    refine reached_completedSaves (.start buildStore rfl rfl) ?_ (eq_ok_of_toOption hpush)
    simp [threePushes, clockedConnection_genuine]
  obtain ⟨⟨fuel, visited, hfollow, hnodup, hsorted, hmem⟩, -⟩ :=
    referrer_pages_complete .utc (fun _ => "") s hs "sha256:00" [10] anyProject root hroot hseen 1 (by decide)
  have hperm : visited.Perm (s.referencesOf root) := by
    refine (perm_ext_iff_of_nodup hnodup (.of_map (·.digest) (by rw [hdigests]; decide))).mpr fun r => ?_
    rw [hmem]
    simp only [all_eq_true, Bool.and_eq_true] at hall
    exact ⟨fun h => h.1, fun h => ⟨h, (hall r h).1.1, (hall r h).1.2, (hall r h).2⟩⟩
  have hlength : visited.length = 3 := by
    rw [hperm.length_eq, ← length_map (·.digest), hdigests]
    rfl
  exact ⟨s, root, hs, hroot, hdigests, fuel, visited, hfollow, hlength, hnodup, hsorted, hmem⟩

end Chainloop.Referrers
