import Mathlib.Data.List.Sort
import Mathlib.Data.List.Perm.Subperm
import Mathlib.Data.List.Count
import Mathlib.Data.Prod.Lex

-- Pages of a list of rows: each query returns the first rows, in some order, of those after
-- the last row of the page before.
namespace Chainloop.Lists

open List Nat

variable {α : Type}

-- One row more than the limit was asked for, so that a next page shows. The last row of the
-- page is the next cursor.
def cutRows (limit : Nat) (found : List α) : List α × Option α :=
  if limit < found.length then (found.take limit, found[limit - 1]?) else (found, none)

def remaining (after : α → α → Bool) (cursor : Option α) (rows : List α) : List α :=
  rows.filter fun r => cursor.all fun c => after c r

def visits (order : Nat → List α → List α) (after : α → α → Bool) (limit : Nat) (rows : List α) :
    Nat → Nat → Option α → Option (List α)
  | 0, _, _ => none
  | fuel + 1, n, cursor =>
    match cutRows limit (order n (remaining after cursor rows)) with
    | (page, none) => some page
    | (page, some last) =>
      (visits order after limit rows fuel (n + 1) (some last)).map (page ++ ·)

-- The order in which a database returns rows: all of them, sorted by what it was asked for.
structure Sorts (le : α → α → Prop) (order : Nat → List α → List α) : Prop where
  perm : ∀ n rows, (order n rows).Perm rows
  sorted : ∀ n rows, (order n rows).Pairwise le

theorem cutRows_short {found : List α} (h : found.length ≤ limit) :
    cutRows limit found = (found, none) := if_neg (by omega)

theorem cutRows_long {found : List α} (hlimit : 0 < limit) (h : limit < found.length) :
    ∃ last, found[limit - 1]? = some last ∧ cutRows limit found = (found.take limit, some last) := by
  have hlast : found[limit - 1]? = some (found.get ⟨limit - 1, by omega⟩) :=
    getElem?_eq_getElem (by omega)
  exact ⟨_, hlast, by rw [cutRows, if_pos h, hlast]⟩

theorem cutRows_take (hlimit : 0 < limit) (rows : List α) :
    cutRows limit (rows.take (limit + 1)) = cutRows limit rows := by
  unfold cutRows
  rw [length_take, take_take, min_eq_left (le_succ limit), getElem?_take,
    if_pos (show limit - 1 < limit + 1 by omega)]
  split
  · rw [if_pos (by omega)]
  · rw [if_neg (by omega), take_of_length_le (by omega)]

theorem cutRows_mem (h : (cutRows limit rows).2 = some last) : last ∈ rows := by
  unfold cutRows at h
  split at h
  · exact mem_of_getElem? h
  · cases h

theorem filter_eq_drop {l : List α} (hhead : ∀ a ∈ l.take n, p a = false)
    (htail : ∀ a ∈ l.drop n, p a = true) : l.filter p = l.drop n := by
  have hnone : (l.take n).filter p = [] := by
    rw [filter_eq_nil_iff]
    intro a ha
    simp [hhead a ha]
  calc l.filter p = (l.take n ++ l.drop n).filter p := by rw [take_append_drop]
    _ = l.drop n := by rw [filter_append, hnone, filter_eq_self.mpr htail, nil_append]

-- What stands before and behind the last row of a page.
theorem around {l : List α} (hpos : 0 < limit) (hsorted : l.Pairwise le) (hx : l[limit - 1]? = some x) :
    x ∈ l.take limit ∧ (∀ a ∈ l.take limit, a = x ∨ le a x) ∧ ∀ a ∈ l.drop limit, le x a := by
  obtain ⟨i, rfl⟩ : ∃ i, limit = i + 1 := ⟨limit - 1, by omega⟩
  rw [Nat.add_sub_cancel] at hx
  obtain ⟨hi, rfl⟩ := List.getElem?_eq_some_iff.mp hx
  have htake := hsorted.take (i := i + 1)
  have hdrop := hsorted.drop (i := i)
  rw [take_succ_eq_append_getElem hi] at htake ⊢
  rw [drop_eq_getElem_cons hi] at hdrop
  refine ⟨mem_append_right _ (mem_singleton_self _), fun a ha => ?_, (pairwise_cons.mp hdrop).1⟩
  rcases mem_append.mp ha with ha | ha
  · exact .inr ((pairwise_append.mp htake).2.2 a ha _ (mem_singleton_self _))
  · exact .inl (mem_singleton.mp ha)

section Visits

variable {order : Nat → List α → List α} {after : α → α → Bool} {limit : Nat} {rows : List α}

theorem remaining_remaining
    (htrans : ∀ a b c, after a b = true → after b c = true → after a c = true)
    (hlast : last ∈ remaining after cursor rows) :
    remaining after (some last) rows = remaining after (some last) (remaining after cursor rows) := by
  unfold remaining
  rw [filter_filter]
  apply filter_congr
  intro r _
  cases cursor with
  | none => simp
  | some c =>
    have hc : after c last = true := by simpa using (mem_filter.mp hlast).2
    cases hr : after last r with
    | false => simp [hr]
    | true => simp [hr, htrans c last r hc hr]

def Splits (le : α → α → Prop) (after : α → α → Bool) (limit : Nat) (P : List α → Prop) : Prop :=
  ∀ (rows found : List α) (last : α), P rows → found.Perm rows → found.Pairwise le → limit < found.length →
    found[limit - 1]? = some last → (remaining after (some last) rows).Perm (found.drop limit) ∧
        P (remaining after (some last) rows)

theorem visits_perm (hlimit : 0 < limit) (horder : Sorts le order)
    (htrans : ∀ a b c, after a b = true → after b c = true → after a c = true)
    (hsplits : Splits le after limit P) (fuel n : Nat) (cursor : Option α)
    (hP : P (remaining after cursor rows)) (hfuel : (remaining after cursor rows).length < fuel) :
    ∃ visited, visits order after limit rows fuel n cursor = some visited ∧
      visited.Perm (remaining after cursor rows) ∧ visited.Pairwise le := by
  induction fuel generalizing n cursor with
  | zero => exact absurd hfuel (not_lt_zero _)
  | succ fuel ih =>
    have hperm := horder.perm n (remaining after cursor rows)
    have hsorted := horder.sorted n (remaining after cursor rows)
    rw [visits]
    generalize order n (remaining after cursor rows) = found at hperm hsorted ⊢
    by_cases hlong : limit < found.length
    · obtain ⟨last, hlast, hcut⟩ := cutRows_long hlimit hlong
      obtain ⟨hrest, hP'⟩ := hsplits _ found last hP hperm hsorted hlong hlast
      rw [← remaining_remaining htrans (hperm.mem_iff.mp (mem_of_getElem? hlast))] at hrest hP'
      have hlength := hrest.length_eq
      rw [length_drop, hperm.length_eq] at hlength
      rw [hperm.length_eq] at hlong
      obtain ⟨visited, hvisited, hvisitedPerm, hvisitedSorted⟩ := ih (n + 1) (some last) hP' (by omega)
      have hdrop : visited.Perm (found.drop limit) := hvisitedPerm.trans hrest
      refine ⟨found.take limit ++ visited, by simp only [hcut, hvisited, Option.map_some], ?_, ?_⟩
      · have hwhole := hdrop.append_left (found.take limit)
        rw [take_append_drop] at hwhole
        exact hwhole.trans hperm
      · refine pairwise_append.mpr ⟨hsorted.take, hvisitedSorted, fun a ha b hb => ?_⟩
        exact hsorted.rel_of_mem_take_of_mem_drop ha (hdrop.mem_iff.mp hb)
    · rw [cutRows_short (by omega)]
      exact ⟨found, rfl, hperm, hsorted⟩

theorem visits_subset (hlimit : 0 < limit) (horder : Sorts le order)
    (htrans : ∀ a b c, after a b = true → after b c = true → after a c = true)
    (h : visits order after limit rows fuel n cursor = some visited) :
    visited ⊆ remaining after cursor rows ∧
      (order n (remaining after cursor rows)).take limit ⊆ visited := by
  induction fuel generalizing n cursor visited with
  | zero => cases h
  | succ fuel ih =>
    have hperm := horder.perm n (remaining after cursor rows)
    rw [visits] at h
    generalize order n (remaining after cursor rows) = found at hperm h ⊢
    by_cases hlong : limit < found.length
    · obtain ⟨last, hlast, hcut⟩ := cutRows_long hlimit hlong
      rw [hcut] at h
      obtain ⟨rest, hrest, rfl⟩ := Option.map_eq_some_iff.mp h
      have hmem : last ∈ remaining after cursor rows :=
        hperm.mem_iff.mp (mem_of_getElem? hlast)
      refine ⟨fun a ha => ?_, subset_append_left _ _⟩
      rcases mem_append.mp ha with ha | ha
      · exact hperm.mem_iff.mp (mem_of_mem_take ha)
      · have ha := (ih hrest).1 ha
        rw [remaining_remaining htrans hmem] at ha
        exact mem_of_mem_filter ha
    · rw [cutRows_short (by omega)] at h
      cases h
      exact ⟨fun a ha => hperm.mem_iff.mp ha, take_subset _ _⟩

end Visits

section Ties

variable {τ ι : Type} [LinearOrder τ] [LinearOrder ι] {time : α → τ} {id : α → ι}

def older (time : α → τ) (id : α → ι) (c r : α) : Bool :=
  time r < time c ∨ (time r = time c ∧ id r < id c)

def newerFirst (time : α → τ) (a b : α) : Prop := time b ≤ time a

def newer (time : α → τ) (rows : List α) (t : τ) : Nat := rows.countP fun r => t < time r

def notOlder (time : α → τ) (rows : List α) (t : τ) : Nat := rows.countP fun r => t ≤ time r

-- No page but the last ends in or right behind the rows of one time, where there are several.
def Apart (time : α → τ) (limit : Nat) (rows : List α) : Prop :=
  ∀ a ∈ rows, ∀ b ∈ rows, a ≠ b → time a = time b → ∀ k, k * limit < rows.length →
    ¬ (newer time rows (time a) < k * limit ∧ k * limit ≤ notOlder time rows (time a))

theorem older_iff :
    older time id c r = true ↔ time r < time c ∨ (time r = time c ∧ id r < id c) := by
  simp [older]

theorem older_iff_lex : older time id c r = true ↔ toLex (time r, id r) < toLex (time c, id c) := by
  rw [older_iff, Prod.Lex.toLex_lt_toLex]

theorem older_trans (a b c : α) (hab : older time id a b = true) (hbc : older time id b c = true) :
    older time id a c = true := by
  rw [older_iff_lex] at *
  exact hbc.trans hab

theorem countP_split (p : α → Bool) (l : List α) (n : Nat) :
    l.countP p = (l.take n).countP p + (l.drop n).countP p := by
  rw [← countP_append, take_append_drop]

theorem place_of_sorted {found : List α} (hpos : 0 < limit) (hsorted : found.Pairwise (newerFirst time))
    (hx : found[limit - 1]? = some x) :
    newer time found (time x) < limit ∧ limit ≤ notOlder time found (time x) := by
  have hi : limit - 1 < found.length := (List.getElem?_eq_some_iff.mp hx).1
  obtain ⟨hmem, hhead, htail⟩ := around hpos hsorted hx
  have hlength : (found.take limit).length = limit := by
    rw [length_take]
    omega
  constructor
  · have hbehind : (found.drop limit).countP (fun r => decide (time x < time r)) = 0 := by
      rw [countP_eq_zero]
      intro r hr
      have hle : time r ≤ time x := htail r hr
      simpa using hle
    have hpage : (found.take limit).countP (fun r => decide (time x < time r)) < (found.take limit).length :=
      countP_lt_length_iff.mpr ⟨x, hmem, by simp⟩
    rw [newer, countP_split _ _ limit]
    omega
  · have hall : (found.take limit).countP (fun r => decide (time x ≤ time r))
        = (found.take limit).length := by
      rw [countP_eq_length]
      intro r hr
      have hle : time x ≤ time r := by
        rcases hhead r hr with rfl | hle
        · exact le_rfl
        · exact hle
      simpa using hle
    rw [notOlder, countP_split _ _ limit]
    omega

section Page

variable {limit : Nat} {rows found : List α} {last : α}

-- A page that ends with a row that no other one shares its time with.
structure Page (time : α → τ) (limit : Nat) (rows found : List α) (last : α) : Prop where
  perm : found.Perm rows
  sorted : found.Pairwise (newerFirst time)
  hlast : found[limit - 1]? = some last
  long : limit < found.length
  positive : 0 < limit
  nodup : rows.Nodup
  unique : ∀ a ∈ rows, a ≠ last → time a ≠ time last

theorem Page.head (h : Page time limit rows found last) (ha : a ∈ found.take limit) :
    a = last ∨ time last < time a := by
  by_cases heq : a = last
  · exact .inl heq
  · have hle : time last ≤ time a := ((around h.positive h.sorted h.hlast).2.1 a ha).resolve_left heq
    have hmem : a ∈ rows := h.perm.mem_iff.mp (mem_of_mem_take ha)
    exact .inr (lt_of_le_of_ne hle (Ne.symm (h.unique a hmem heq)))

-- The last row of the page is not among those behind it.
theorem ne_of_mem_drop (hnodup : found.Nodup) (hlast : last ∈ found.take limit) (ha : a ∈ found.drop limit) :
    a ≠ last := by
  rw [← take_append_drop limit found, nodup_append] at hnodup
  exact (hnodup.2.2 last hlast a ha).symm

theorem Page.tail (h : Page time limit rows found last) (ha : a ∈ found.drop limit) :
    time a < time last := by
  obtain ⟨hlast, -, htail⟩ := around h.positive h.sorted h.hlast
  have hmem : a ∈ rows := h.perm.mem_iff.mp (mem_of_mem_drop ha)
  have hne := ne_of_mem_drop (h.perm.nodup_iff.mpr h.nodup) hlast ha
  exact lt_of_le_of_ne (htail a ha) (h.unique a hmem hne)

theorem Page.rest (h : Page time limit rows found last) :
    (remaining (older time id) (some last) rows).Perm (found.drop limit) := by
  have hcut : found.filter (fun r => older time id last r) = found.drop limit := by
    refine filter_eq_drop (fun a ha => ?_) fun a ha => ?_
    · rw [Bool.eq_false_iff, ne_eq, older_iff]
      rcases h.head ha with rfl | hlt
      · simp
      · rintro (hlt' | ⟨heq, _⟩)
        · exact absurd hlt' hlt.asymm
        · exact absurd heq hlt.ne'
    · exact older_iff.mpr (.inl (h.tail ha))
  have hfilter := h.perm.filter fun r => older time id last r
  rw [hcut] at hfilter
  simpa [remaining] using hfilter.symm

theorem Page.length (id : α → ι) (h : Page time limit rows found last) :
    (remaining (older time id) (some last) rows).length + limit = rows.length := by
  have hlong := h.long
  rw [h.rest.length_eq, length_drop, ← h.perm.length_eq]
  omega

theorem Page.countP (h : Page time limit rows found last)
    (hp : ∀ a, time last ≤ time a → p a = true) :
    rows.countP p = limit + (remaining (older time id) (some last) rows).countP p := by
  have hlong := h.long
  have hpage : (found.take limit).countP p = limit := by
    have hall : (found.take limit).countP p = (found.take limit).length := by
      rw [countP_eq_length]
      intro a ha
      rcases h.head ha with rfl | hlt
      · exact hp a le_rfl
      · exact hp a hlt.le
    rw [hall, length_take]
    omega
  rw [← h.perm.countP_eq, countP_split p found limit, hpage, h.rest.countP_eq]

theorem Page.newer_eq (id : α → ι) (h : Page time limit rows found last) (ht : t < time last) :
    newer time rows t = limit + newer time (remaining (older time id) (some last) rows) t :=
  h.countP fun _ ha => by simpa using lt_of_lt_of_le ht ha

theorem Page.notOlder_eq (id : α → ι) (h : Page time limit rows found last) (ht : t < time last) :
    notOlder time rows t = limit + notOlder time (remaining (older time id) (some last) rows) t :=
  h.countP fun _ ha => by simpa using (lt_of_lt_of_le ht ha).le

theorem Page.mem_rest (h : Page time limit rows found last) :
    a ∈ remaining (older time id) (some last) rows ↔ a ∈ rows ∧ time a < time last := by
  constructor
  · intro ha
    exact ⟨mem_of_mem_filter ha, h.tail (h.rest.mem_iff.mp ha)⟩
  · rintro ⟨ha, hlt⟩
    refine mem_filter.mpr ⟨ha, ?_⟩
    exact older_iff.mpr (.inl hlt)

theorem Page.notOlder_lt (h : Page time limit rows found last) (ht : time last < t) :
    notOlder time rows t < limit := by
  have hcount := (place_of_sorted h.positive h.sorted h.hlast).1
  have hle : notOlder time rows t ≤ newer time found (time last) := by
    rw [notOlder, ← h.perm.countP_eq]
    refine countP_mono_left fun a _ ha => ?_
    simp only [decide_eq_true_eq] at ha ⊢
    exact lt_of_lt_of_le ht ha
  omega

theorem Page.apart_iff (id : α → ι) (h : Page time limit rows found last) :
    Apart time limit rows ↔ Apart time limit (remaining (older time id) (some last) rows) := by
  have hlength := h.length id
  constructor
  · intro hapart a ha b hb hab htime k hk
    obtain ⟨ha, hlt⟩ := h.mem_rest.mp ha
    have hb := (h.mem_rest.mp hb).1
    rintro ⟨hnewer, hnotOlder⟩
    have hsucc : (k + 1) * limit = k * limit + limit := succ_mul k limit
    refine hapart a ha b hb hab htime (k + 1) (by omega) ⟨?_, ?_⟩
    · rw [h.newer_eq id hlt]
      omega
    · rw [h.notOlder_eq id hlt]
      omega
  · intro hapart a ha b hb hab htime k hk
    rintro ⟨hnewer, hnotOlder⟩
    cases k with
    | zero => omega
    | succ k =>
      have hsucc : (k + 1) * limit = k * limit + limit := succ_mul k limit
      rcases lt_trichotomy (time a) (time last) with hlt | heq | hgt
      · rw [h.newer_eq id hlt] at hnewer
        rw [h.notOlder_eq id hlt] at hnotOlder
        exact hapart a (h.mem_rest.mpr ⟨ha, hlt⟩) b (h.mem_rest.mpr ⟨hb, htime ▸ hlt⟩) hab htime k
          (by omega) ⟨by omega, by omega⟩
      · -- Only the last row itself has its time.
        have halast : a = last := not_not.mp fun hne => h.unique a ha hne heq
        have hblast : b = last := not_not.mp fun hne => h.unique b hb hne (htime.symm.trans heq)
        exact hab (halast.trans hblast.symm)
      · have hfew := h.notOlder_lt hgt
        omega

theorem Apart.page (hapart : Apart time limit rows) (hnodup : rows.Nodup) (hpos : 0 < limit)
    (hperm : found.Perm rows) (hsorted : found.Pairwise (newerFirst time))
    (hlong : limit < found.length) (hlast : found[limit - 1]? = some last) :
    Page time limit rows found last := by
  refine ⟨hperm, hsorted, hlast, hlong, hpos, hnodup, fun a ha hne htime => ?_⟩
  obtain ⟨hnewer, hnotOlder⟩ := place_of_sorted hpos hsorted hlast
  have hmem : last ∈ rows := hperm.mem_iff.mp (mem_of_getElem? hlast)
  have hlength := hperm.length_eq
  rw [newer, hperm.countP_eq] at hnewer
  rw [notOlder, hperm.countP_eq] at hnotOlder
  rw [← Nat.one_mul limit] at hnewer hnotOlder
  exact hapart last hmem a ha (Ne.symm hne) htime.symm 1 (by omega) ⟨hnewer, hnotOlder⟩

theorem splits_of_apart (id : α → ι) (hpos : 0 < limit) : Splits (newerFirst time) (older time id) limit
    fun rows => rows.Nodup ∧ Apart time limit rows := by
  rintro rows found last ⟨hnodup, hapart⟩ hperm hsorted hlong hlast
  have hpage := hapart.page hnodup hpos hperm hsorted hlong hlast
  exact ⟨hpage.rest, hnodup.filter _, (hpage.apart_iff id).mp hapart⟩

end Page

def descending (time : α → τ) (id : α → ι) (a b : α) : Prop :=
  time b < time a ∨ (time a = time b ∧ id b ≤ id a)

instance : DecidableRel (descending time id) := fun _ _ => inferInstanceAs (Decidable (_ ∨ _))

theorem descending_iff : descending time id a b ↔ toLex (time b, id b) ≤ toLex (time a, id a) := by
  rw [descending, Prod.Lex.toLex_le_toLex, eq_comm]

instance : Std.Total (descending time id) := ⟨fun a b => by
  rw [descending_iff, descending_iff]
  exact le_total _ _⟩

instance : IsTrans α (descending time id) := ⟨fun a b c hab hbc => by
  rw [descending_iff] at *
  exact hbc.trans hab⟩

-- The order by time that returns the rows of one time with the smallest id first, which is
-- the wrong way round for the cursor.
def ascending (time : α → τ) (id : α → ι) : α → α → Prop :=
  descending time fun a => OrderDual.toDual (id a)

instance : DecidableRel (ascending time id) :=
  inferInstanceAs (DecidableRel (descending time fun a => OrderDual.toDual (id a)))

instance : Std.Total (ascending time id) :=
  inferInstanceAs (Std.Total (descending time fun a => OrderDual.toDual (id a)))

instance : IsTrans α (ascending time id) :=
  inferInstanceAs (IsTrans α (descending time fun a => OrderDual.toDual (id a)))

def byAscending (time : α → τ) (id : α → ι) (_ : Nat) (rows : List α) : List α :=
  rows.insertionSort (ascending time id)

theorem byAscending_pairwise (time : α → τ) (id : α → ι) (n : Nat) (rows : List α) :
    (byAscending time id n rows).Pairwise (ascending time id) :=
  pairwise_insertionSort _ rows

theorem sorts_byAscending (time : α → τ) (id : α → ι) : Sorts (newerFirst time) (byAscending time id) := by
  refine ⟨fun n rows => perm_insertionSort _ rows, fun n rows => ?_⟩
  refine (byAscending_pairwise time id n rows).imp fun {a b} hab => ?_
  rcases hab with hab | ⟨hab, _⟩
  · exact hab.le
  · exact hab.ge

section Ascending

variable {limit : Nat} {rows left : List α} {last y : α} {n : Nat}

theorem repeated (hpos : 0 < limit) (hnodup : left.Nodup)
    (hlast : (byAscending time id n left)[limit - 1]? = some last) (hy : y ∈ left)
    (htime : time y = time last) (hid : id y < id last) :
    y ∈ (byAscending time id (n + 1) (remaining (older time id) (some last) left)).take limit := by
  have hsorted := byAscending_pairwise time id (n + 1) (remaining (older time id) (some last) left)
  have hperm := (sorts_byAscending time id).perm (n + 1)
    (remaining (older time id) (some last) left)
  generalize byAscending time id (n + 1) (remaining (older time id) (some last) left) = found
    at hsorted hperm ⊢
  have hmem : y ∈ found := by
    rw [hperm.mem_iff]
    exact mem_filter.mpr ⟨hy, older_iff.mpr (.inr ⟨htime, hid⟩)⟩
  rw [← take_append_drop limit found, mem_append] at hmem
  refine hmem.resolve_right fun hdrop => ?_
  have hfull : (found.take limit).length = limit := by
    have hlong := length_pos_of_mem hdrop
    rw [length_drop] at hlong
    rw [length_take]
    omega
  -- The whole next page would be rows that stand before the last one on this page.
  have hbefore : found.take limit ⊆ (byAscending time id n left).take (limit - 1) := by
    intro z hz
    have hzleft := hperm.mem_iff.mp (mem_of_mem_take hz)
    have hzy : ascending time id z y := hsorted.rel_of_mem_take_of_mem_drop hz hdrop
    have hzlast : older time id last z = true := by simpa using (mem_filter.mp hzleft).2
    have hzmem : z ∈ byAscending time id n left :=
      ((sorts_byAscending time id).perm n left).mem_iff.mpr (mem_of_mem_filter hzleft)
    rw [← take_append_drop (limit - 1) (byAscending time id n left), mem_append] at hzmem
    refine hzmem.resolve_right fun hzdrop => ?_
    obtain ⟨hi, rfl⟩ := List.getElem?_eq_some_iff.mp hlast
    have hrest := (byAscending_pairwise time id n left).drop (i := limit - 1)
    rw [drop_eq_getElem_cons hi] at hzdrop hrest
    rw [older_iff] at hzlast
    rcases mem_cons.mp hzdrop with rfl | hzdrop
    · simp at hzlast
    · have hle := (pairwise_cons.mp hrest).1 z hzdrop
      rcases hle with hlt | ⟨heq, hle⟩
      · -- An older row stands behind y.
        rcases hzy with hzy | ⟨hzy, _⟩
        · exact absurd (hzy.trans hlt) (by rw [htime]; exact lt_irrefl _)
        · exact absurd hlt (by rw [hzy, htime]; exact lt_irrefl _)
      · rcases hzlast with hzlast | ⟨_, hzlast⟩
        · exact absurd hzlast (by rw [heq]; exact lt_irrefl _)
        · exact absurd hzlast (not_lt.mpr hle)
  have hnodup' : (found.take limit).Nodup :=
    (hperm.nodup_iff.mpr (hnodup.filter _)).sublist (take_sublist _ _)
  have hle := (hnodup'.subperm hbefore).length_le
  rw [hfull, length_take] at hle
  omega

theorem unique_of_visits (hpos : 0 < limit) (hid : Set.InjOn id {r | r ∈ rows})
    (hnodup : rows.Nodup)
    (hlast : (byAscending time id n (remaining (older time id) cursor rows))[limit - 1]? = some last)
    (hrest : visits (byAscending time id) (older time id) limit rows fuel (n + 1) (some last)
      = some rest)
    (hall : ((byAscending time id n (remaining (older time id) cursor rows)).take limit ++ rest).Perm
      (remaining (older time id) cursor rows)) :
    ∀ y ∈ remaining (older time id) cursor rows, y ≠ last → time y ≠ time last := by
  have hsorts := sorts_byAscending time id
  have hperm := hsorts.perm n (remaining (older time id) cursor rows)
  have hsorted := byAscending_pairwise time id n (remaining (older time id) cursor rows)
  have hnodupLeft : (remaining (older time id) cursor rows).Nodup := hnodup.filter _
  have hmem : last ∈ remaining (older time id) cursor rows :=
    hperm.mem_iff.mp (mem_of_getElem? hlast)
  obtain ⟨hsubset, hnext⟩ := visits_subset hpos hsorts older_trans hrest
  rw [remaining_remaining older_trans hmem] at hnext
  intro y hy hne htime
  obtain ⟨-, hhead, htail⟩ := around hpos hsorted hlast
  have hvisited : (_ ++ rest).Nodup := hall.nodup_iff.mpr hnodupLeft
  have hidne : id y ≠ id last := fun heq =>
    hne (hid (mem_of_mem_filter hy) (mem_of_mem_filter hmem) heq)
  rcases mem_append.mp (hall.mem_iff.mpr hy) with hpage | hrestmem
  · -- On this page and on the next one.
    have hlt : id y < id last := by
      rcases hhead y hpage with heq | hlt | ⟨_, hle⟩
      · exact absurd heq hne
      · exact absurd hlt (by rw [htime]; exact lt_irrefl _)
      · exact lt_of_le_of_ne hle hidne
    have htwice := hnext (repeated hpos hnodupLeft hlast hy htime hlt)
    exact (nodup_append.mp hvisited).2.2 y hpage y htwice rfl
  · -- Behind the page, where the cursor does not reach it.
    have holder : older time id last y = true := by
      simpa using (mem_filter.mp (hsubset hrestmem)).2
    have hlt : id y < id last := by
      rcases older_iff.mp holder with hlt | ⟨_, hlt⟩
      · exact absurd hlt (by rw [htime]; exact lt_irrefl _)
      · exact hlt
    have hdrop : y ∈ (byAscending time id n (remaining (older time id) cursor rows)).drop limit := by
      have hfound := hperm.mem_iff.mpr hy
      rw [← take_append_drop limit (byAscending time id n _), mem_append] at hfound
      refine hfound.resolve_left fun hpage => ?_
      exact (nodup_append.mp hvisited).2.2 y hpage y hrestmem rfl
    rcases htail y hdrop with hlt' | ⟨_, hle⟩
    · exact absurd hlt' (by rw [htime]; exact lt_irrefl _)
    · exact absurd hlt (not_lt.mpr hle)

theorem apart_of_visits (hpos : 0 < limit) (hid : Set.InjOn id {r | r ∈ rows}) (hnodup : rows.Nodup)
    {visited : List α}
    (h : visits (byAscending time id) (older time id) limit rows fuel n cursor = some visited)
    (hall : visited.Perm (remaining (older time id) cursor rows)) :
    Apart time limit (remaining (older time id) cursor rows) := by
  induction fuel generalizing n cursor visited with
  | zero => cases h
  | succ fuel ih =>
    have hsorts := sorts_byAscending time id
    have hperm := hsorts.perm n (remaining (older time id) cursor rows)
    rw [visits] at h
    by_cases hlong : limit < (byAscending time id n (remaining (older time id) cursor rows)).length
    · obtain ⟨last, hlast, hcut⟩ := cutRows_long hpos hlong
      rw [hcut] at h
      obtain ⟨rest, hrest, rfl⟩ := Option.map_eq_some_iff.mp h
      have hpage : Page time limit (remaining (older time id) cursor rows) _ last :=
        ⟨hperm, hsorts.sorted n _, hlast, hlong, hpos, hnodup.filter _,
          unique_of_visits hpos hid hnodup hlast hrest hall⟩
      have hmem : last ∈ remaining (older time id) cursor rows :=
        hperm.mem_iff.mp (mem_of_getElem? hlast)
      rw [hpage.apart_iff id, ← remaining_remaining older_trans hmem]
      refine ih hrest ?_
      -- What was visited behind the page is what is behind it.
      have hbehind : rest.Perm
          ((byAscending time id n (remaining (older time id) cursor rows)).drop limit) := by
        refine (perm_append_left_iff
          ((byAscending time id n (remaining (older time id) cursor rows)).take limit)).mp ?_
        rw [take_append_drop]
        exact hall.trans hperm.symm
      rw [remaining_remaining older_trans hmem]
      exact hbehind.trans hpage.rest.symm
    · intro a _ b _ _ _ k hk
      -- The only page is the last one.
      rw [hperm.length_eq] at hlong
      have hzero : k = 0 := by
        by_contra hk0
        have hle : limit ≤ k * limit := Nat.le_mul_of_pos_left limit (Nat.pos_of_ne_zero hk0)
        omega
      subst hzero
      omega

end Ascending

theorem visits_exact_iff {rows : List α} (hpos : 0 < limit) (hid : Set.InjOn id {r | r ∈ rows})
    (hnodup : rows.Nodup) :
    (∀ order, Sorts (newerFirst time) order → ∃ fuel visited,
      visits order (older time id) limit rows fuel 0 none = some visited ∧ visited.Perm rows) ↔
      Apart time limit rows := by
  have hrows : remaining (older time id) none rows = rows := by simp [remaining]
  constructor
  · intro h
    obtain ⟨fuel, visited, hvisits, hperm⟩ := h _ (sorts_byAscending time id)
    rw [← hrows] at hperm ⊢
    exact apart_of_visits hpos hid hnodup hvisits hperm
  · intro hapart order horder
    rw [← hrows] at hapart hnodup
    obtain ⟨visited, hvisits, hperm, _⟩ := visits_perm hpos horder older_trans
      (splits_of_apart id hpos) _ 0 none ⟨hnodup, hapart⟩ (lt_succ_self _)
    rw [hrows] at hperm
    exact ⟨_, visited, hvisits, hperm⟩

theorem splits_descending (hpos : 0 < limit) : Splits (descending time id) (older time id) limit
      fun rows => rows.Nodup ∧ Set.InjOn id {r | r ∈ rows} := by
  rintro rows found last ⟨hnodup, hid⟩ hperm hsorted hlong hlast
  obtain ⟨htake, hhead, htail⟩ := around hpos hsorted hlast
  have hmem : last ∈ rows := hperm.mem_iff.mp (mem_of_getElem? hlast)
  have hcut : found.filter (fun r => older time id last r) = found.drop limit := by
    refine filter_eq_drop (fun a ha => ?_) fun a ha => ?_
    · rw [Bool.eq_false_iff, ne_eq, older_iff_lex, not_lt]
      rcases hhead a ha with rfl | hle
      · exact le_rfl
      · exact descending_iff.mp hle
    · rw [older_iff_lex]
      refine lt_of_le_of_ne (descending_iff.mp (htail a ha)) fun heq => ?_
      have hamem : a ∈ rows := hperm.mem_iff.mp (mem_of_mem_drop ha)
      have hsame : a = last := hid hamem hmem (congrArg Prod.snd (toLex_inj.mp heq))
      exact ne_of_mem_drop (hperm.nodup_iff.mpr hnodup) htake ha hsame
  have hfilter := hperm.filter fun r => older time id last r
  rw [hcut] at hfilter
  refine ⟨by simpa [remaining] using hfilter.symm, hnodup.filter _, fun a ha b hb => ?_⟩
  exact hid (mem_of_mem_filter ha) (mem_of_mem_filter hb)

end Ties

end Chainloop.Lists
