import Mathlib.Data.List.TakeWhile
import Chainloop.Trace.Attribution

namespace Chainloop.Trace

open Go List Map Bool Nat

def counted (ranges : List LineRange) : List (Nat × Option Owner) :=
  ranges.flatMap fun r => (range' r.start (r.last + 1 - r.start)).map fun n => (n, r.attribution)

def Ordered (ranges : List LineRange) : Prop := ∀ r ∈ ranges, r.start ≤ r.last

theorem counted_single (r : LineRange) (n : Nat) (hr : r.start ≤ r.last) (hn : r.last + 1 = n) :
    counted [{ r with last := n }] = counted [r] ++ [(n, r.attribution)] := by
  have hsize : n + 1 - r.start = (r.last + 1 - r.start) + 1 := by omega
  have hlast : r.start + (r.last + 1 - r.start) = n := by omega
  simp only [counted, flatMap_cons, flatMap_nil, append_nil, hsize,
    range'_concat, map_append, map_cons, map_nil, one_mul, hlast]

theorem counted_append (a b : List LineRange) : counted (a ++ b) = counted a ++ counted b :=
  flatMap_append

theorem addLine_spec (ranges : List LineRange) (n : Nat) (owner : Owner) (h : Ordered ranges) :
    Ordered (addLine ranges n owner) ∧
      counted (addLine ranges n owner) = counted ranges ++ [(n, some owner)] := by
  have hnew : Ordered (ranges ++ [⟨n, n, some owner⟩]) ∧
      counted (ranges ++ [⟨n, n, some owner⟩]) = counted ranges ++ [(n, some owner)] := by
    constructor
    · intro r hr
      rcases mem_append.mp hr with hr | hr
      · exact h r hr
      · rw [mem_singleton.mp hr]
    · rw [counted_append]
      simp [counted]
  unfold addLine
  cases hlast : ranges.getLast? with
  | none => exact hnew
  | some r =>
    dsimp only
    split_ifs with hextend
    · obtain ⟨front, rfl⟩ := getLast?_eq_some_iff.mp hlast
      have hr : r.start ≤ r.last := h r (by simp)
      rw [dropLast_concat]
      constructor
      · intro r' hr'
        rcases mem_append.mp hr' with hr' | hr'
        · exact h r' (mem_append_left _ hr')
        · rw [mem_singleton.mp hr']
          show r.start ≤ n
          omega
      · rw [counted_append, counted_append, counted_single r n hr hextend.1, hextend.2,
          append_assoc]
    · exact hnew

structure Tallied (s : FileSplit) (lines : List (Nat × Owner)) : Prop where
  ordered : Ordered s.ranges
  ranges : counted s.ranges = lines.map fun e => (e.1, some e.2)
  ai : s.aiAdded = lines.countP fun e => e.2 == .ai
  human : s.humanAdded = lines.countP fun e => e.2 == .human

theorem Tallied.zero : Tallied .zero [] := ⟨by simp [Ordered, FileSplit.zero], rfl, rfl, rfl⟩

theorem Tallied.count {s : FileSplit} (h : Tallied s lines) (n : Nat) (owner : Option Owner) :
    Tallied (s.count n owner) (lines ++ (owner.map fun o => (n, o)).toList) := by
  cases owner with
  | none => simpa [FileSplit.count] using h
  | some o =>
    obtain ⟨hordered, hcounted⟩ := addLine_spec s.ranges n o h.ordered
    rw [h.ranges] at hcounted
    cases o <;> exact ⟨hordered, by simpa [FileSplit.count] using hcounted,
      by simp [FileSplit.count, h.ai], by simp [FileSplit.count, h.human]⟩

theorem countP_owner (lines : List (Nat × Owner)) :
    (lines.countP fun e => e.2 == .ai) + (lines.countP fun e => e.2 == .human) = lines.length := by
  induction lines with
  | nil => rfl
  | cons e rest ih =>
    obtain ⟨n, o⟩ := e
    cases o <;> simp <;> omega

section Pass

variable (n : Net)

def afterLines (path : String) (st : NetState) (lines : List BlameLine) : NetState :=
  lines.foldl (fun st l => (netOwner n path st l).2) st

def ownerAt (path : String) (st : NetState) (lines : List BlameLine) (i : Nat) : Option Owner :=
  (lines[i]?).bind fun l =>
    (netOwner n path (afterLines n path st (lines.take i)) l).1

def ownedLines (path : String) (st : NetState) (lines : List BlameLine) : List (Nat × Owner) :=
  (range lines.length).filterMap fun i =>
    (ownerAt n path st lines i).map fun o => (i + 1, o)

theorem ownerAt_append (path : String) (st : NetState) (lines more : List BlameLine) (i : Nat)
    (hi : i < lines.length) :
    ownerAt n path st (lines ++ more) i = ownerAt n path st lines i := by
  unfold ownerAt
  rw [getElem?_append_left hi, take_append_of_le_length (le_of_lt hi)]

theorem ownedLines_concat (path : String) (st : NetState) (lines : List BlameLine) (l : BlameLine) :
    ownedLines n path st (lines ++ [l]) = ownedLines n path st lines ++ (((netOwner n path
          (afterLines n path st lines) l).1.map
          fun o => (lines.length + 1, o)).toList) := by
  unfold ownedLines
  rw [length_append, length_singleton, range_succ, filterMap_append]
  refine congrArg₂ (· ++ ·) (filterMap_congr fun i hi => ?_) ?_
  · rw [ownerAt_append n path st lines [l] i (mem_range.mp hi)]
  · have hlast : ownerAt n path st (lines ++ [l]) lines.length = (netOwner n path
          (afterLines n path st lines) l).1 := by
      simp [ownerAt]
    rw [filterMap_cons, hlast]
    cases (netOwner n path (afterLines n path st lines) l).1 <;> rfl

theorem netPath_lines (path : String) (st : NetState) (lines : List BlameLine) :
    let r := lines.zipIdx.foldl (netLine n path) (st, .zero)
    r.1 = afterLines n path st lines ∧ Tallied r.2 (ownedLines n path st lines) := by
  -- by the last line, which is counted behind all the others
  induction lines using reverseRecOn with
  | nil => exact ⟨rfl, .zero⟩
  | append_singleton lines l ih =>
    obtain ⟨hstate, htally⟩ := ih
    rw [zipIdx_append, foldl_append, ownedLines_concat]
    simp only [zipIdx_cons, zipIdx_nil, foldl_cons, foldl_nil, netLine, hstate, zero_add]
    refine ⟨?_, htally.count _ _⟩
    rw [afterLines, afterLines, foldl_append]
    rfl

theorem mem_ownedLines : (k, o) ∈ ownedLines n path st lines ↔
      ∃ i, k = i + 1 ∧ ownerAt n path st lines i = some o := by
  unfold ownedLines
  rw [mem_filterMap]
  constructor
  · rintro ⟨i, _, h⟩
    obtain ⟨o', ho, he⟩ := Option.map_eq_some_iff.mp h
    cases he
    exact ⟨i, rfl, ho⟩
  · rintro ⟨i, rfl, h⟩
    refine ⟨i, mem_range.mpr ?_, by rw [h]; rfl⟩
    by_contra hlen
    rw [ownerAt, getElem?_eq_none (by omega)] at h
    cases h

theorem ownedLines_nodup (path : String) (st : NetState) (lines : List BlameLine) :
    ((ownedLines n path st lines).map Prod.fst).Nodup := by
  have hmap : (ownedLines n path st lines).map Prod.fst = ((range lines.length).filter fun i =>
        (ownerAt n path st lines i).isSome).map (· + 1) := by
    unfold ownedLines
    induction range lines.length with
    | nil => rfl
    | cons i rest ih =>
      rw [filterMap_cons, filter_cons]
      cases ownerAt n path st lines i <;> simp [ih]
  rw [hmap]
  exact (nodup_range.filter _).map fun a b h => by omega

variable {c : CommitLines}

theorem bySHA_sha (h : bySHA commits sha = some c) : c.sha = sha := by
  simpa using find?_some h

-- The pool that a path of a joined commit draws from.
def slot (joined : Map String (List String)) (path : String) : String :=
  if direct joined path then path else ""

theorem direct_ne_empty (h : direct joined path = true) : path ≠ "" := by
  simp only [direct, and_eq_true, bne_iff_ne] at h
  exact h.2

theorem slot_eq_iff (joined : Map String (List String)) (p q : String) :
    slot joined q = slot joined p ↔ if direct joined p then q = p else direct joined q = false := by
  unfold slot
  by_cases hp : direct joined p = true
  · by_cases hq : direct joined q = true
    · simp [hp, hq]
    · have hne := direct_ne_empty hp
      simp only [hp, hq]
      constructor
      · intro h
        exact absurd h.symm hne
      · rintro rfl
        exact absurd hp hq
  · by_cases hq : direct joined q = true
    · simp [hp, hq, direct_ne_empty hq]
    · simp [hp, hq]

theorem joinedLines_congr (tip : Tip) (h : slot joined q = slot joined p) :
    joinedLines joined tip q = joinedLines joined tip p := by
  rw [slot_eq_iff] at h
  unfold joinedLines
  split_ifs at h with hp
  · rw [h]
  · rw [if_neg (by simp [h]), if_neg hp]

def left (st : NetState) (sha : String) (joined : Map String (List String)) (path fp : String) : Nat :=
  LineCounts.count (joinedPool st.joined sha joined n.tip path) fp

theorem left_congr (st : NetState) (sha : String) (h : slot joined q = slot joined p) (fp : String) :
    left n st sha joined q fp = left n st sha joined p fp := by
  have hkey : joinedKey sha joined q = joinedKey sha joined p := congrArg (Prod.mk sha) h
  rw [left, left, joinedPool, joinedPool, hkey, joinedLines_congr n.tip h]

section Owner

variable {n : Net} {c : CommitLines} {path : String} {st : NetState} {l : BlameLine}

theorem netOwner_foreign (hc : bySHA n.commits l.sha = none) :
    netOwner n path st l = (none, st) := by
  simp only [netOwner, hc]

section
variable (hc : bySHA n.commits l.sha = some c)
include hc

theorem netOwner_joined (hj : c.joined = some joined) :
    netOwner n path st l = (if 0 < left n st c.sha joined path (n.fp l) then some .human else none,
        { st with
          joined := set st.joined (joinedKey c.sha joined path)
            (LineCounts.take (joinedPool st.joined c.sha joined n.tip path) (n.fp l)).2 }) := by
  simp only [netOwner, hc, hj, LineCounts.take_fst, left]
  by_cases hleft : 0 < LineCounts.count (joinedPool st.joined c.sha joined n.tip path) (n.fp l)
  · simp [hleft]
  · simp only [hleft, decide_false, false_eq_true, if_false]

theorem netOwner_elsewhere (hj : c.joined = none)
    (hfile : c.file path = none) : netOwner n path st l = (none, st) := by
  simp only [netOwner, hc, hj, hfile]

theorem netOwner_own (hj : c.joined = none) (hfile : c.file path = some fl) : netOwner n path st l =
      let r := LinePool.owner (·.written) st.written n.self
        (otherLedgers n.sessionID n.ledgers c.sessionIDs) fl (n.fp l)
      (r.1, { st with written := r.2 }) := by
  simp only [netOwner, hc, hj, hfile]

end

theorem netOwner_joined_get? (hk : k.1 ≠ l.sha) :
    (netOwner n path st l).2.joined.get? k = st.joined.get? k := by
  cases hc : bySHA n.commits l.sha with
  | none => rw [netOwner_foreign hc]
  | some c =>
    cases hj : c.joined with
    | none =>
      cases hfile : c.file path with
      | none => rw [netOwner_elsewhere hc hj hfile]
      | some fl => rw [netOwner_own hc hj hfile]
    | some joined =>
      rw [netOwner_joined hc hj]
      exact get?_set_ne _ _ fun h => hk ((congrArg Prod.fst h).trans (bySHA_sha hc))

end Owner

def draws (sha : String) (joined : Map String (List String)) (p fp q : String) (l : BlameLine) : Bool :=
  l.sha == sha && (n.fp l == fp && slot joined q == slot joined p)

theorem left_netOwner (hc : bySHA n.commits c.sha = some c)
    (hjoined : c.joined = some joined) (p fp q : String) (st : NetState) (l : BlameLine) :
    left n (netOwner n q st l).2 c.sha joined p fp =
      left n st c.sha joined p fp - if draws n c.sha joined p fp q l then 1 else 0 := by
  by_cases he : l.sha = c.sha
  · rw [netOwner_joined (he ▸ hc) hjoined]
    by_cases hslot : slot joined q = slot joined p
    · have hkey : joinedKey c.sha joined q = joinedKey c.sha joined p := congrArg (Prod.mk c.sha) hslot
      rw [left, joinedPool, hkey, get?_set_self, Option.getD_some, LineCounts.count_take, ← left,
        left_congr n st c.sha hslot fp]
      by_cases hfp : fp = n.fp l <;> simp [draws, he, hslot, hfp, Ne.symm]
    · have hkey : joinedKey c.sha joined p ≠ joinedKey c.sha joined q :=
        fun h => hslot (congrArg Prod.snd h).symm
      rw [left, joinedPool, get?_set_ne _ _ hkey]
      simp [draws, hslot, left, joinedPool]
  · rw [left, joinedPool, netOwner_joined_get? (Ne.symm he)]
    simp [draws, he, left, joinedPool]

theorem left_afterLines (hc : bySHA n.commits c.sha = some c)
    (hjoined : c.joined = some joined) (p fp q : String) (st : NetState) (lines : List BlameLine) :
    left n (afterLines n q st lines) c.sha joined p fp =
      left n st c.sha joined p fp - lines.countP (draws n c.sha joined p fp q) := by
  induction lines generalizing st with
  | nil => simp [afterLines]
  | cons l rest ih =>
    have hfold : afterLines n q st (l :: rest) = afterLines n q (netOwner n q st l).2 rest := rfl
    rw [hfold, ih, left_netOwner n hc hjoined, countP_cons]
    omega

def drawn (sha fp path : String) : Nat :=
  (n.tip.getD path []).countP fun l => l.sha == sha && n.fp l == fp

theorem countP_draws (sha : String) (joined : Map String (List String)) (p fp q : String) :
    (n.tip.getD q []).countP (draws n sha joined p fp q) =
      if slot joined q = slot joined p then drawn n sha fp q else 0 := by
  split_ifs with h
  · refine countP_congr fun l _ => ?_
    simp [draws, h]
  · simp [draws, h]

def afterPaths (st : NetState) (paths : List String) : NetState :=
  paths.foldl (fun st path => afterLines n path st (n.tip.getD path [])) st

theorem left_afterPaths (hc : bySHA n.commits c.sha = some c)
    (hjoined : c.joined = some joined) (p fp : String) (st : NetState) (paths : List String) :
    left n (afterPaths n st paths) c.sha joined p fp = left n st c.sha joined p fp -
      ((paths.filter fun q => slot joined q == slot joined p).map (drawn n c.sha fp)).sum := by
  induction paths generalizing st with
  | nil => simp [afterPaths]
  | cons q rest ih =>
    have hfold : afterPaths n st (q :: rest) =
        afterPaths n (afterLines n q st (n.tip.getD q [])) rest := rfl
    rw [hfold, ih, left_afterLines n hc hjoined, countP_draws]
    by_cases h : slot joined q = slot joined p
    · simp [h]
      omega
    · simp [h]

def before (path : String) : List String := (sortedKeys n.tip).takeWhile (· != path)

-- What a joined commit has for a path when its turn comes. Without a pool of its own
-- it gets what the paths before it have left of the shared one.
def available (sha : String) (joined : Map String (List String)) (path fp : String) : Nat :=
  (joinedLines joined n.tip path).count fp - if direct joined path then 0
    else (((before n path).filter fun q => !direct joined q).map (drawn n sha fp)).sum

def start : NetState := ⟨.empty, .empty⟩

theorem left_start (sha : String) (joined : Map String (List String)) (path fp : String) :
    left n start sha joined path fp = (joinedLines joined n.tip path).count fp := by
  rw [left, joinedPool, start, get?_empty, Option.getD_none, LineCounts.count_add]
  simp

theorem left_before (hc : bySHA n.commits c.sha = some c)
    (hjoined : c.joined = some joined) (p fp : String) :
    left n (afterPaths n start (before n p)) c.sha joined p fp = available n c.sha joined p fp := by
  rw [left_afterPaths n hc hjoined, left_start, available]
  by_cases hp : direct joined p = true
  · have hnone : ((before n p).filter fun q => slot joined q == slot joined p) = [] := by
      refine filter_eq_nil_iff.mpr fun q hq => ?_
      have hne : q ≠ p := by simpa using mem_takeWhile_imp hq
      rw [beq_iff_eq, slot_eq_iff, if_pos hp]
      exact hne
    rw [hnone, if_pos hp]
    rfl
  · have hsame : ((before n p).filter fun q => slot joined q == slot joined p) =
        (before n p).filter fun q => !direct joined q := by
      refine filter_congr fun q _ => ?_
      rw [Bool.eq_iff_iff, beq_iff_eq, slot_eq_iff, if_neg hp]
      simp
    rw [hsame, if_neg hp]

-- Whether a line of the tip is open to be counted for a path: its commit changed the
-- path, or joined the session and has the line left.
def countsFor (path : String) (l : BlameLine) : Bool :=
  match bySHA n.commits l.sha with
  | none => false
  | some c =>
    match c.joined with
    | none => (c.file path).isSome
    | some joined => decide (0 < available n c.sha joined path (n.fp l))

theorem countsFor_of_ownerAt
    (h : ownerAt n path (afterPaths n start (before n path)) lines i = some o) :
    ∃ l, lines[i]? = some l ∧ countsFor n path l = true := by
  obtain ⟨l, hl, howner⟩ := Option.bind_eq_some_iff.mp h
  refine ⟨l, hl, ?_⟩
  cases hc : bySHA n.commits l.sha with
  | none =>
    rw [netOwner_foreign hc] at howner
    cases howner
  | some c =>
    cases hj : c.joined with
    | none =>
      cases hfile : c.file path with
      | none =>
        rw [netOwner_elsewhere hc hj hfile] at howner
        cases howner
      | some fl => simp [countsFor, hc, hj, hfile]
    | some joined =>
      have hown : bySHA n.commits c.sha = some c := by rw [bySHA_sha hc, hc]
      rw [netOwner_joined hc hj, left_afterLines n hown hj, left_before n hown hj] at howner
      split_ifs at howner with htaken
      simp only [countsFor, hc, hj, decide_eq_true_eq]
      omega

-- The first line with the content of a line that is open is counted, as long as no
-- other session has a claim to it.
theorem ownerAt_of_countsFor (hothers : ∀ ids, otherLedgers n.sessionID n.ledgers ids = [])
    {lines : List BlameLine} {l : BlameLine} (hl : l ∈ lines) (h : countsFor n path l = true) :
    (ownerAt n path (afterPaths n start (before n path)) lines
      (lines.findIdx fun l' => l'.sha == l.sha && n.fp l' == n.fp l)).isSome = true := by
  generalize hfind : (lines.findIdx fun l' => l'.sha == l.sha && n.fp l' == n.fp l) = i
  have hlen : i < lines.length := by
    rw [← hfind]
    exact findIdx_lt_length_of_exists ⟨l, hl, by simp⟩
  obtain ⟨l', hl'⟩ : ∃ l', lines[i]? = some l' := ⟨lines[i], getElem?_eq_getElem hlen⟩
  have hsame : l'.sha = l.sha ∧ n.fp l' = n.fp l := by
    have hp := @findIdx_getElem _ (fun l' => l'.sha == l.sha && n.fp l' == n.fp l) lines
      (hfind ▸ hlen)
    obtain ⟨_, hget⟩ := List.getElem?_eq_some_iff.mp hl'
    simp only [hfind, hget] at hp
    simpa using hp
  have hbefore (l'') (hl'' : l'' ∈ lines.take i) : (l''.sha == l.sha && n.fp l'' == n.fp l) = false := by
    obtain ⟨j, hj, rfl⟩ := mem_take_iff_getElem.mp hl''
    have hlt : j < lines.findIdx fun l' => l'.sha == l.sha && n.fp l' == n.fp l := by
      omega
    simpa using not_of_lt_findIdx hlt
  rw [ownerAt, hl', Option.bind_some]
  unfold countsFor at h
  cases hc : bySHA n.commits l.sha with
  | none =>
    rw [hc] at h
    cases h
  | some c =>
    have hc' : bySHA n.commits l'.sha = some c := hsame.1 ▸ hc
    simp only [hc] at h
    cases hj : c.joined with
    | none =>
      simp only [hj] at h
      obtain ⟨fl, hfile⟩ := Option.isSome_iff_exists.mp h
      rw [netOwner_own hc' hj hfile, hothers]
      simp only [LinePool.owner]
      split <;> rfl
    | some joined =>
      simp only [hj, decide_eq_true_eq] at h
      have hown : bySHA n.commits c.sha = some c := by rw [bySHA_sha hc, hc]
      have hnone : (lines.take i).countP (draws n c.sha joined path (n.fp l) path) = 0 := by
        refine countP_eq_zero.mpr fun l'' hl'' => ?_
        have hno := hbefore l'' hl''
        rw [← bySHA_sha hc] at hno
        intro hdraws
        simp only [draws, and_eq_true] at hdraws
        rw [hdraws.1, hdraws.2.1] at hno
        cases hno
      rw [netOwner_joined hc' hj, left_afterLines n hown hj, left_before n hown hj, hsame.2, hnone,
        Nat.sub_zero, if_pos h]
      rfl

theorem foldl_netPath (paths : List String) (st : NetState) (m : Map String FileSplit)
    (hnodup : paths.Nodup) (hfresh : ∀ p ∈ paths, p ∉ m.keys) :
    (paths.foldl (fun r path =>
      let (st, s) := netPath n r.1 path
      (st, r.2.set path s)) (st, m)).2.entries =
    m.entries ++ paths.map fun p =>
      (p, (netPath n (afterPaths n st (paths.takeWhile (· != p))) p).2) := by
  induction paths generalizing st m with
  | nil => simp
  | cons p rest ih =>
    obtain ⟨hp, hrest⟩ := nodup_cons.mp hnodup
    have hpass := (netPath_lines n p st (n.tip.getD p [])).1
    have hset := set_entries_of_fresh m p (netPath n st p).2 (hfresh p mem_cons_self)
    rw [foldl_cons, ih _ _ hrest]
    · rw [hset, append_assoc, map_cons, takeWhile_cons]
      have hrestEq : (rest.map fun q =>
            (q, (netPath n (afterPaths n (netPath n st p).1 (rest.takeWhile (· != q))) q).2)) =
          rest.map fun q =>
            (q, (netPath n (afterPaths n st ((p :: rest).takeWhile (· != q))) q).2) := by
        refine map_congr_left fun q hq => ?_
        have hne : p ≠ q := fun he => hp (he ▸ hq)
        have hpass' : (netPath n st p).1 = afterLines n p st (n.tip.getD p []) := hpass
        rw [takeWhile_cons, if_pos (by simpa using hne), hpass']
        rfl
      simp only [hrestEq, bne_self_eq_false]
      rfl
    · intro q hq
      rw [mem_keys_set]
      rintro (rfl | hmem)
      · exact hp hq
      · exact hfresh q (mem_cons_of_mem _ hq) hmem

theorem sortedKeys_perm (tip : Tip) : (sortedKeys tip).Perm tip.keys := perm_insertionSort _ _

theorem netAdded_entries : (netAdded n).entries = (sortedKeys n.tip).map fun p =>
      (p, (netPath n (afterPaths n start (before n p)) p).2) := by
  have hnodup : (sortedKeys n.tip).Nodup := (sortedKeys_perm n.tip).nodup_iff.mpr n.tip.nodup
  exact foldl_netPath n (sortedKeys n.tip) start .empty hnodup (by simp)

end Pass

def headLines (git : Git) (commits : List CommitLines) (heads : List String) : Nat :=
  (heads.dedup.map fun head =>
    ((git.blame "HEAD" head).getD []).countP fun l => (bySHA commits l.sha).isSome).sum

-- What the split of the net lines promises: each counted line has one owner, no line at
-- HEAD counts for two paths, and the total stays within the lines of the commits.
structure EachOnce (git : Git) (head : String → String) (commits : List CommitLines)
    (out : Map String FileSplit) : Prop where
  owners : ∀ p s, out.get? p = some s → ((counted s.ranges).map Prod.fst).Nodup ∧
    s.aiAdded = (counted s.ranges).countP (fun e => e.2 == some .ai) ∧
    s.humanAdded = (counted s.ranges).countP (fun e => e.2 == some .human) ∧
    s.aiAdded + s.humanAdded = (counted s.ranges).length
  once : ∀ p p' s s' k, out.get? p = some s → out.get? p' = some s' → head p = head p' →
    k ∈ (counted s.ranges).map Prod.fst → k ∈ (counted s'.ranges).map Prod.fst → p = p'
  total : (out.entries.map fun e => e.2.aiAdded + e.2.humanAdded).sum ≤
    headLines git commits (out.keys.map head)

-- No line of a file at HEAD is open for two of its paths.
def LinesApart (n : Net) (head : String → String) : Prop :=
  ∀ p ∈ n.tip.keys, ∀ p' ∈ n.tip.keys, p ≠ p' → head p = head p' →
    ∀ l ∈ n.tip.getD p [], ¬ (countsFor n p l = true ∧ countsFor n p' l = true)

instance (n : Net) (head : String → String) : Decidable (LinesApart n head) :=
  inferInstanceAs (Decidable (∀ p ∈ n.tip.keys, ∀ p' ∈ n.tip.keys, _))

def netInput (sha8 : String → String) (sessionID : String) (ledgers : Ledgers)
    (commits : List CommitLines) (tip : Tip) : Net :=
  ⟨sha8, sessionID, ledgers.getD sessionID (newAILineAttribution sessionID), ledgers, commits, tip⟩

section Once

variable {n : Net} {git : Git} {head : String → String}

def AtHead (git : Git) (head : String → String) (tip : Tip) : Prop :=
  ∀ p lines, tip.get? p = some lines → git.blame "HEAD" (head p) = some lines

theorem sessionTip_atHead (git : Git) (legacy : Map String Bool) (shas paths : List String) :
    AtHead git (git.headPath shas) (sessionTip git legacy shas paths) := by
  refine foldlRecOn paths _ (motive := AtHead git (git.headPath shas)) ?_ ?_
  · intro p lines hp
    cases hp
  · intro tip h path _
    split_ifs
    · exact h
    · split
      · exact h
      · next lines hblame =>
          intro p lines' hp
          rw [get?_set] at hp
          split_ifs at hp with he
          · cases hp
            rw [he, hblame]
          · exact h p lines' hp

theorem AtHead.getD (h : AtHead git head n.tip) (hp : p ∈ n.tip.keys) :
    n.tip.getD p [] = (git.blame "HEAD" (head p)).getD [] := by
  rw [mem_keys_iff_isSome] at hp
  obtain ⟨lines, hlines⟩ := Option.isSome_iff_exists.mp hp
  rw [h p lines hlines, Map.getD, hlines]

theorem AtHead.getD_eq (h : AtHead git head n.tip) (hp : p ∈ n.tip.keys) (hp' : p' ∈ n.tip.keys)
    (hsame : head p = head p') : n.tip.getD p' [] = n.tip.getD p [] := by
  rw [h.getD hp, h.getD hp', hsame]

theorem netAdded_tallied (h : (netAdded n).get? p = some s) : p ∈ n.tip.keys ∧
      Tallied s (ownedLines n p (afterPaths n start (before n p)) (n.tip.getD p [])) := by
  rw [get?_eq_some_iff, netAdded_entries] at h
  obtain ⟨q, hq, he⟩ := mem_map.mp h
  obtain ⟨rfl, rfl⟩ := Prod.mk.inj he
  exact ⟨(sortedKeys_perm n.tip).mem_iff.mp hq, (netPath_lines n q _ _).2⟩

theorem mem_counted {s : FileSplit} (h : Tallied s lines) (k : Nat) :
    k ∈ (counted s.ranges).map Prod.fst ↔ ∃ o, (k, o) ∈ lines := by
  rw [h.ranges, map_map]
  constructor
  · intro hk
    obtain ⟨e, he, rfl⟩ := mem_map.mp hk
    exact ⟨e.2, he⟩
  · rintro ⟨o, ho⟩
    exact mem_map.mpr ⟨(k, o), ho, rfl⟩

theorem owners_of_tallied {s : FileSplit} {lines : List (Nat × Owner)} (h : Tallied s lines)
    (hnodup : (lines.map Prod.fst).Nodup) :
    ((counted s.ranges).map Prod.fst).Nodup ∧
    s.aiAdded = (counted s.ranges).countP (fun e => e.2 == some .ai) ∧
    s.humanAdded = (counted s.ranges).countP (fun e => e.2 == some .human) ∧
    s.aiAdded + s.humanAdded = (counted s.ranges).length := by
  rw [h.ranges, h.ai, h.human, countP_owner]
  refine ⟨?_, ?_, ?_, by simp⟩
  · rw [map_map]
    exact hnodup
  · rw [countP_map]
    exact countP_congr fun e _ => by simp
  · rw [countP_map]
    exact countP_congr fun e _ => by simp

variable (hhead : AtHead git head n.tip)
include hhead

theorem once_of_apart (happart : LinesApart n head)
    {s s' : FileSplit} (hs : (netAdded n).get? p = some s) (hs' : (netAdded n).get? p' = some s')
    (hsame : head p = head p') (hk : k ∈ (counted s.ranges).map Prod.fst)
    (hk' : k ∈ (counted s'.ranges).map Prod.fst) :
    p = p' := by
  obtain ⟨hp, htally⟩ := netAdded_tallied hs
  obtain ⟨hp', htally'⟩ := netAdded_tallied hs'
  obtain ⟨o, ho⟩ := (mem_counted htally k).mp hk
  obtain ⟨o', ho'⟩ := (mem_counted htally' k).mp hk'
  obtain ⟨i, rfl, howner⟩ := (mem_ownedLines n).mp ho
  obtain ⟨i', hi, howner'⟩ := (mem_ownedLines n).mp ho'
  obtain rfl : i = i' := by omega
  obtain ⟨l, hl, hcounts⟩ := countsFor_of_ownerAt n howner
  obtain ⟨l', hl', hcounts'⟩ := countsFor_of_ownerAt n howner'
  have hlines := hhead.getD_eq hp hp' hsame
  rw [hlines, hl] at hl'
  cases hl'
  by_contra hne
  exact happart p hp p' hp' hne hsame l (mem_of_getElem? hl) ⟨hcounts, hcounts'⟩

theorem total_le (honce : ∀ p p' s s' k, (netAdded n).get? p = some s → (netAdded n).get? p' = some s' →
      head p = head p' → k ∈ (counted s.ranges).map Prod.fst →
      k ∈ (counted s'.ranges).map Prod.fst → p = p') :
    ((netAdded n).entries.map fun e => e.2.aiAdded + e.2.humanAdded).sum ≤
      headLines git n.commits ((netAdded n).keys.map head) := by
  let places := (netAdded n).entries.flatMap fun e =>
    ((counted e.2.ranges).map Prod.fst).map fun k => (head e.1, k)
  let written := ((netAdded n).keys.map head).dedup.flatMap fun h =>
    ((((git.blame "HEAD" h).getD []).zipIdx.filter fun l => (bySHA n.commits l.1.sha).isSome).map
      fun l => (h, l.2 + 1))
  have hget : ∀ e ∈ (netAdded n).entries, (netAdded n).get? e.1 = some e.2 :=
    fun e he => (get?_eq_some_iff _ _ _).mpr he
  have hplaces : ((netAdded n).entries.map fun e => e.2.aiAdded + e.2.humanAdded).sum =
      places.length := by
    rw [length_flatMap]
    refine congrArg sum (map_congr_left fun e he => ?_)
    obtain ⟨_, htally⟩ := netAdded_tallied (hget e he)
    rw [(owners_of_tallied htally (ownedLines_nodup n _ _ _)).2.2.2]
    simp
  have hwritten : headLines git n.commits ((netAdded n).keys.map head) = written.length := by
    rw [length_flatMap]
    refine congrArg sum (map_congr_left fun h _ => ?_)
    rw [length_map, ← countP_eq_length_filter]
    conv_lhs => rw [← zipIdx_map_fst 0 ((git.blame "HEAD" h).getD []), countP_map]
    rfl
  have hnodup : places.Nodup := by
    refine nodup_flatMap.mpr ⟨fun e he => ?_, ?_⟩
    · obtain ⟨_, htally⟩ := netAdded_tallied (hget e he)
      refine List.Nodup.map (fun a b h => congrArg Prod.snd h) ?_
      exact (owners_of_tallied htally (ownedLines_nodup n _ _ _)).1
    · -- two paths at one file share no line, and other files have other names
      have hkeys : (netAdded n).entries.Pairwise fun e e' => e.1 ≠ e'.1 :=
        pairwise_map.mp (netAdded n).nodup
      refine hkeys.imp_of_mem fun he he' hne => ?_
      intro place hplace hplace'
      obtain ⟨k, hk, rfl⟩ := mem_map.mp hplace
      obtain ⟨k', hk', heq⟩ := mem_map.mp hplace'
      obtain ⟨hfile, rfl⟩ := Prod.mk.inj heq
      exact hne (honce _ _ _ _ _ (hget _ he) (hget _ he') hfile.symm hk hk')
  have hsub : places ⊆ written := by
    intro place hplace
    obtain ⟨e, he, hplace⟩ := mem_flatMap.mp hplace
    obtain ⟨k, hk, rfl⟩ := mem_map.mp hplace
    obtain ⟨hp, htally⟩ := netAdded_tallied (hget e he)
    obtain ⟨o, ho⟩ := (mem_counted htally k).mp hk
    obtain ⟨i, rfl, howner⟩ := (mem_ownedLines n).mp ho
    obtain ⟨l, hl, hcounts⟩ := countsFor_of_ownerAt n howner
    have hknown : (bySHA n.commits l.sha).isSome = true := by
      unfold countsFor at hcounts
      cases hc : bySHA n.commits l.sha with
      | none =>
        rw [hc] at hcounts
        cases hcounts
      | some c => rfl
    rw [hhead.getD hp] at hl
    refine mem_flatMap.mpr ⟨head e.1, ?_, mem_map.mpr ⟨(l, i), ?_, rfl⟩⟩
    · exact mem_dedup.mpr (mem_map_of_mem (mem_map_of_mem he))
    · exact mem_filter.mpr ⟨mem_zipIdx_iff_getElem?.mpr hl, hknown⟩
  calc ((netAdded n).entries.map fun e => e.2.aiAdded + e.2.humanAdded).sum
      = places.length := hplaces
    _ ≤ written.length := (subperm_of_subset hnodup hsub).length_le
    _ = headLines git n.commits ((netAdded n).keys.map head) := hwritten.symm

theorem eachOnce_of_apart (happart : LinesApart n head) :
    EachOnce git head n.commits (netAdded n) where
  owners := fun _ _ hs =>
    owners_of_tallied (netAdded_tallied hs).2 (ownedLines_nodup n _ _ _)
  once := fun _ _ _ _ _ hs hs' => once_of_apart hhead happart hs hs'
  total := total_le hhead fun _ _ _ _ _ hs hs' => once_of_apart hhead happart hs hs'

-- Without other sessions an open line is counted, so one that is open for two paths
-- is counted twice.
theorem apart_of_eachOnce (hothers : ∀ ids, otherLedgers n.sessionID n.ledgers ids = [])
    (h : EachOnce git head n.commits (netAdded n)) : LinesApart n head := by
  rintro p hp p' hp' hne hsame l hl ⟨hcounts, hcounts'⟩
  have hlines := hhead.getD_eq hp hp' hsame
  have hentry (q) (hq : q ∈ n.tip.keys) : (netAdded n).get? q =
      some (netPath n (afterPaths n start (before n q)) q).2 := by
    rw [get?_eq_some_iff, netAdded_entries]
    exact mem_map.mpr ⟨q, (sortedKeys_perm n.tip).mem_iff.mpr hq, rfl⟩
  have howner := ownerAt_of_countsFor n hothers hl hcounts
  have howner' := ownerAt_of_countsFor n hothers (hlines ▸ hl) hcounts'
  rw [hlines] at howner'
  generalize (findIdx (fun l' => l'.sha == l.sha && n.fp l' == n.fp l) (n.tip.getD p [])) = i
    at howner howner'
  obtain ⟨o, ho⟩ := Option.isSome_iff_exists.mp howner
  obtain ⟨o', ho'⟩ := Option.isSome_iff_exists.mp howner'
  refine hne (h.once p p' _ _ (i + 1) (hentry p hp) (hentry p' hp') hsame ?_ ?_)
  · exact (mem_counted (netAdded_tallied (hentry p hp)).2 _).mpr
      ⟨o, (mem_ownedLines n).mpr ⟨i, rfl, ho⟩⟩
  · refine (mem_counted (netAdded_tallied (hentry p' hp')).2 _).mpr
      ⟨o', (mem_ownedLines n).mpr ⟨i, rfl, ?_⟩⟩
    rw [hlines]
    exact ho'

end Once

theorem pushed_lines_count_once_iff (sha8 : String → String) (git : Git) (sessionID : String)
    (legacy : Map String Bool) (shas paths : List String) (commits : List CommitLines) :
    (∀ ledgers, legacyMarks sessionID ledgers = legacy → EachOnce git (git.headPath shas) commits
        (netAdded (netInput sha8 sessionID ledgers commits (sessionTip git legacy shas paths)))) ↔
    LinesApart (netInput sha8 sessionID .empty commits (sessionTip git legacy shas paths))
      (git.headPath shas) := by
  have hhead := sessionTip_atHead git legacy shas paths
  constructor
  · intro h
    -- a ledger for the session alone, with these legacy marks
    let own : Ledgers :=
      set .empty sessionID { newAILineAttribution sessionID with legacy := legacy }
    have hmarks : legacyMarks sessionID own = legacy := by
      rw [legacyMarks, get?_set_self]
      rfl
    have hothers (ids) : otherLedgers sessionID own ids = [] := by
      refine filterMap_eq_nil_iff.mpr fun id _ => ?_
      split_ifs with he
      · rfl
      · rw [get?_set_ne _ _ he, get?_empty]
    exact apart_of_eachOnce
      (n := netInput sha8 sessionID own commits (sessionTip git legacy shas paths))
      hhead hothers (h own hmarks)
  · intro happart ledgers _
    exact eachOnce_of_apart
      (n := netInput sha8 sessionID ledgers commits (sessionTip git legacy shas paths))
      hhead happart

theorem foldl_setNet (entries : List (String × FileSplit)) (m : Map String FileSplit)
    (hnodup : (entries.map Prod.fst).Nodup) (p : String) :
    match entries.lookup p with
    | none => (entries.foldl setNet m).get? p = m.get? p
    | some s => ∃ s', (entries.foldl setNet m).get? p = some s' ∧ s'.aiAdded = s.aiAdded ∧
        s'.humanAdded = s.humanAdded := by
  induction entries generalizing m with
  | nil => rfl
  | cons e rest ih =>
    obtain ⟨he, hrest⟩ := nodup_cons.mp hnodup
    have ih := ih (setNet m e) hrest
    rw [lookup_cons]
    by_cases hp : p = e.1
    · subst hp
      have hnone : rest.lookup e.1 = none := by
        rw [lookup_eq_none_iff]
        intro e' he'
        simp only [bne_iff_ne]
        intro heq
        exact he (heq ▸ mem_map_of_mem he')
      rw [hnone] at ih
      simp only [beq_self_eq_true]
      exact ⟨_, ih.trans (get?_set_self _ _ _), rfl, rfl⟩
    · have hbeq : (p == e.1) = false := by simpa using hp
      rw [setNet, get?_set_ne _ _ hp] at ih
      simp only [hbeq]
      exact ih

theorem enrichFile_net (sessionID : String) (self : AILineAttribution) (commits : List CommitLines)
    (byPath net : Map String FileSplit) (f : FileChange)
    (hlegacy : self.legacy.getD f.path false = false) (hs : net.get? f.path = some s) :
    let f' := enrichFile sessionID self commits (withNet byPath net) net f
    f'.aiLinesAdded = s.aiAdded ∧ f'.humanLinesAdded = s.humanAdded ∧ f'.lineRanges = s.ranges := by
  have hfold := foldl_setNet net.entries byPath net.nodup f.path
  have hlookup : net.entries.lookup f.path = some s := hs
  rw [hlookup] at hfold
  obtain ⟨s', hs', hai, hhuman⟩ := hfold
  have hnet : (withNet byPath net).get? f.path = some s' := hs'
  unfold enrichFile
  cases editedRanges self f.path (oldPathsOf commits f.path) with
  | none => simp [hs, hlegacy, hnet, hai, hhuman]
  | some ranges => simp [hs, hlegacy, hnet, hai, hhuman]

def renamedTwice (added : List String) : Git where
  codeChangesForCommits _ := none
  commitLines sha :=
    if sha = "c1" then some [⟨"a.txt", "", ["one"], [], []⟩]
    else if sha = "j" then some [⟨"b.txt", "", added, ["two"], []⟩]
    else if sha = "c2" then some [⟨"c.txt", "", ["y"], ["x"], []⟩]
    else none
  renames sha :=
    if sha = "c1" then some (.ofList [("a.txt", "c.txt")])
    else if sha = "j" then some (.ofList [("b.txt", "c.txt")])
    else some .empty
  blame rev path :=
    if rev = "HEAD" ∧ path = "c.txt" then some [⟨"c1", "one"⟩, ⟨"j", "x"⟩, ⟨"c2", "y"⟩] else some []

def renamedTwiceRecords (added : List String) : List CommitRecord :=
  [⟨"c1", "", ["s"], "", false, .empty⟩,
    ⟨"j", "", [], "", false, .ofList [("s", .ofList [("b.txt", added)])]⟩,
    ⟨"c2", "", ["s"], "", false, .empty⟩]

theorem one_joined_line_counts_once : LinesApart (netInput id "s" .empty
      (sessionCommitLines (renamedTwice ["x"]) "s" (renamedTwiceRecords ["x"]))
      (sessionTip (renamedTwice ["x"]) .empty ["c1", "c2"] ["a.txt", "c.txt"]))
      ((renamedTwice ["x"]).headPath ["c1", "c2"]) ∧
    ∀ ledgers, legacyMarks "s" ledgers = .empty →
      EachOnce (renamedTwice ["x"]) ((renamedTwice ["x"]).headPath ["c1", "c2"])
        (sessionCommitLines (renamedTwice ["x"]) "s" (renamedTwiceRecords ["x"]))
        (netAdded (netInput id "s" ledgers
          (sessionCommitLines (renamedTwice ["x"]) "s" (renamedTwiceRecords ["x"]))
          (sessionTip (renamedTwice ["x"]) .empty ["c1", "c2"] ["a.txt", "c.txt"]))) :=
  ⟨by decide +kernel, (pushed_lines_count_once_iff id (renamedTwice ["x"]) "s" .empty ["c1", "c2"]
    ["a.txt", "c.txt"] _).mpr (by decide +kernel)⟩

theorem joined_line_counts_twice :
    ¬ EachOnce (renamedTwice ["x", "x"]) ((renamedTwice ["x", "x"]).headPath ["c1", "c2"])
      (sessionCommitLines (renamedTwice ["x", "x"]) "s" (renamedTwiceRecords ["x", "x"]))
      (netAdded (netInput id "s" .empty
        (sessionCommitLines (renamedTwice ["x", "x"]) "s" (renamedTwiceRecords ["x", "x"]))
        (sessionTip (renamedTwice ["x", "x"]) .empty
          (ownSHAs "s" (renamedTwiceRecords ["x", "x"])) ["a.txt", "c.txt"]))) :=
  -- four lines are counted and the commits wrote three
  fun h => absurd h.total (by decide +kernel)

end Chainloop.Trace
