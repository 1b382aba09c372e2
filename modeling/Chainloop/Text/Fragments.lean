import Chainloop.Text.Pieces

-- What is left of a text after substitutions one after another.
namespace Chainloop.Text

open List

variable {α : Type}

structure Edit (α : Type) where
  old : List α
  new : List α

def Covered (edits : List (Edit α)) (w : List α) (i : Nat) : Prop :=
  ∃ e ∈ edits, ∃ j < i + 1, e.old <+: w.drop j ∧ i < j + e.old.length

instance [DecidableEq α] (edits : List (Edit α)) (w : List α) (i : Nat) : Decidable (Covered edits w i) :=
  inferInstanceAs (Decidable (∃ e ∈ edits, ∃ j < i + 1, e.old <+: w.drop j ∧ i < j + e.old.length))

section Trace

variable [DecidableEq α]

def trace (edits : List (Edit α)) (cs : List (Cell α)) : List (Cell α) :=
  edits.foldl (fun cs e => splice e.old e.new (fun _ => false) cs) cs

-- What an edit takes are characters that stand together in the given text.
def TakesGiven (w : List α) : List (Edit α) → List (Cell α) → Prop
  | [], _ => True
  | e :: edits, cs =>
    (∀ f ∈ startsFrom e.old 0 0 (cs.map Prod.fst), ∃ j,
      (cs.drop f).take e.old.length = original ((w.zipIdx.drop j).take e.old.length)) ∧
    TakesGiven w edits (splice e.old e.new (fun _ => false) cs)

end Trace

def putIn (edits : List (Edit α)) (k : Nat) : List α := (edits[k]?.map Edit.new).getD []

-- The text cut up into occurrences of what the edits look for and the characters
-- that are in no such occurrence.
structure Cut (edits : List (Edit α)) (w : List α) (ps : List (Piece α Nat)) : Prop where
  whole : source ps = w.zipIdx
  swaps : ∀ t k, .swap t k ∈ ps → ∃ e, edits[k]? = some e ∧ t.map Prod.fst = e.old
  lits : ∀ c, .lit c ∈ ps → ¬ Covered edits w c.2

-- The text with its covered positions replaced: exactly they are gone, and for each
-- occurrence that was taken there is what its edit puts in.
def Replaced [DecidableEq α] (edits : List (Edit α)) (w : List α) : Prop :=
  TakesGiven w edits (original w.zipIdx) ∧
    ∃ ps, Cut edits w ps ∧ trace edits (original w.zipIdx) = cells (putIn edits) ps

-- The text when the turn of an edit comes, if the edits before it have taken their
-- pieces. What it is to take is marked.
def Piece.turn (new : Nat → List α) (k : Nat) : Piece α Nat → List (α × Bool)
  | .lit c => [(c.1, false)]
  | .swap t j => if j < k then (new j).map (·, false) else t.map fun c => (c.1, j == k)

def atTurn (new : Nat → List α) (k : Nat) (ps : List (Piece α Nat)) : List (α × Bool) := ps.flatMap (Piece.turn new k)

-- What is looked for starts at marked places only.
def Marked (old : List α) (ms : List (α × Bool)) : Prop :=
  ∀ i < ms.length, old <+: (ms.map Prod.fst).drop i → (ms[i]?).any Prod.snd = true

instance [DecidableEq α] (old : List α) (ms : List (α × Bool)) : Decidable (Marked old ms) :=
  inferInstanceAs (Decidable (∀ i < ms.length, old <+: (ms.map Prod.fst).drop i → (ms[i]?).any Prod.snd = true))

-- When the turn of an edit comes, what it looks for is only in its own pieces.
def Separate (edits : List (Edit α)) (ps : List (Piece α Nat)) : Prop :=
  ∀ e ∈ edits.zipIdx, Marked e.1.old (atTurn (putIn edits) e.2 ps)

instance [DecidableEq α] (edits : List (Edit α)) (ps : List (Piece α Nat)) : Decidable (Separate edits ps) :=
  inferInstanceAs (Decidable (∀ e ∈ edits.zipIdx, Marked e.1.old (atTurn (putIn edits) e.2 ps)))

section Marks

variable {old : List α} {ms ns : List (α × Bool)}

theorem Marked.append (hleft : ∀ i < ms.length, old <+: ((ms ++ ns).map Prod.fst).drop i →
      (ms[i]?).any Prod.snd = true) (h : Marked old ns) : Marked old (ms ++ ns) := by
  intro i hi hocc
  by_cases hlt : i < ms.length
  · rw [getElem?_append_left hlt]
    exact hleft i hlt hocc
  · obtain ⟨k, rfl⟩ := Nat.exists_eq_add_of_le (Nat.le_of_not_lt hlt)
    rw [getElem?_append_right (by omega), Nat.add_sub_cancel_left]
    rw [map_append, ← length_map Prod.fst, drop_length_add_append] at hocc
    exact h k (by simpa using hi) hocc

theorem Marked.right (h : Marked old (ms ++ ns)) : Marked old ns := by
  intro i hi hocc
  have := h (ms.length + i) (by simpa using hi) (by
    rwa [map_append, ← length_map Prod.fst, drop_length_add_append])
  rwa [getElem?_append_right (by omega), Nat.add_sub_cancel_left] at this

-- Where nothing is marked, nothing starts.
theorem Marked.none_before (h : Marked old (ms ++ ns)) (hms : ∀ m ∈ ms, m.2 = false) (hi : i < ms.length) :
    ¬ old <+: ((ms ++ ns).map Prod.fst).drop i := by
  intro hocc
  have := h i (by simp; omega) hocc
  rw [getElem?_append_left hi, getElem?_eq_getElem hi, Option.any_some, hms _ (getElem_mem hi)] at this
  cases this

end Marks

section Turns

variable {new : Nat → List α} {old : List α}

-- The pieces when the turn of an edit comes.
def takenBefore (k : Nat) (ps : List (Piece α Nat)) : List (Piece α Nat) :=
  ps.flatMap fun
    | .lit c => [.lit c]
    | .swap t j => if j < k then [.swap t j] else lits t

@[simp] theorem takenBefore_append (k : Nat) (ps qs : List (Piece α Nat)) :
    takenBefore k (ps ++ qs) = takenBefore k ps ++ takenBefore k qs := flatMap_append

@[simp] theorem atTurn_append (k : Nat) (ps qs : List (Piece α Nat)) :
    atTurn new k (ps ++ qs) = atTurn new k ps ++ atTurn new k qs := flatMap_append

theorem takenBefore_cons (k : Nat) (p : Piece α Nat) (ps : List (Piece α Nat)) :
    takenBefore k (p :: ps) = takenBefore k [p] ++ takenBefore k ps := takenBefore_append k [p] ps

theorem atTurn_cons (k : Nat) (p : Piece α Nat) (ps : List (Piece α Nat)) :
    atTurn new k (p :: ps) = atTurn new k [p] ++ atTurn new k ps := atTurn_append k [p] ps

theorem source_takenBefore (k : Nat) (ps : List (Piece α Nat)) : source (takenBefore k ps) = source ps := by
  induction ps with
  | nil => rfl
  | cons p ps ih =>
    rw [takenBefore_cons, source_append, ih]
    cases p with
    | lit c => rfl
    | swap t j =>
      by_cases hj : j < k
      · simp [takenBefore, hj, source, Piece.source]
      · simp [takenBefore, hj]

theorem takenBefore_zero (ps : List (Piece α Nat)) : takenBefore 0 ps = lits (source ps) := by
  rw [takenBefore, lits, source, map_flatMap]
  refine flatMap_congr fun p _ => ?_
  cases p with
  | lit c => rfl
  | swap t j => rfl

theorem text_takenBefore (k : Nat) (ps : List (Piece α Nat)) : text new (takenBefore k ps) = (atTurn new k ps).map Prod.fst := by
  induction ps with
  | nil => rfl
  | cons p ps ih =>
    rw [takenBefore_cons, text_append, ih, atTurn_cons, map_append]
    congr 1
    cases p with
    | lit c => rfl
    | swap t j =>
      by_cases hj : j < k
      · simp [takenBefore, atTurn, Piece.turn, hj, Function.comp_def]
      · simp [takenBefore, atTurn, Piece.turn, hj, Function.comp_def]

theorem unmarked_of_not_mem {ps : List (Piece α Nat)} (h : ∀ t, .swap t k ∉ ps) : ∀ m ∈ atTurn new k ps, m.2 = false := by
  intro m hm
  obtain ⟨p, hp, hm⟩ := mem_flatMap.mp hm
  cases p with
  | lit c =>
    obtain rfl := mem_singleton.mp hm
    rfl
  | swap t j =>
    have hj : j ≠ k := by
      rintro rfl
      exact h t hp
    rw [Piece.turn] at hm
    split_ifs at hm
    · obtain ⟨_, -, rfl⟩ := mem_map.mp hm
      rfl
    · obtain ⟨_, -, rfl⟩ := mem_map.mp hm
      simp [hj]

-- If what an edit looks for is only in its own pieces, it takes them.
theorem sweep_takenBefore (hold : old ≠ []) {A ps : List (Piece α Nat)} (hA : ∀ t, .swap t k ∉ A)
    (htake : ∀ t, .swap t k ∈ ps → t.map Prod.fst = old) (h : Marked old (atTurn new k (A ++ ps))) :
    Sweep new old k (fun _ => false) pos (takenBefore k A ++ takenBefore k ps) (takenBefore k A ++ takenBefore (k + 1) ps) := by
  induction ps generalizing A pos with
  | nil =>
    refine .done ?_
    rintro ⟨x, y, hxy⟩
    rw [append_nil, ← append_nil (atTurn new k A)] at h
    have hlen := congrArg length hxy
    have hpos := length_pos_iff.mpr hold
    simp only [takenBefore, flatMap_nil, append_nil, length_append] at hlen hxy
    rw [show A.flatMap _ = takenBefore k A from rfl, text_takenBefore] at hlen hxy
    rw [length_map] at hlen
    refine h.none_before (unmarked_of_not_mem hA) (i := x.length) (by omega) ?_
    rw [append_nil, ← hxy, append_assoc, drop_left]
    exact prefix_append _ _
  | cons p ps ih =>
    by_cases hp : ∃ t, p = .swap t k
    · obtain ⟨t, rfl⟩ := hp
      have ht := htake t mem_cons_self
      have hk : takenBefore k [.swap t k] = lits t := by simp [takenBefore]
      have hk' : takenBefore (k + 1) [.swap t k] = [.swap t k] := by simp [takenBefore]
      rw [takenBefore_cons, takenBefore_cons (k + 1), hk, hk']
      rw [atTurn_append] at h
      refine .turn ht ?_ (by simp) ?_
      · intro j hj hocc
        rw [text_takenBefore, length_map] at hj
        apply h.none_before (unmarked_of_not_mem hA) hj
        rw [map_append, ← text_takenBefore k A, atTurn_cons, map_append, ← text_takenBefore k [_], hk, text_lits, ht, ← append_assoc]
        exact hocc.trans ((prefix_append _ _).drop j)
      · rw [atTurn_cons] at h
        exact ih (A := []) (by simp) (fun t' ht' => htake t' (mem_cons_of_mem _ ht')) h.right.right
    · have hsame : takenBefore (k + 1) [p] = takenBefore k [p] := by
        cases p with
        | lit c => rfl
        | swap t j =>
          have hj : j ≠ k := by
            rintro rfl
            exact hp ⟨t, rfl⟩
          have : j < k + 1 ↔ j < k := by omega
          simp only [takenBefore, flatMap_cons, flatMap_nil, append_nil, this]
      have hA' : ∀ t, .swap t k ∉ A ++ [p] := by
        intro t ht
        rcases mem_append.mp ht with ht | ht
        · exact hA t ht
        · exact hp ⟨t, (mem_singleton.mp ht).symm⟩
      rw [takenBefore_cons, takenBefore_cons (k + 1), hsame, ← append_assoc, ← append_assoc, ← takenBefore_append]
      exact ih hA' (fun t ht => htake t (mem_cons_of_mem _ ht)) (by simpa using h)

end Turns

section Given

variable {new : Nat → List α} {w : List α}

theorem mem_cells {ps : List (Piece α Nat)} (h : (a, some p) ∈ cells new ps) : .lit (a, p) ∈ ps := by
  obtain ⟨q, hq, h⟩ := mem_flatMap.mp h
  cases q with
  | lit c =>
    cases mem_singleton.mp h
    exact hq
  | swap t j =>
    obtain ⟨_, -, h⟩ := mem_map.mp h
    cases h

-- Characters that stand together in the text, and in the rewritten text, are
-- consecutive pieces.
theorem block_of_given {ps : List (Piece α Nat)} (hwhole : source ps <:+ w.zipIdx)
    (htaken : ∀ t i, .swap t i ∈ ps → t ≠ []) {hit : List (Cell α)} (hne : hit ≠ [])
    (hgiven : hit = original ((w.zipIdx.drop j).take n)) (x y : List (Cell α)) (heq : cells new ps = x ++ (hit ++ y)) :
    Block new ps x hit y := by
  have hnodup : w.zipIdx.Nodup := .of_map Prod.snd (by simpa using nodup_range')
  generalize hcs : (w.zipIdx.drop j).take n = cs at hgiven
  subst hgiven
  have hcsne : cs ≠ [] := by
    rintro rfl
    exact hne rfl
  obtain ⟨c, rest, rfl⟩ := exists_cons_of_ne_nil hcsne
  have hmem : ∀ d ∈ c :: rest, .lit d ∈ ps := by
    intro d hd
    have hin : (d.1, some d.2) ∈ cells new ps := by
      rw [heq]
      exact mem_append_right _ (mem_append_left _ (mem_map_of_mem hd))
    exact mem_cells hin
  obtain ⟨D, hD⟩ := hwhole
  have hstretch : w.zipIdx = w.zipIdx.take j ++ ((c :: rest) ++ (w.zipIdx.drop j).drop n) := by
    rw [← hcs, take_append_drop, take_append_drop]
  obtain ⟨u, v, huv⟩ : ∃ u v, source ps = u ++ ((c :: rest) ++ v) := by
    rcases append_eq_append_iff.mp (hD.trans hstretch) with ⟨m, -, hm⟩ | ⟨m, hm, hcut⟩
    · exact ⟨m, _, hm⟩
    · cases m with
      | nil => exact ⟨[], _, by simpa using hcut.symm⟩
      | cons d m =>
        obtain ⟨rfl, -⟩ := cons.inj hcut
        rw [← hD, nodup_append] at hnodup
        have hin : c ∈ source ps := mem_flatMap.mpr ⟨_, hmem c mem_cons_self, by simp [Piece.source]⟩
        exact absurd rfl (hnodup.2.2 c (by simp [hm]) c hin)
  have hps : (source ps).Nodup := by
    rw [← hD, nodup_append] at hnodup
    exact hnodup.2.1
  obtain ⟨A, B, rfl, rfl, rfl⟩ := exists_block_of_mem hps htaken (cons_ne_nil _ _) hmem u v huv
  -- the first of the characters is found once only
  have honce : ∀ {Q : List (Piece α Nat)}, c ∉ source Q → (c.1, some c.2) ∉ cells new Q := by
    intro Q hc hin
    exact hc (mem_flatMap.mpr ⟨_, mem_cells hin, by simp [Piece.source]⟩)
  rw [source_append, source_append, source_lits, cons_append, nodup_middle] at hps
  have hno := (nodup_cons.mp hps).1
  simp only [mem_append, not_or] at hno
  have hrest : (c.1, some c.2) ∉ original rest ++ cells new B := by
    have hlits : cells new (lits rest) = original rest := cells_lits rest
    rw [← hlits, ← cells_append]
    apply honce
    simp [hno.2]
  rw [cells_append, cells_append, cells_lits] at heq
  have hsplit := (append_cons_inj_of_notMem (honce hno.1) hrest).mp heq
  refine ⟨A, c :: rest, B, rfl, hsplit.1, rfl, ?_⟩
  exact append_cancel_left hsplit.2.2

end Given

section Run

variable [DecidableEq α] {new : Nat → List α} {w : List α}

-- The edits take their pieces one after another.
theorem trace_takenBefore {rest : List (Edit α)} {ps : List (Piece α Nat)} (hold : ∀ e ∈ rest, e.old ≠ [])
    (hnew : ∀ e ∈ rest.zipIdx k, new e.2 = e.1.new) (hwhole : source ps = w.zipIdx)
    (hswaps : ∀ t j, .swap t j ∈ ps → j < k ∨ ∃ e, (e, j) ∈ rest.zipIdx k ∧ t.map Prod.fst = e.old)
    (h : ∀ e ∈ rest.zipIdx k, Marked e.1.old (atTurn new e.2 ps)) :
    trace rest (cells new (takenBefore k ps)) = cells new ps ∧ TakesGiven w rest (cells new (takenBefore k ps)) := by
  induction rest generalizing k with
  | nil =>
    have hsame : takenBefore k ps = ps := by
      rw [takenBefore, flatMap_congr (g := fun p => [p]), flatMap_singleton']
      intro p hp
      cases p with
      | lit c => rfl
      | swap t j =>
        rcases hswaps t j hp with hj | ⟨e, he, -⟩
        · simp [hj]
        · cases he
    exact ⟨by rw [hsame]; rfl, trivial⟩
  | cons e rest ih =>
    obtain ⟨he, hrest⟩ := forall_mem_cons.mp hold
    rw [zipIdx_cons] at hnew h hswaps
    obtain ⟨hnew, hnews⟩ := forall_mem_cons.mp hnew
    obtain ⟨hmarked, hlater⟩ := forall_mem_cons.mp h
    have htake : ∀ t, .swap t k ∈ ps → t.map Prod.fst = e.old := by
      intro t ht
      rcases hswaps t k ht with hk | ⟨e', he', heq⟩
      · omega
      · rcases mem_cons.mp he' with h | h
        · cases h
          exact heq
        · have := le_snd_of_mem_zipIdx h
          omega
    have hsweep : Sweep new e.old k (fun _ => false) 0 (takenBefore k ps) (takenBefore (k + 1) ps) :=
      sweep_takenBefore (A := []) he (by simp) htake hmarked
    have hsplice := hsweep.splice_eq he
    rw [hnew] at hsplice
    obtain ⟨htrace, hgiven⟩ := ih hrest hnews (fun t j ht => by
      rcases hswaps t j ht with hj | ⟨e', he', heq⟩
      · exact .inl (by omega)
      · rcases mem_cons.mp he' with h | h
        · cases h
          exact .inl (by omega)
        · exact .inr ⟨e', h, heq⟩) hlater
    refine ⟨by rw [← htrace, ← hsplice]; rfl, fun f hf => ?_, by rwa [hsplice]⟩
    obtain ⟨A, hit, B, hps, hhit, rfl, -⟩ := hsweep.found he hf
    refine ⟨(source A).length, ?_⟩
    have hlen : e.old.length = hit.length := by rw [← hhit, length_map]
    rw [← hwhole, ← source_takenBefore k ps, hps, hlen, Nat.zero_add, cells_append, cells_append, cells_lits, ← length_cells,
      drop_left, take_left' (by simp [original]), source_append, source_append, source_lits, drop_left, take_left]

section Sweep

variable {k : Nat} {old : List α} {ps ps' : List (Piece α Nat)} (h : Sweep new old k (fun _ => false) pos ps ps')
include h

omit [DecidableEq α] in
theorem Sweep.atTurn_eq (hj : j < k) : atTurn new j ps' = atTurn new j ps := by
  induction h with
  | done => rfl
  | @turn pos A B B' mid hit hhit _ hmid _ ih =>
    have hmid' : atTurn new j mid = atTurn new j (lits hit) := by
      have hk : ¬ k < j := by omega
      have hne : k ≠ j := by omega
      simp [hmid, atTurn, lits, flatMap_map, Piece.turn, hk, hne, ← map_eq_flatMap]
    simp [hmid', ih]

omit [DecidableEq α] in
-- Every place where the search could find something is in what it takes.
theorem Sweep.marked (hlabels : ∀ t j, .swap t j ∈ ps → j < k) :
    (atTurn new k ps').map Prod.fst = text new ps ∧ Marked old (atTurn new k ps') := by
  have hshown : ∀ {A : List (Piece α Nat)}, (∀ t j, .swap t j ∈ A → j < k) →
      atTurn new k A = (text new A).map (·, false) := by
    intro A hA
    rw [text, cells, atTurn, map_map, map_flatMap]
    refine flatMap_congr fun p hp => ?_
    cases p with
    | lit c => rfl
    | swap t j => simp [Piece.turn, Piece.cells, hA t j hp]
  induction h with
  | @done pos ps hnone =>
    refine ⟨by rw [hshown hlabels]; simp [Function.comp_def], fun i _ hocc => absurd ?_ hnone⟩
    rw [hshown hlabels, map_map, Function.comp_def] at hocc
    have hinfix := hocc.isInfix.trans (drop_suffix i _).isInfix
    simpa using hinfix
  | @turn pos A B B' mid hit hhit hfirst hmid _ ih =>
    obtain ⟨hB, hmarked⟩ := ih fun t j ht => hlabels t j (by simp [ht])
    have hA := hshown (A := A) fun t j ht => hlabels t j (by simp [ht])
    have hmid' : atTurn new k mid = old.map (·, true) := by
      simp [hmid, atTurn, Piece.turn, ← hhit, Function.comp_def]
    have hrest : Marked old (atTurn new k mid ++ atTurn new k B') := by
      refine hmarked.append fun i hi _ => ?_
      rw [hmid', length_map] at hi
      simp [hmid', hi]
    rw [atTurn_append, atTurn_append]
    have hfst : (atTurn new k A ++ (atTurn new k mid ++ atTurn new k B')).map Prod.fst = text new A ++ (old ++ text new B) := by
      simp [hA, hmid', hB, Function.comp_def]
    refine ⟨by rw [hfst]; simp [hhit], hrest.append fun i hi hocc => absurd ?_ (hfirst.none_before (text new B) (j := i) ?_)⟩
    · rwa [hfst, ← append_assoc] at hocc
    · simpa [hA] using hi

end Sweep

theorem exists_cut {rest : List (Edit α)} {ps : List (Piece α Nat)} (hold : ∀ e ∈ rest, e.old ≠ [])
    (hnew : ∀ e ∈ rest.zipIdx k, new e.2 = e.1.new) (hwhole : source ps = w.zipIdx)
    (htaken : ∀ t j, .swap t j ∈ ps → t ≠ [] ∧ j < k) (h : TakesGiven w rest (cells new ps)) :
    ∃ ps', source ps' = w.zipIdx ∧ trace rest (cells new ps) = cells new ps' ∧
      (∀ t j, .swap t j ∈ ps' → .swap t j ∈ ps ∨ ∃ e, (e, j) ∈ rest.zipIdx k ∧ t.map Prod.fst = e.old) ∧
      (∀ e ∈ rest.zipIdx k, Marked e.1.old (atTurn new e.2 ps')) ∧
      ∀ j < k, atTurn new j ps' = atTurn new j ps := by
  induction rest generalizing k ps with
  | nil => exact ⟨ps, hwhole, rfl, fun t j ht => .inl ht, by simp, fun _ _ => rfl⟩
  | cons e rest ih =>
    obtain ⟨he, hrest⟩ := forall_mem_cons.mp hold
    rw [zipIdx_cons] at hnew ⊢
    obtain ⟨hnew, hnews⟩ := forall_mem_cons.mp hnew
    obtain ⟨hgiven, hlater⟩ := h
    obtain ⟨ps1, hsweep⟩ : ∃ ps1, Sweep new e.old k (fun _ => false) 0 ps ps1 := by
      refine exists_sweep he (fun hit => ∃ j, hit = original ((w.zipIdx.drop j).take e.old.length))
        (fun B hB x hit y heq hne ⟨j, hj⟩ => ?_) fun x hit y heq hhit hmem => ?_
      · obtain ⟨C, rfl⟩ := hB
        refine block_of_given ⟨source C, by rw [← hwhole, source_append]⟩ (fun t i ht => ?_) hne hj x y heq
        exact (htaken t i (by simp [ht])).1
      · rw [Nat.zero_add] at hmem
        obtain ⟨j, hj⟩ := hgiven x.length hmem
        rw [heq, take_hit hhit] at hj
        exact ⟨j, hj⟩
    have hsplice := hsweep.splice_eq he
    rw [hnew] at hsplice
    rw [hsplice] at hlater
    have htaken1 : ∀ t j, .swap t j ∈ ps1 → t ≠ [] ∧ j < k + 1 := by
      intro t j ht
      rcases hsweep.mem ht with ht | ⟨hit, hp, hhit⟩
      · obtain ⟨hne, hj⟩ := htaken t j ht
        exact ⟨hne, by omega⟩
      · cases hp
        refine ⟨?_, by omega⟩
        rintro rfl
        exact he hhit.symm
    obtain ⟨ps', hwhole', htrace, hswaps, hmarked, hturns⟩ := ih hrest hnews (hsweep.source_eq.trans hwhole) htaken1 hlater
    refine ⟨ps', hwhole', ?_, fun t j ht => ?_, forall_mem_cons.mpr ⟨?_, hmarked⟩, fun j hj => ?_⟩
    · rw [← htrace, ← hsplice]
      rfl
    · rcases hswaps t j ht with ht | ⟨e', he', heq⟩
      · rcases hsweep.mem ht with ht | ⟨hit, hp, hhit⟩
        · exact .inl ht
        · cases hp
          exact .inr ⟨e, mem_cons_self, hhit⟩
      · exact .inr ⟨e', mem_cons_of_mem _ he', heq⟩
    · rw [hturns k (by omega)]
      exact (hsweep.marked fun t j ht => (htaken t j ht).2).2
    · rw [hturns j (by omega), hsweep.atTurn_eq hj]

end Run

-- The covered positions are replaced exactly when the text can be cut up so that
-- the edits do not get into each other's way.
theorem replaced_iff [DecidableEq α] {edits : List (Edit α)} (hold : ∀ e ∈ edits, e.old ≠ []) (w : List α) :
    Replaced edits w ↔ ∃ ps, Cut edits w ps ∧ Separate edits ps := by
  have hnew : ∀ e ∈ edits.zipIdx, putIn edits e.2 = e.1.new := by
    intro e he
    rw [putIn, mem_zipIdx_iff_getElem?.mp he]
    rfl
  have hstart : cells (putIn edits) (lits w.zipIdx) = original w.zipIdx := cells_lits _
  constructor
  · rintro ⟨hgiven, ps, hcut, htrace⟩
    rw [← hstart] at hgiven
    obtain ⟨ps', hwhole, htrace', hswaps, hmarked, -⟩ := exists_cut hold hnew (source_lits _)
      (fun t j ht => by
        obtain ⟨c, -, hc⟩ := (mem_lits _).mp ht
        cases hc) hgiven
    rw [hstart, htrace] at htrace'
    refine ⟨ps', ⟨hwhole, fun t k ht => ?_, fun c hc => ?_⟩, hmarked⟩
    · rcases hswaps t k ht with ht | ⟨e, he, heq⟩
      · obtain ⟨c, -, hc⟩ := (mem_lits _).mp ht
        cases hc
      · exact ⟨e, mem_zipIdx_iff_getElem?.mp he, heq⟩
    · have hin : (c.1, some c.2) ∈ cells (putIn edits) ps := by
        rw [htrace']
        exact mem_flatMap.mpr ⟨_, hc, by simp [Piece.cells]⟩
      exact hcut.lits c (mem_cells hin)
  · rintro ⟨ps, hcut, hseparate⟩
    have hbefore : takenBefore 0 ps = lits w.zipIdx := by rw [takenBefore_zero, hcut.whole]
    obtain ⟨htrace, hgiven⟩ := trace_takenBefore (k := 0) hold hnew hcut.whole
      (fun t j ht => by
        obtain ⟨e, he, heq⟩ := hcut.swaps t j ht
        exact .inr ⟨e, mem_zipIdx_iff_getElem?.mpr he, heq⟩) hseparate
    rw [hbefore, hstart] at htrace hgiven
    exact ⟨hgiven, ps, hcut, htrace⟩

end Chainloop.Text
