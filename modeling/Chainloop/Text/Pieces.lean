import Chainloop.Text.Replace
import Mathlib.Data.List.Nodup
import Mathlib.Data.List.Pairwise

-- Texts in which some parts were replaced. A text is cut into pieces: characters
-- that are still there, with their positions, and parts that were taken out, with
-- what was put in for them.
namespace Chainloop.Text

open List

variable {α ι : Type}

-- A character of a rewritten text and the position it comes from. What was put in
-- comes from none.
abbrev Cell (α : Type) := α × Option Nat

inductive Piece (α ι : Type) where
  | lit (c : α × Nat)
  | swap (taken : List (α × Nat)) (i : ι)
deriving DecidableEq

def Piece.source : Piece α ι → List (α × Nat)
  | .lit c => [c]
  | .swap taken _ => taken

def Piece.cells (new : ι → List α) : Piece α ι → List (Cell α)
  | .lit c => [(c.1, some c.2)]
  | .swap _ i => (new i).map (·, none)

def source (ps : List (Piece α ι)) : List (α × Nat) := ps.flatMap Piece.source

def cells (new : ι → List α) (ps : List (Piece α ι)) : List (Cell α) := ps.flatMap (Piece.cells new)

def text (new : ι → List α) (ps : List (Piece α ι)) : List α := (cells new ps).map Prod.fst

def lits (cs : List (α × Nat)) : List (Piece α ι) := cs.map .lit

def original (cs : List (α × Nat)) : List (Cell α) := cs.map fun c => (c.1, some c.2)

-- A substitution on cells.
def splice [DecidableEq α] (old new : List α) (keep : Nat → Bool) (cs : List (Cell α)) : List (Cell α) :=
  substFrom Prod.fst old
    (fun pos => if keep pos then (cs.drop pos).take old.length else new.map (·, none)) 0 0 cs

theorem take_hit {β : Type} {key : β → α} {A hit B : List β} (h : hit.map key = old) :
    ((A ++ (hit ++ B)).drop A.length).take old.length = hit := by
  rw [drop_left, ← h, length_map, take_left]

theorem map_fst_splice [DecidableEq α] (hold : old ≠ []) (new : List α) (keep : Nat → Bool) (cs : List (Cell α)) :
    (splice old new keep cs).map Prod.fst
      = substFrom id old (fun pos => if keep pos then old else new) 0 0 (cs.map Prod.fst) := by
  refine map_substFrom hold 0 cs fun A hit B hcs hhit => ?_
  subst hcs
  rw [Nat.zero_add, take_hit hhit]
  split_ifs
  · exact hhit
  · simp [Function.comp_def]

section Simp

variable {new : ι → List α} (ps qs : List (Piece α ι)) (cs : List (α × Nat)) (i : ι)

@[simp] theorem source_nil : source ([] : List (Piece α ι)) = [] := rfl

@[simp] theorem source_append : source (ps ++ qs) = source ps ++ source qs := flatMap_append

@[simp] theorem cells_append : cells new (ps ++ qs) = cells new ps ++ cells new qs := flatMap_append

@[simp] theorem text_append : text new (ps ++ qs) = text new ps ++ text new qs := by simp [text]

@[simp] theorem source_lits : source (lits cs : List (Piece α ι)) = cs := by
  simp [source, lits, flatMap_map, Piece.source]

@[simp] theorem text_nil : text new ([] : List (Piece α ι)) = [] := rfl

@[simp] theorem text_lits : text new (lits cs) = cs.map Prod.fst := by
  simp [text, cells, lits, flatMap_map, Piece.cells, ← map_eq_flatMap]

@[simp] theorem cells_lits : cells new (lits cs) = original cs := by
  simp [cells, lits, original, flatMap_map, Piece.cells, ← map_eq_flatMap]

@[simp] theorem source_swap : source (.swap cs i :: ps) = cs ++ source ps := rfl

@[simp] theorem text_swap : text new (.swap cs i :: ps) = new i ++ text new ps := by
  simp [text, cells, Piece.cells, Function.comp_def]

@[simp] theorem length_cells : (cells new ps).length = (text new ps).length := by simp [text]

theorem mem_lits {p : Piece α ι} : p ∈ lits cs ↔ ∃ c ∈ cs, p = .lit c := by
  simp [lits, eq_comm]

end Simp

section Blocks

-- A stretch of what the pieces show that meets only literal pieces is shown by a
-- run of such pieces.
theorem exists_stretch {π δ : Type} {f : π → List δ} (lit : π → Prop) {hit : List δ} {ps : List π}
    (h : ∀ p ∈ ps, (lit p ∧ ∃ c, f p = [c]) ∨ f p ≠ [] ∧ ∀ c ∈ hit, c ∉ f p) (hne : hit ≠ [])
    (x y : List δ) (heq : ps.flatMap f = x ++ (hit ++ y)) :
    ∃ A H B, ps = A ++ (H ++ B) ∧ A.flatMap f = x ∧ H.flatMap f = hit ∧ B.flatMap f = y ∧ ∀ p ∈ H, lit p := by
  -- the front part, when the stretch starts at once
  have hfront : ∀ (ps : List π) (hit' : List δ), (∀ c ∈ hit', c ∈ hit) → (∀ p ∈ ps, (lit p ∧ ∃ c, f p = [c]) ∨
      f p ≠ [] ∧ ∀ c ∈ hit, c ∉ f p) → ps.flatMap f = hit' ++ y →
      ∃ H B, ps = H ++ B ∧ H.flatMap f = hit' ∧ B.flatMap f = y ∧ ∀ p ∈ H, lit p := by
    intro ps
    induction ps with
    | nil =>
      intro hit' _ _ heq
      obtain ⟨rfl, rfl⟩ := append_eq_nil_iff.mp heq.symm
      exact ⟨[], [], rfl, rfl, rfl, by simp⟩
    | cons p ps ih =>
      intro hit' hsub h heq
      obtain ⟨hp, hps⟩ := forall_mem_cons.mp h
      cases hit' with
      | nil => exact ⟨[], p :: ps, rfl, rfl, heq, by simp⟩
      | cons c hit' =>
        obtain ⟨hc, htail⟩ := forall_mem_cons.mp hsub
        rw [flatMap_cons] at heq
        rcases hp with ⟨hlit, d, hd⟩ | ⟨hfull, hno⟩
        · rw [hd] at heq
          obtain ⟨rfl, hrest⟩ := cons.inj heq
          obtain ⟨H, B, rfl, hH, hB, hlits⟩ := ih hit' htail hps hrest
          exact ⟨p :: H, B, rfl, by rw [flatMap_cons, hd, hH]; rfl, hB, forall_mem_cons.mpr ⟨hlit, hlits⟩⟩
        · obtain ⟨d, tail, hd⟩ := exists_cons_of_ne_nil hfull
          rw [hd] at heq
          obtain ⟨rfl, -⟩ := cons.inj heq
          exact absurd (by rw [hd]; simp) (hno d hc)
  induction ps generalizing x with
  | nil =>
    have hnil := (append_eq_nil_iff.mp heq.symm).2
    exact absurd (append_eq_nil_iff.mp hnil).1 hne
  | cons p ps ih =>
    obtain ⟨hp, hps⟩ := forall_mem_cons.mp h
    rw [flatMap_cons] at heq
    rcases append_eq_append_iff.mp heq with ⟨m, rfl, hm⟩ | ⟨m, hx, hm⟩
    · obtain ⟨A, H, B, rfl, rfl, hrest⟩ := ih hps m hm
      exact ⟨p :: A, H, B, rfl, by simp, hrest⟩
    · cases m with
      | nil =>
        obtain ⟨A, H, B, rfl, hA, hrest⟩ := ih hps [] (by simpa using hm.symm)
        exact ⟨p :: A, H, B, rfl, by rw [flatMap_cons, hA, hx, append_nil, append_nil], hrest⟩
      | cons d m =>
        obtain ⟨c, hit', rfl⟩ := exists_cons_of_ne_nil hne
        obtain ⟨rfl, -⟩ := cons.inj hm
        rcases hp with ⟨hlit, e, he⟩ | ⟨-, hno⟩
        · rw [he] at hx
          obtain ⟨rfl, -⟩ : x = [] ∧ [e] = c :: m := by
            cases x with
            | nil => exact ⟨rfl, hx⟩
            | cons b x => simp at hx
          obtain ⟨H, B, hps', hH, hB, hlits⟩ := hfront (p :: ps) (c :: hit') (fun _ hc => hc) h heq
          exact ⟨[], H, B, hps', rfl, hH, hB, hlits⟩
        · exact absurd (by rw [hx]; simp) (hno c mem_cons_self)

theorem exists_lits {H : List (Piece α ι)} (h : ∀ p ∈ H, ∃ c, p = .lit c) : ∃ cs, H = lits cs := by
  induction H with
  | nil => exact ⟨[], rfl⟩
  | cons p H ih =>
    obtain ⟨⟨c, rfl⟩, hH⟩ := forall_mem_cons.mp h
    obtain ⟨cs, rfl⟩ := ih hH
    exact ⟨c :: cs, rfl⟩

variable {new : ι → List α} {ps : List (Piece α ι)}

-- A stretch of what the pieces show that is shown by literal pieces.
def Block (new : ι → List α) (ps : List (Piece α ι)) (x hit y : List (Cell α)) : Prop :=
  ∃ A cs B, ps = A ++ (lits cs ++ B) ∧ cells new A = x ∧ original cs = hit ∧ cells new B = y

-- Cells of the text that stand together in the rewritten text are literal pieces.
theorem exists_block (hnew : ∀ t i, .swap t i ∈ ps → new i ≠ []) {hit : List (Cell α)} (hne : hit ≠ [])
    (horig : ∀ c ∈ hit, c.2.isSome = true) (x y : List (Cell α)) (heq : cells new ps = x ++ (hit ++ y)) :
    Block new ps x hit y := by
  obtain ⟨A, H, B, rfl, hA, hH, hB, hlits⟩ := exists_stretch (fun p : Piece α ι => ∃ c, p = .lit c)
    (fun p hp => by
      cases p with
      | lit c => exact .inl ⟨⟨c, rfl⟩, _, rfl⟩
      | swap t i =>
        refine .inr ⟨by simpa [Piece.cells] using hnew t i hp, fun c hc hin => ?_⟩
        obtain ⟨a, -, rfl⟩ := mem_map.mp hin
        exact absurd (horig _ hc) (by simp)) hne x y heq
  obtain ⟨cs, rfl⟩ := exists_lits hlits
  exact ⟨A, cs, B, rfl, hA, (cells_lits cs).symm.trans hH, hB⟩

-- Consecutive characters of the text that are still there are consecutive pieces.
theorem exists_block_of_mem (hnodup : (source ps).Nodup) (htaken : ∀ t i, .swap t i ∈ ps → t ≠ [])
    {hit : List (α × Nat)} (hne : hit ≠ []) (hmem : ∀ c ∈ hit, .lit c ∈ ps) (x y : List (α × Nat))
    (heq : source ps = x ++ (hit ++ y)) :
    ∃ A B, ps = A ++ (lits hit ++ B) ∧ source A = x ∧ source B = y := by
  have hapart := (nodup_flatMap.mp hnodup).2
  have hsymm : Std.Symm (Function.onFun Disjoint (Piece.source : Piece α ι → _)) := ⟨fun _ _ h _ hx hy => h hy hx⟩
  obtain ⟨A, H, B, rfl, hA, hH, hB, hlits⟩ := exists_stretch (fun p : Piece α ι => ∃ c, p = .lit c)
    (fun p hp => by
      cases p with
      | lit c => exact .inl ⟨⟨c, rfl⟩, _, rfl⟩
      | swap t i =>
        refine .inr ⟨htaken t i hp, fun c hc hin => ?_⟩
        have hdisj := hapart.forall (hmem c hc) hp (by simp)
        exact hdisj (by simp [Piece.source]) hin) hne x y heq
  obtain ⟨cs, rfl⟩ := exists_lits hlits
  obtain rfl : cs = hit := by
    rw [← hH]
    exact (source_lits (ι := ι) cs).symm
  exact ⟨A, B, rfl, hA, hB⟩

-- Two places of the text that are in one block are as far apart as they were.
theorem length_text_of_block (hne : ∀ p ∈ ps, p.source ≠ [] ∧ p.cells new ≠ []) {X S : List (Piece α ι)}
    {cs : List (α × Nat)} (hX : X ++ lits cs <+: ps) (hS : S <+: ps)
    (hin : (source X).length ≤ (source S).length ∧ (source S).length ≤ (source X).length + cs.length ∨
      (text new X).length ≤ (text new S).length ∧ (text new S).length ≤ (text new X).length + cs.length) :
    (text new S).length + (source X).length = (text new X).length + (source S).length := by
  have hempty : ∀ {M}, (∀ p ∈ M, p ∈ ps) → (source M).length = 0 ∨ (text new M).length = 0 → M = [] := by
    intro M hsub hzero
    cases M with
    | nil => rfl
    | cons p M =>
      obtain ⟨hsource, hcells⟩ := hne p (hsub p mem_cons_self)
      simp [source, text, cells, hsource, hcells] at hzero
  rcases prefix_or_prefix_of_prefix hS ((prefix_append X _).trans hX) with ⟨M, rfl⟩ | ⟨M, rfl⟩
  · obtain rfl := hempty (M := M) (fun p hp => hX.subset (by simp [hp])) (by
      simp only [source_append, text_append, length_append] at hin
      omega)
    simp
  · suffices hM : ∃ cs', M = lits cs' by
      obtain ⟨cs', rfl⟩ := hM
      simp
      omega
    rcases prefix_or_prefix_of_prefix hS hX with h | h
    · obtain ⟨N, hN⟩ := (prefix_append_right_inj X).mp h
      exact exists_lits fun p hp => by
        obtain ⟨c, -, hc⟩ := (mem_lits cs).mp (hN ▸ mem_append_left N hp)
        exact ⟨c, hc⟩
    · obtain ⟨N, rfl⟩ := (prefix_append_right_inj X).mp h
      obtain rfl := hempty (M := N) (fun p hp => hS.subset (by simp [hp])) (by
        simp only [source_append, text_append, source_lits, text_lits, length_append, length_map] at hin
        omega)
      exact ⟨cs, by simp⟩

end Blocks

-- One substitution, seen on the pieces: every occurrence that the search finds is
-- made of literal pieces, and is kept or taken.
inductive Sweep (new : ι → List α) (old : List α) (i : ι) (keep : Nat → Bool) :
    Nat → List (Piece α ι) → List (Piece α ι) → Prop where
  | done {pos : Nat} {ps : List (Piece α ι)} (hnone : ¬ old <:+: text new ps) : Sweep new old i keep pos ps ps
  | turn {pos : Nat} {A B B' mid : List (Piece α ι)} {hit : List (α × Nat)} (hhit : hit.map Prod.fst = old)
      (hfirst : First old (text new A))
      (hmid : mid = if keep (pos + (text new A).length) then lits hit else [.swap hit i])
      (hrest : Sweep new old i keep (pos + (text new A).length + old.length) B B') :
      Sweep new old i keep pos (A ++ (lits hit ++ B)) (A ++ (mid ++ B'))

section Sweep

variable {new : ι → List α} {old : List α} {i : ι} {keep : Nat → Bool} {ps ps' : List (Piece α ι)}

theorem exists_sweep [DecidableEq α] (hold : old ≠ []) (Q : List (Cell α) → Prop)
    (hblock : ∀ B, B <:+ ps → ∀ x hit y, cells new B = x ++ (hit ++ y) → hit ≠ [] → Q hit → Block new B x hit y)
    (hfound : ∀ x hit y, cells new ps = x ++ (hit ++ y) → hit.map Prod.fst = old →
      pos + x.length ∈ startsFrom old pos 0 (text new ps) → Q hit) :
    ∃ ps', Sweep new old i keep pos ps ps' := by
  induction hn : ps.length using Nat.strong_induction_on generalizing pos ps with
  | _ n ih =>
    rcases exists_first old (text new ps) with hnone | ⟨gap, rest, htext, hfirst⟩
    · exact ⟨ps, .done hnone⟩
    · have hstarts := startsFrom_first pos gap rest hold hfirst
      rw [← htext] at hstarts
      rw [append_assoc, text] at htext
      obtain ⟨x, tail, hcells, rfl, htail⟩ := map_eq_append_iff.mp htext
      obtain ⟨hit, y, rfl, hhit, rfl⟩ := map_eq_append_iff.mp htail
      have hne : hit ≠ [] := by
        rintro rfl
        exact hold hhit.symm
      have hQ := hfound x hit y hcells hhit (by rw [hstarts]; simp)
      obtain ⟨A, cs, B, rfl, rfl, rfl, rfl⟩ := hblock ps (suffix_refl _) x hit y hcells hne hQ
      have hcs : cs.map Prod.fst = old := by simpa [original, Function.comp_def] using hhit
      have hrest : ∀ x hit y, cells new B = x ++ (hit ++ y) → hit.map Prod.fst = old →
          pos + (text new A).length + old.length + x.length ∈
            startsFrom old (pos + (text new A).length + old.length) 0 (text new B) → Q hit := by
        intro x hit y hB hhit hmem
        refine hfound (cells new A ++ original cs ++ x) hit y (by simp [hB]) hhit ?_
        have hlen : pos + (cells new A ++ original cs ++ x).length
            = pos + (text new A).length + old.length + x.length := by
          simp [← hcs, original]
          omega
        rw [hstarts, hlen]
        exact mem_cons_of_mem _ hmem
      have hshort : B.length < n := by
        have hpos : 0 < cs.length := by
          rw [← length_map Prod.fst, hcs]
          exact length_pos_iff.mpr hold
        simp only [lits, length_append, length_map] at hn
        omega
      have hsuffix : B <:+ A ++ (lits cs ++ B) := (suffix_append _ _).trans (suffix_append _ _)
      obtain ⟨B', hB⟩ := ih B.length hshort (fun B' hB' => hblock B' (hB'.trans hsuffix)) hrest rfl
      exact ⟨_, .turn hcs hfirst rfl hB⟩

theorem Sweep.mid_eq {hit : List (α × Nat)} {b : Bool} (hmid : mid = if b then lits hit else [.swap hit i]) :
    source mid = hit ∧ (b = true ∧ mid = lits hit ∨ b = false ∧ mid = [.swap hit i]) := by
  cases b <;> simp [hmid, source, lits, Piece.source, flatMap_map]

-- An occurrence that starts before the one that was found stood there already.
theorem prefix_of_mid {hit cs : List (α × Nat)} {M Y B' mid : List (Piece α ι)} {kept : Bool}
    (hhit : hit.map Prod.fst = old) (hcs : cs.map Prod.fst = old)
    (hmid : mid = if kept then lits cs else [.swap cs i]) (hM : lits hit ++ Y = M ++ (mid ++ B')) :
    old <+: text new M ++ old := by
  rcases (Sweep.mid_eq hmid).2 with ⟨-, rfl⟩ | ⟨-, rfl⟩
  · have hshown := congrArg (text new) hM
    rw [text_append, text_append, text_append, text_lits, text_lits, hhit, hcs, ← append_assoc] at hshown
    refine prefix_of_prefix_length_le ⟨_, hshown⟩ (prefix_append _ _) ?_
    simp
  · rcases append_eq_append_iff.mp hM with ⟨N, hN, -⟩ | ⟨N, hN, hY⟩
    · rw [hN, text_append, text_lits, hhit, append_assoc]
      exact prefix_append _ _
    · cases N with
      | nil =>
        have hshown : text new (lits hit) = old := by rw [text_lits, hhit]
        simp [← hshown, hN]
      | cons p N =>
        obtain ⟨rfl, -⟩ := cons.inj hY
        have hmem : .swap cs i ∈ lits hit := by simp [hN]
        obtain ⟨c', -, hc'⟩ := (mem_lits hit).mp hmem
        cases hc'

section Step

variable (h : Sweep new old i keep pos ps ps')
include h

theorem Sweep.source_eq : source ps' = source ps := by
  induction h with
  | done => rfl
  | turn _ _ hmid _ ih => simp [(mid_eq hmid).1, ih]

theorem Sweep.mem (hp : p ∈ ps') : p ∈ ps ∨ ∃ hit, p = .swap hit i ∧ hit.map Prod.fst = old := by
  induction h with
  | done => exact .inl hp
  | @turn _ A B B' mid hit hhit _ hmid _ ih =>
    simp only [mem_append] at hp ⊢
    rcases hp with hp | hp | hp
    · exact .inl (.inl hp)
    · rcases (mid_eq hmid).2 with ⟨-, rfl⟩ | ⟨-, rfl⟩
      · exact .inl (.inr (.inl hp))
      · exact .inr ⟨hit, mem_singleton.mp hp, hhit⟩
    · exact (ih hp).imp (fun hp => .inr (.inr hp)) id

-- A character is still there, or was in an occurrence that was taken.
theorem Sweep.lit_mem {c : α × Nat} (hc : .lit c ∈ ps) : .lit c ∈ ps' ∨ ∃ A hit B, ps = A ++ (lits hit ++ B) ∧
    hit.map Prod.fst = old ∧ c ∈ hit ∧ keep (pos + (text new A).length) = false := by
  induction h with
  | done => exact .inl hc
  | @turn pos A B B' mid hit hhit _ hmid _ ih =>
    simp only [mem_append] at hc ⊢
    rcases hc with hc | hc | hc
    · exact .inl (.inl hc)
    · rcases (mid_eq hmid).2 with ⟨-, rfl⟩ | ⟨hkeep, rfl⟩
      · exact .inl (.inr (.inl hc))
      · obtain ⟨c', hc', heq⟩ := (mem_lits hit).mp hc
        cases heq
        exact .inr ⟨A, hit, B, rfl, hhit, hc', hkeep⟩
    · rcases ih hc with hc | ⟨A', hit', B₁, rfl, hhit', hc', hkeep⟩
      · exact .inl (.inr (.inr hc))
      · refine .inr ⟨A ++ (lits hit ++ A'), hit', B₁, by simp, hhit', hc', ?_⟩
        convert hkeep using 2
        simp [← hhit]
        omega

-- An occurrence that is still there overlaps one that was found and kept.
theorem Sweep.left (hold : old ≠ []) {hit : List (α × Nat)}
    (hhit : hit.map Prod.fst = old) (X Y : List (Piece α ι)) (heq : ps' = X ++ (lits hit ++ Y)) :
    ∃ A hit' B, ps = A ++ (lits hit' ++ B) ∧ hit'.map Prod.fst = old ∧
      keep (pos + (text new A).length) = true ∧ (source A).length ≤ (source X).length ∧
      (source X).length < (source A).length + old.length := by
  have hne : hit ≠ [] := by
    rintro rfl
    exact hold hhit.symm
  induction h generalizing X with
  | @done pos ps hnone =>
    refine absurd ⟨text new X, text new Y, ?_⟩ hnone
    simp [heq, hhit]
  | @turn pos A B B' mid cs hcs hfirst hmid _ ih =>
    have hlater : ∀ M, B' = M ++ (lits hit ++ Y) → source X = source A ++ cs ++ source M →
        ∃ A₁ hit' B₁, A ++ (lits cs ++ B) = A₁ ++ (lits hit' ++ B₁) ∧ hit'.map Prod.fst = old ∧
          keep (pos + (text new A₁).length) = true ∧ (source A₁).length ≤ (source X).length ∧
          (source X).length < (source A₁).length + old.length := by
      intro M hM hX
      obtain ⟨A₁, hit', B₁, rfl, hhit', hkeep, hle, hlt⟩ := ih M hM
      refine ⟨A ++ (lits cs ++ A₁), hit', B₁, by simp, hhit', ?_, ?_, ?_⟩
      · convert hkeep using 2
        simp [← hcs]
        omega
      · simp [hX]
        omega
      · simp [hX]
        omega
    rcases append_eq_append_iff.mp heq with ⟨M, rfl, hM⟩ | ⟨M, rfl, hM⟩
    · rcases (mid_eq hmid).2 with ⟨hkeep, rfl⟩ | ⟨-, rfl⟩
      · rcases append_eq_append_iff.mp hM with ⟨N, rfl, hN⟩ | ⟨N, hcsN, hN⟩
        · exact hlater N hN (by simp)
        · by_cases hempty : N = []
          · subst hempty
            refine hlater [] (by simpa using hN.symm) ?_
            have hMcs : M = lits cs := by simpa using hcsN.symm
            simp [hMcs]
          · -- it starts within the kept one
            refine ⟨A, cs, B, rfl, hcs, hkeep, by simp, ?_⟩
            obtain ⟨c, N', rfl⟩ := exists_cons_of_ne_nil hempty
            have hc : ∃ c' ∈ cs, c = .lit c' := (mem_lits cs).mp (by rw [hcsN]; simp)
            obtain ⟨c', -, rfl⟩ := hc
            have hlen := congrArg (fun ps => (source ps).length) hcsN
            simp only [source_lits, source_append, length_append] at hlen
            have hone : (source (.lit c' :: N')).length = 1 + (source N').length := by
              simp [source, Piece.source, Nat.add_comm]
            rw [source_append, length_append, ← hcs, length_map]
            omega
      · cases M with
        | nil =>
          obtain ⟨c, hit', rfl⟩ := exists_cons_of_ne_nil hne
          cases hM
        | cons m M =>
          obtain ⟨rfl, hrest⟩ := cons.inj hM
          exact hlater M hrest (by simp)
    · cases M with
      | nil =>
        rcases (mid_eq hmid).2 with ⟨hkeep, rfl⟩ | ⟨-, rfl⟩
        · refine ⟨X, cs, B, by simp, hcs, by simpa using hkeep, le_rfl, ?_⟩
          have := length_pos_iff.mpr hold
          omega
        · obtain ⟨c, hit', rfl⟩ := exists_cons_of_ne_nil hne
          cases hM
      | cons m M =>
        -- an occurrence that starts before would have been found first
        have hlit : ∃ c, m = .lit c := by
          obtain ⟨c, hit', rfl⟩ := exists_cons_of_ne_nil hne
          exact ⟨c, (cons.inj hM).1.symm⟩
        obtain ⟨c, rfl⟩ := hlit
        have hpre : old <+: text new (.lit c :: M) ++ old := prefix_of_mid hhit hcs hmid hM
        refine absurd ?_ (hfirst (text new X).length (by simp [text, cells, Piece.cells]))
        rwa [text_append, append_assoc, drop_left]

end Step

variable [DecidableEq α] (h : Sweep new old i keep pos ps ps')
include h

-- What is written is what the substitution writes.
theorem Sweep.substFrom_eq (hold : old ≠ []) (w : Nat → List (Cell α))
    (hw : ∀ A hit B, ps = A ++ (lits hit ++ B) → hit.map Prod.fst = old → w (pos + (text new A).length)
      = cells new (if keep (pos + (text new A).length) then lits hit else [.swap hit i])) :
    substFrom Prod.fst old w pos 0 (cells new ps) = cells new ps' := by
  induction h with
  | done hnone => exact substFrom_of_absent _ _ hnone
  | @turn pos A B B' mid hit hhit hfirst hmid _ ih =>
    have hrest := ih fun A' hit' B₁ hB hhit' => by
      have := hw (A ++ (lits hit ++ A')) hit' B₁ (by simp [hB]) hhit'
      have hlen : pos + (text new (A ++ (lits hit ++ A'))).length
          = pos + (text new A).length + old.length + (text new A').length := by
        simp [← hhit]
        omega
      rwa [hlen] at this
    have hshown : (cells new (lits hit)).map Prod.fst = old := hhit ▸ text_lits hit
    rw [cells_append, cells_append, ← append_assoc, substFrom_first pos _ _ _ hold hshown hfirst, length_cells,
      hrest, hw A hit B rfl hhit, ← hmid]
    simp

omit h in
theorem Sweep.splice_eq (h : Sweep new old i keep 0 ps ps') (hold : old ≠ []) :
    splice old (new i) keep (cells new ps) = cells new ps' := by
  refine h.substFrom_eq hold _ fun A hit B hps hhit => ?_
  have hshown : (original hit).map Prod.fst = old := by simpa [original, Function.comp_def] using hhit
  rw [Nat.zero_add, hps, cells_append, cells_append, cells_lits, ← length_cells A, take_hit hshown]
  split_ifs
  · exact (cells_lits hit).symm
  · simp [cells, Piece.cells]

theorem Sweep.found (hold : old ≠ []) (hf : f ∈ startsFrom old pos 0 (text new ps)) :
    ∃ A hit B, ps = A ++ (lits hit ++ B) ∧ hit.map Prod.fst = old ∧ f = pos + (text new A).length ∧
      (keep f = false → .swap hit i ∈ ps') := by
  induction h with
  | done hnone =>
    rw [startsFrom_of_absent _ _ hnone] at hf
    cases hf
  | @turn pos A B B' mid hit hhit hfirst hmid _ ih =>
    rw [text_append, text_append, text_lits, hhit, ← append_assoc, startsFrom_first _ _ _ hold hfirst] at hf
    rcases mem_cons.mp hf with rfl | hf
    · exact ⟨A, hit, B, rfl, hhit, rfl, fun hkeep => by simp [hmid, hkeep]⟩
    · obtain ⟨A', hit', B₁, rfl, hhit', rfl, hswap⟩ := ih hf
      refine ⟨A ++ (lits hit ++ A'), hit', B₁, by simp, hhit', ?_, fun hkeep => by simp [hswap hkeep]⟩
      simp [← hhit]
      omega

end Sweep

end Chainloop.Text
