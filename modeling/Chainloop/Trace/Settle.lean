import Chainloop.Trace.Hooks

namespace Chainloop.Trace

open Go
open List hiding count

namespace LineCounts

theorem count_takeAll (c : LineCounts) (fps : List String) (fp : String) :
    count (takeAll c fps) fp = count c fp - fps.count fp := by
  induction fps generalizing c with
  | nil => simp [takeAll]
  | cons x rest ih =>
    have hfold : takeAll c (x :: rest) = takeAll (take c x).2 rest := rfl
    rw [hfold, ih, count_take, count_cons]
    by_cases hx : fp = x
    · subst hx
      simp
      omega
    · simp [hx, Ne.symm hx]

theorem count_takeLines (c : LineCounts) (fps : List String) (fp : String) :
    (takeLines c fps).1.count fp = min (count c fp) (fps.count fp) ∧
      count (takeLines c fps).2.2 fp = count c fp - fps.count fp := by
  induction fps generalizing c with
  | nil => simp [takeLines]
  | cons x rest ih =>
    obtain ⟨htaken, hleft⟩ := ih (take c x).2
    rw [count_take] at htaken hleft
    simp only [takeLines, take_fst, decide_eq_true_eq]
    by_cases hx : fp = x
    · subst hx
      rw [if_pos rfl] at htaken hleft
      split_ifs
      · simp only [count_cons_self, htaken, hleft]
        omega
      · simp only [count_cons_self, htaken, hleft]
        omega
    · rw [if_neg hx] at htaken hleft
      split_ifs <;> simp [htaken, hleft, Ne.symm hx]

theorem count_missing (c present : LineCounts) (fp : String) :
    (missing c present).count fp = count c fp - count present fp := by
  have hall (l : List (String × Nat)) : (l.map Prod.fst).Nodup →
      (l.flatMap fun e => replicate (e.2 - count present e.1) e.1).count fp =
        (l.lookup fp).getD 0 - count present fp := by
    intro hl
    induction l with
    | nil => simp
    | cons e l ih =>
      obtain ⟨hfresh, hl⟩ := nodup_cons.mp hl
      rw [flatMap_cons, count_append, count_replicate, ih hl, lookup_cons]
      by_cases he : fp = e.1
      · subst he
        have hnone : l.lookup e.1 = none := lookup_eq_none_iff.mpr fun e' he' => by
          simpa using fun heq => hfresh (mem_map.mpr ⟨e', he', heq.symm⟩)
        simp [hnone]
      · simp [beq_false_of_ne he, Ne.symm he]
  rw [missing, (perm_insertionSort _ _).count_eq]
  exact hall c.entries c.nodup

end LineCounts

open LineCounts

-- The added lines that a commit leaves open in a file that it does not hold as the worktree.
def leftOpen (o : OpenLines) (committed : LineSet) (worktree : List String) : LineCounts :=
  takeAll o.added (settleCommit (some o) committed worktree false).added

theorem count_leftOpen (o : OpenLines) (committed : LineSet) (worktree : List String) (fp : String) :
    count (leftOpen o committed worktree) fp =
      min (count o.added fp - committed.added.count fp) (worktree.count fp) := by
  obtain ⟨htaken, hleft⟩ := count_takeLines o.added committed.added fp
  have hmissing := count_missing (takeLines o.added committed.added).2.2 (add .empty worktree) fp
  rw [hleft, count_add, count_empty] at hmissing
  have hset : (settleCommit (some o) committed worktree false).added.count fp =
      min (count o.added fp) (committed.added.count fp) +
        (count o.added fp - committed.added.count fp - (0 + worktree.count fp)) := by
    rw [← htaken, ← hmissing, ← count_append]
    rfl
  rw [leftOpen, count_takeAll, hset]
  omega

-- The committed copies are in the worktree too, and the copies left open are compared with
-- all of it. So no copy is left without a line of its own exactly if the worktree holds as
-- many copies of each committed line as were open.
theorem no_phantom_copies_iff (o : OpenLines) (committed : LineSet) (worktree : List String)
    (hheld : ∀ fp, committed.added.count fp ≤ worktree.count fp) :
    (∀ fp, count (leftOpen o committed worktree) fp ≤ worktree.count fp - committed.added.count fp) ↔
      ∀ fp ∈ committed.added, count o.added fp ≤ worktree.count fp := by
  simp only [count_leftOpen]
  constructor
  · intro h fp hfp
    have hleft := h fp
    have hcommitted := count_pos_iff.mpr hfp
    have := hheld fp
    omega
  · intro h fp
    have := hheld fp
    by_cases hfp : fp ∈ committed.added
    · have := h fp hfp
      omega
    · rw [count_eq_zero_of_not_mem hfp]
      omega

def twoCopies : OpenLines := ⟨add .empty ["x", "x"], .empty⟩

theorem both_copies_accounted_for :
    (∀ fp, count (leftOpen twoCopies ⟨["x"], []⟩ ["x", "x"]) fp ≤ ["x", "x"].count fp - ["x"].count fp) ↔
      ∀ fp ∈ ["x"], count twoCopies.added fp ≤ ["x", "x"].count fp :=
  no_phantom_copies_iff twoCopies ⟨["x"], []⟩ ["x", "x"] fun fp => by
    simp only [count_cons]
    omega

-- One of two copies is committed and the other is deleted. It stays open.
theorem deleted_copy_stays_open : (∀ fp, ["x"].count fp ≤ ["x", "y"].count fp) ∧
      count (leftOpen twoCopies ⟨["x"], []⟩ ["x", "y"]) "x" = 1 ∧ ["x", "y"].count "x" - ["x"].count "x" = 0 := by
  refine ⟨fun fp => ?_, by decide +kernel, by decide⟩
  simp only [count_cons]
  omega

end Chainloop.Trace
