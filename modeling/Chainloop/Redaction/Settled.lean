import Chainloop.Redaction.Loop
import Chainloop.Redaction.Stage

namespace Chainloop.Redaction

open Go Json Text Option Bool

theorem lex_substFrom (hold : old ≠ []) (heven : escaped false old = false)
    (hbreaks : breaksFirst (encodeStringBody p) = true) (keep : Nat → Bool) (pos : Nat) (b : Chars)
    (hst : st ≠ .esc) (h : (lex st b).isSome) :
    (lex st (substFrom id old (choice keep old (encodeStringBody p)) pos 0 b)).isSome := by
  induction pos, b using subst_induct id hold generalizing st with
  | done pos b hnone =>
    rw [substFrom_of_absent pos b hnone]
    exact h
  | turn pos gap hit rest hhit hfirst ih =>
    rw [List.map_id] at hhit hfirst
    subst hhit
    rw [substFrom_first pos gap hit rest hold (List.map_id _) (by simpa using hfirst)]
    -- the occurrence does not end inside an escape
    rw [lex_append, isSome_bind, any_eq_true] at h
    obtain ⟨st1, hst1, hrest⟩ := h
    have hne : st1 ≠ .esc := by
      intro hesc
      have := (lex_esc_iff hst1).mp hesc
      rw [beq_eq_false_iff_ne.mpr hst, escaped_gap_append hfirst heven] at this
      cases this
    by_cases hkeep : keep (pos + gap.length) = true
    · rw [choice, if_pos hkeep, lex_append_some _ hst1]
      exact ih hne hrest
    · rw [lex_append, bind_eq_some_iff] at hst1
      obtain ⟨st2, hst2, -⟩ := hst1
      obtain ⟨c, tl, hq, hc⟩ := exists_of_breaksFirst hbreaks
      have hplain : lex st2 (encodeStringBody p) = some .plain := by
        rw [hq, lex_of_breaksEscape hc, ← hq, lex_encode]
      rw [choice, if_neg hkeep, List.append_assoc, lex_append_some _ hst2, lex_append_some _ hplain]
      exact ih (by simp) (lex_plain_of_lex hne hrest)

theorem lex_substitute (w : Rewriter) (marked : Bool) {sr : SecretRule} {b : Chars} (hne : sr.secret ≠ [])
    (heven : escaped false sr.secret = false)
    (hbreaks : breaksFirst (encodeStringBody (w.placeholder sr.ruleID)) = true)
    (h : (lex .plain b).isSome) : (lex .plain (w.substitute marked sr b).1).isSome := by
  rw [(substitute_eq w marked sr b).1]
  exact lex_substFrom hne heven hbreaks _ 0 b (by simp) h

theorem bodyAfter_of_absent {w : Rewriter} (hne : ∀ sr ∈ secrets, sr.secret ≠ [])
    (h : ∀ sr ∈ secrets, ¬ sr.secret <:+: b) : w.bodyAfter marked secrets b = b := by
  induction secrets with
  | nil => rfl
  | cons sr secrets ih =>
    obtain ⟨hsr, hrest⟩ := List.forall_mem_cons.mp hne
    obtain ⟨habsent, hlater⟩ := List.forall_mem_cons.mp h
    have hsame : (w.substitute marked sr b).1 = b := substitute_of_count hsr ((count_eq_zero_iff hsr b).mpr habsent)
    rw [Rewriter.bodyAfter, List.foldl_cons, hsame]
    exact ih hrest hlater

section Leaf

variable {r : Redactor} {P : SecretRule → Prop} {b : Chars} {done : Chars → Prop} {ps : Pieces}

-- A placeholder that was put in is no part of such a text.
theorem Original.absent (h : Original r.shown d ps) (hd : d ≠ []) (hswap : .swap t sr ∈ ps) :
    ¬ d <:+: r.shown sr := by
  rintro ⟨x, y, hq⟩
  obtain ⟨A, B, rfl⟩ := List.append_of_mem hswap
  have hocc : d <+: (text r.shown (A ++ .swap t sr :: B)).drop ((text r.shown A).length + x.length) := by
    rw [text_append, text_swap, ← hq, List.drop_length_add_append, List.append_assoc, List.append_assoc, List.drop_left]
    exact List.prefix_append _ _
  obtain ⟨c, d, rfl⟩ := List.exists_cons_of_ne_nil hd
  have hlen := hocc.length_le
  rw [List.length_drop, List.length_cons] at hlen
  have hcell : (c, none) ∈ ((cells r.shown (A ++ .swap t sr :: B)).drop
      ((text r.shown A).length + x.length)).take (c :: d).length := by
    rw [cells_append, ← length_cells, List.drop_length_add_append]
    have hfront : cells r.shown (.swap t sr :: B)
        = x.map (·, none) ++ (c, none) :: (d.map (·, none) ++ y.map (·, none) ++ cells r.shown B) := by
      simp [cells, Piece.cells, ← hq]
    rw [hfront, List.drop_left' (by simp)]
    simp
  exact absurd (h _ (by omega) hocc _ hcell) (by simp)

theorem stage_lits (r : Redactor) (P : SecretRule → Prop) (b : Chars) : r.Stage P b (fun _ => False) (lits b.zipIdx) := by
  have hlits : ∀ (cs : List (Char × Nat)) (st : Bool), aligned st (lits cs) := by
    intro cs
    induction cs with
    | nil => exact fun _ => trivial
    | cons c cs ih => exact fun st => ih _
  refine ⟨⟨by simp, fun t sr ht => ?_⟩, hlits _ _, fun _ span _ c hc _ _ => by simp [mem_lits, hc], ?_⟩
  · obtain ⟨c, -, hc⟩ := (mem_lits _).mp ht
    cases hc
  · exact fun _ _ _ _ _ hno => hno.elim

variable (hcalm : r.Calm P b) (hbreaks : ∀ sr, P sr → breaksFirst (r.shown sr) = true)
include hcalm hbreaks

theorem Redactor.Stage.marked_iff (hst : r.Stage P b done ps) (secrets : List SecretRule) :
    (r.rewriter secrets).marked (text r.shown ps) = true ↔ r.allowMarkers = true ∧ ∃ span, AllowedLine b span := by
  rw [Rewriter.marked, and_eq_true]
  refine and_congr_right fun hallow => ⟨fun h => ?_, fun ⟨span, hline⟩ => ?_⟩
  · obtain ⟨sig, hsig, x, y, heq⟩ := (hasAllowMarker_iff _).mp h
    have hne : ∀ sig ∈ allowSignatures, sig ≠ [] := by decide
    have hocc : sig <+: (text r.shown ps).drop x.length := by
      rw [← heq, List.append_assoc, List.drop_left]
      exact List.prefix_append _ _
    obtain ⟨X, hit, Y, hX, hhit, -⟩ := (hcalm.markers hallow ps hst.rewriting sig hsig).block (hne sig hsig)
      hst.rewriting hbreaks hocc
    have hmark : sig <+: b.drop (source X).length := by
      rw [← hhit]
      exact (hX ▸ hst.rewriting).occurs
    obtain ⟨span, hline, -⟩ := exists_line_of_marker hsig hmark
    exact ⟨span, hline⟩
  · obtain ⟨X, R, s, e, -, -, -, hlineW⟩ := hst.shown_line hbreaks hallow hline
    obtain ⟨sig, hsig, m, -, -, hpre⟩ := hlineW.marked
    exact (hasAllowMarker_iff _).mpr ⟨sig, hsig, hpre.isInfix.trans (List.drop_suffix m _).isInfix⟩

-- The secrets of a pass are substituted one after another.
theorem Redactor.Stage.bodyAfter (hst : r.Stage P b done ps) {todo : List SecretRule}
    (htodo : ∀ sr ∈ todo, P sr ∧ sr.secret ≠ [] ∧ escaped false sr.secret = false)
    (hmarked : marked = true ↔ r.allowMarkers = true ∧ ∃ span, AllowedLine b span) (secrets : List SecretRule)
    (hlex : (lex .plain (text r.shown ps)).isSome) :
    ∃ ps', r.Stage P b (fun d => done d ∨ d ∈ todo.map SecretRule.secret) ps' ∧
      cells r.shown ps' = (r.rewriter secrets).cellsAfter marked todo (cells r.shown ps) ∧
      (lex .plain (text r.shown ps')).isSome := by
  induction todo generalizing ps done with
  | nil => exact ⟨ps, by simpa using hst, rfl, hlex⟩
  | cons sr todo ih =>
    obtain ⟨⟨hP, hne, heven⟩, htail⟩ := List.forall_mem_cons.mp htodo
    obtain ⟨ps1, hst1, hcells, -⟩ := hst.step hcalm hbreaks hP hne heven hmarked secrets
    obtain ⟨ps', hst', hcells', hlex'⟩ := ih hst1 htail (by
      rw [text, hcells, map_fst_spliceSecret hne]
      exact lex_substitute _ marked hne heven (hbreaks sr hP) hlex)
    have hdone : ∀ d, (done d ∨ d = sr.secret) ∨ d ∈ todo.map SecretRule.secret ↔
        done d ∨ d ∈ (sr :: todo).map SecretRule.secret := fun d => by
      rw [List.map_cons, List.mem_cons]
      tauto
    refine ⟨ps', ?_, by rw [hcells', hcells]; rfl, hlex'⟩
    simpa only [hdone] using hst'

end Leaf

-- What a leaf can become when occurrences of the secrets are replaced in it.
def Redactor.Rewritten (r : Redactor) (P : SecretRule → Prop) (path s s' : Chars) : Prop :=
  if r.pathFilter path then ∃ ps, Rewriting P (encodeStringBody s) ps ∧
    (encodeStringBody s' = text r.shown ps ∨ ∃ t sr, .swap t sr ∈ ps ∧ s' = r.placeholder sr.ruleID)
  else s' = s

-- The rewritten leaf after a pass, every character with where it comes from.
def Rewriter.leafCells (w : Rewriter) (path s : Chars) (cs : List (Cell Char)) : List (Cell Char) :=
  let after := w.cellsAfter (w.marked (cs.map Prod.fst)) w.secrets cs
  match decodeStringBody (after.map Prod.fst) with
  | some _ => after
  | none => (encodeStringBody (w.newLeaf path s)).map (·, none)

def Redactor.cellsOf (r : Redactor) : List (List SecretRule) → Chars → Chars → List (Cell Char) →
    List (Cell Char)
  | [], _, _, cs => cs
  | secrets :: history, path, s, cs =>
    r.cellsOf history path ((r.rewriter secrets).newLeaf path s) ((r.rewriter secrets).leafCells path s cs)

-- A leaf while it is rewritten: it shows its cells, and they are at a stage of a
-- rewriting or the whole leaf was replaced.
def Redactor.LeafStage (r : Redactor) (P : SecretRule → Prop) (done : Chars → Prop) (path s s' : Chars)
    (cs : List (Cell Char)) : Prop :=
  if r.pathFilter path then cs.map Prod.fst = encodeStringBody s' ∧
    ((∃ ps, r.Stage P (encodeStringBody s) done ps ∧ cs = cells r.shown ps) ∨
      ∃ ps t sr, Rewriting P (encodeStringBody s) ps ∧ .swap t sr ∈ ps ∧ s' = r.placeholder sr.ruleID)
  else s' = s

section Run

variable {r : Redactor} {P : SecretRule → Prop} {done : Chars → Prop}

theorem Redactor.LeafStage.rewritten (h : r.LeafStage P done path s s' cs) : r.Rewritten P path s s' := by
  unfold Redactor.LeafStage at h
  unfold Redactor.Rewritten
  split_ifs at h ⊢
  · obtain ⟨hshown, ⟨ps, hst, rfl⟩ | ⟨ps, t, sr, hrew, hswap, hs⟩⟩ := h
    · exact ⟨ps, hst.rewriting, .inl hshown.symm⟩
    · exact ⟨ps, hrew, .inr ⟨t, sr, hswap, hs⟩⟩
  · exact h

theorem Redactor.LeafStage.newLeaf (h : r.LeafStage P done path s s' cs)
    (hcalm : r.pathFilter path = true → r.Calm P (encodeStringBody s))
    (hbreaks : ∀ sr, P sr → breaksFirst (r.shown sr) = true)
    (hsecrets : ∀ sr ∈ secrets, P sr ∧ sr.secret ≠ [] ∧ escaped false sr.secret = false) :
    r.LeafStage P (fun d => done d ∨ d ∈ secrets.map SecretRule.secret) path s
      ((r.rewriter secrets).newLeaf path s') ((r.rewriter secrets).leafCells path s' cs) := by
  unfold Redactor.LeafStage at h ⊢
  split_ifs at h ⊢ with hpath
  · replace hcalm := hcalm hpath
    obtain ⟨hshown, h⟩ := h
    have hne : ∀ sr ∈ secrets, sr.secret ≠ [] := fun sr hsr => (hsecrets sr hsr).2.1
    have hafter : ((r.rewriter secrets).cellsAfter ((r.rewriter secrets).marked (cs.map Prod.fst)) secrets cs).map Prod.fst
        = (r.rewriter secrets).bodyAfter ((r.rewriter secrets).marked (cs.map Prod.fst)) secrets (cs.map Prod.fst) :=
      map_fst_cellsAfter _ hne cs
    obtain ⟨hdecodes, hwhole⟩ := redactLeaf_eligible (w := r.rewriter secrets) hpath hne s' .empty
    rw [Rewriter.finalBody, ← hshown] at hdecodes hwhole
    rw [Rewriter.leafCells]
    simp only [show (r.rewriter secrets).secrets = secrets from rfl] at hdecodes hwhole ⊢
    rw [hafter]
    rcases h with ⟨ps, hst, rfl⟩ | ⟨ps, t, sr, hrew, hswap, rfl⟩
    · have hmarked := hst.marked_iff hcalm hbreaks secrets
      have hlex : (lex .plain (text r.shown ps)).isSome := by
        rw [text, hshown, lex_encode]
        rfl
      split
      · next out hdec =>
        obtain ⟨ps', hst', hcells, hlex'⟩ := hst.bodyAfter hcalm hbreaks hsecrets hmarked secrets hlex
        have htext := (congrArg (List.map Prod.fst) hcells).trans hafter
        rw [text, htext] at hlex'
        refine ⟨?_, .inl ⟨ps', hst', hcells.symm⟩⟩
        rw [hafter, Rewriter.newLeaf, hdecodes out hdec, encode_of_decode hlex' hdec]
      · next hdec =>
        obtain ⟨rule, hleaf, before, sr, rest, hsplit, rfl, hreplaced⟩ := hwhole hdec
        have hsub : ∀ sr' ∈ before ++ sr :: rest, P sr' ∧ sr'.secret ≠ [] ∧ escaped false sr'.secret = false := by
          rwa [← hsplit]
        have hbefore : ∀ sr' ∈ before, P sr' ∧ sr'.secret ≠ [] ∧ escaped false sr'.secret = false :=
          fun sr' h => hsub sr' (by simp [h])
        obtain ⟨ps1, hst1, hcells1, -⟩ := hst.bodyAfter hcalm hbreaks hbefore hmarked secrets hlex
        obtain ⟨hP, hsr, heven⟩ := hsub sr (by simp)
        obtain ⟨ps2, hst2, -, hswap⟩ := hst1.step hcalm hbreaks hP hsr heven hmarked secrets
        have htext1 : text r.shown ps1 = (r.rewriter secrets).bodyAfter _ before (text r.shown ps) :=
          (congrArg (List.map Prod.fst) hcells1).trans (map_fst_cellsAfter _ (fun sr' h => (hbefore sr' h).2.1) _)
        rw [htext1] at hswap
        obtain ⟨t, ht⟩ := hswap hreplaced
        exact ⟨by simp [Function.comp_def], .inr ⟨ps2, t, sr, hst2.rewriting, ht, hleaf⟩⟩
    · -- the secrets are not in the placeholder, so that nothing is found in it
      have habsent : ∀ sr' ∈ secrets, ¬ sr'.secret <:+: encodeStringBody (r.placeholder sr.ruleID) := fun sr' hsr' =>
        (hcalm.apart ps hrew sr' (hsecrets sr' hsr').1).absent (hne sr' hsr') hswap
      have hsame : (r.rewriter secrets).newLeaf path (r.placeholder sr.ruleID) = r.placeholder sr.ruleID :=
        newLeaf_untouched (.inr habsent)
      refine ⟨?_, .inr ⟨ps, t, sr, hrew, hswap, hsame⟩⟩
      rw [hsame]
      split
      · rw [hafter, hshown, bodyAfter_of_absent hne habsent]
      · simp [Function.comp_def]
  · rw [h]
    have hno : r.pathFilter path = false := by simpa using hpath
    exact newLeaf_untouched (.inl hno)

end Run

end Chainloop.Redaction
