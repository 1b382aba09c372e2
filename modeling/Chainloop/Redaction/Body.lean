import Chainloop.Redaction.Leaf
import Chainloop.Text.Pieces

namespace Chainloop.Redaction

open Go Json Text Option Nat

variable {w : Rewriter} {path : Chars}

-- What the loop of replaceOutsideAllowedLines writes for an occurrence.
def choice (keep : Nat → Bool) (old q : Chars) (start : Nat) : Chars := if keep start then old else q

theorem substFrom_of_all_kept (hold : old ≠ []) (keep : Nat → Bool) (pos : Nat) (b : Chars)
    (h : ((startsFrom old pos 0 b).filter fun start => !keep start) = []) :
    substFrom id old (choice keep old q) pos 0 b = b := by
  induction pos, b using subst_induct id hold with
  | done pos b hnone => exact substFrom_of_absent pos b hnone
  | turn pos gap hit rest hhit hfirst ih =>
    rw [List.map_id] at hhit hfirst
    subst hhit
    rw [startsFrom_first pos gap rest hold hfirst, List.filter_cons] at h
    have hkeep : keep (pos + gap.length) = true := by
      by_contra hno
      have hfalse : keep (pos + gap.length) = false := by simpa using hno
      simp [hfalse] at h
    rw [hkeep] at h
    rw [substFrom_first pos gap hit rest hold (List.map_id _) (by simpa using hfirst),
      ih (by simpa using h), choice, if_pos hkeep]

variable {sr : SecretRule}

theorem substitute_of_none (w : Rewriter) (marked : Bool) (b : Chars) (hne : sr.secret ≠ [])
    (h : (w.substitute marked sr b).2.1 = 0) : (w.substitute marked sr b).1 = b := by
  cases marked with
  | false => exact replaceAll_of_absent _ ((count_eq_zero_iff hne b).mp h)
  | true => exact substFrom_of_all_kept hne (keeps b sr.secret) 0 b (List.length_eq_zero_iff.mp h)

theorem replaced_of_count (h : count sr.secret b = 0) :
    (w.substitute marked sr b).2.1 = 0 := by
  cases marked with
  | false => exact h
  | true =>
    have hstarts : startsFrom sr.secret 0 0 b = [] := List.length_eq_zero_iff.mp h
    simp [Rewriter.substitute, replaceOutsideAllowedLines, hstarts]

theorem substitute_of_count (hne : sr.secret ≠ []) (h : count sr.secret b = 0) :
    (w.substitute marked sr b).1 = b :=
  substitute_of_none w marked b hne (replaced_of_count h)

def Rewriter.bodyAfter (w : Rewriter) (marked : Bool) (secrets : List SecretRule) (body : Chars) : Chars :=
  secrets.foldl (fun b sr => (w.substitute marked sr b).1) body

-- The same substitutions on cells that carry where they come from.
def Rewriter.spliceSecret (w : Rewriter) (marked : Bool) (cs : List (Cell Char)) (sr : SecretRule) :
    List (Cell Char) :=
  splice sr.secret (encodeStringBody (w.placeholder sr.ruleID))
    (fun start => marked && keeps (cs.map Prod.fst) sr.secret start) cs

def Rewriter.cellsAfter (w : Rewriter) (marked : Bool) (secrets : List SecretRule) (cs : List (Cell Char)) :
    List (Cell Char) := secrets.foldl (w.spliceSecret marked) cs

theorem map_fst_spliceSecret (hne : sr.secret ≠ []) (marked : Bool) (cs : List (Cell Char)) :
    (w.spliceSecret marked cs sr).map Prod.fst = (w.substitute marked sr (cs.map Prod.fst)).1 := by
  rw [Rewriter.spliceSecret, map_fst_splice hne]
  cases marked with
  | false => rfl
  | true => rfl

theorem map_fst_cellsAfter (marked : Bool) (hne : ∀ sr ∈ secrets, sr.secret ≠ []) (cs : List (Cell Char)) :
    (w.cellsAfter marked secrets cs).map Prod.fst = w.bodyAfter marked secrets (cs.map Prod.fst) := by
  induction secrets generalizing cs with
  | nil => rfl
  | cons sr secrets ih =>
    obtain ⟨hsr, hrest⟩ := List.forall_mem_cons.mp hne
    rw [Rewriter.cellsAfter, Rewriter.bodyAfter, List.foldl_cons, List.foldl_cons, ← map_fst_spliceSecret hsr]
    exact ih hrest _

-- One turn of the loop over the secrets: the secret does not occur, the leaf turns
-- out protected, or the secret is substituted.
theorem redactSecrets_cons (marked : Bool) (path : Chars) (sr : SecretRule) (rest : List SecretRule)
    (p : Progress) (t : Tally) :
    (count sr.secret p.body = 0 ∧
      w.redactSecrets marked path (sr :: rest) p t = w.redactSecrets marked path rest p t) ∨
    (p.eligible = false ∧ w.pathFilter path = false ∧ ∃ t', t'.count = t.count ∧ t'.located = t.located ∧
      w.redactSecrets marked path (sr :: rest) p t = (none, t')) ∨
    ∃ p' t', w.redactSecrets marked path (sr :: rest) p t = w.redactSecrets marked path rest p' t' ∧
      p'.body = (w.substitute marked sr p.body).1 ∧ p'.eligible = true ∧ t'.count = t.count ∧
      ((w.substitute marked sr p.body).2.1 = 0 ∧ p'.n = p.n ∧ p'.lastRule = p.lastRule ∧
          t'.located = t.located ∨
        (w.substitute marked sr p.body).2.1 ≠ 0 ∧ p.n < p'.n ∧ p'.lastRule = sr.ruleID) := by
  rw [Rewriter.redactSecrets]
  by_cases hcount : count sr.secret p.body = 0
  · rw [if_pos hcount]
    exact .inl ⟨hcount, rfl⟩
  · rw [if_neg hcount]
    right
    by_cases hprotected : (!p.eligible && !w.pathFilter path) = true
    · left
      rw [if_pos hprotected]
      simp only [Bool.and_eq_true, Bool.not_eq_true'] at hprotected
      refine ⟨hprotected.1, hprotected.2, _, ?_, ?_, rfl⟩
      · rfl
      · rfl
    · right
      rw [if_neg hprotected]
      generalize w.substitute marked sr p.body = done
      obtain ⟨body, replaced, kept⟩ := done
      simp only
      have htally : ∀ t' : Tally, t' = (if 0 < kept then
          { t with allowed := bump t.allowed sr.ruleID kept, kept := t.kept.insert sr.secret } else t) →
          t'.count = t.count ∧ t'.located = t.located := by
        rintro t' rfl
        split
        · exact ⟨rfl, rfl⟩
        · exact ⟨rfl, rfl⟩
      obtain ⟨hc, hl⟩ := htally _ rfl
      by_cases hzero : replaced = 0
      · rw [if_pos hzero]
        exact ⟨_, _, rfl, rfl, rfl, hc, .inl ⟨hzero, rfl, rfl, hl⟩⟩
      · rw [if_neg hzero]
        exact ⟨_, _, rfl, rfl, rfl, hc, .inr ⟨hzero, by simp only; omega, rfl⟩⟩

-- The rule of the last secret of which an occurrence was replaced.
def Rewriter.LastReplaced (w : Rewriter) (marked : Bool) (secrets : List SecretRule) (body rule : Chars) : Prop :=
  ∃ before sr rest, secrets = before ++ sr :: rest ∧ rule = sr.ruleID ∧
    (w.substitute marked sr (w.bodyAfter marked before body)).2.1 ≠ 0

theorem redactSecrets_eligible (marked : Bool) (hpath : w.pathFilter path = true)
    (hne : ∀ sr ∈ secrets, sr.secret ≠ []) (p : Progress) (t : Tally) :
    ∃ p', (w.redactSecrets marked path secrets p t).1 = some p' ∧
      p'.body = w.bodyAfter marked secrets p.body ∧ p.n ≤ p'.n ∧
      (p'.n = p.n → p'.body = p.body) ∧
      (p'.n = p.n ∧ p'.lastRule = p.lastRule ∨ w.LastReplaced marked secrets p.body p'.lastRule) := by
  induction secrets generalizing p t with
  | nil => exact ⟨p, rfl, rfl, le_refl _, fun _ => rfl, .inl ⟨rfl, rfl⟩⟩
  | cons sr rest ih =>
    have hsecret := hne sr (by simp)
    have htail : ∀ sr' ∈ rest, sr'.secret ≠ [] := fun sr' h => hne sr' (by simp [h])
    have hafter : w.bodyAfter marked (sr :: rest) p.body
        = w.bodyAfter marked rest (w.substitute marked sr p.body).1 := rfl
    have hlater {rule : Chars} : w.LastReplaced marked rest (w.substitute marked sr p.body).1 rule →
        w.LastReplaced marked (sr :: rest) p.body rule :=
      fun ⟨before, sr', rest', hsplit, h⟩ => ⟨sr :: before, sr', rest', by rw [hsplit]; rfl, h⟩
    rw [hafter]
    rcases redactSecrets_cons (w := w) marked path sr rest p t with
      ⟨hcount, hrun⟩ | ⟨-, hno, -⟩ | ⟨p1, t1, hrun, hbody1, -, -, hcases⟩
    · have hsame : (w.substitute marked sr p.body).1 = p.body := substitute_of_count hsecret hcount
      rw [hsame] at hlater
      rw [hrun, hsame]
      obtain ⟨p', hp, hbody, hle, hkeep, hrule⟩ := ih htail p t
      exact ⟨p', hp, hbody, hle, hkeep, hrule.imp id hlater⟩
    · rw [hpath] at hno
      cases hno
    · rw [← hbody1] at hlater
      rw [hrun, ← hbody1]
      obtain ⟨p', hp, hbody, hle, hsame, hrule⟩ := ih htail p1 t1
      rcases hcases with ⟨hzero, hn, hlast, -⟩ | ⟨hreplaced, hlt, hlast⟩
      · have hbody0 : p1.body = p.body := hbody1.trans (substitute_of_none w marked p.body hsecret hzero)
        refine ⟨p', hp, hbody, by omega, fun h => (hsame (by omega)).trans hbody0, ?_⟩
        exact hrule.imp (fun ⟨h, h'⟩ => ⟨by omega, h'.trans hlast⟩) hlater
      · refine ⟨p', hp, hbody, by omega, fun h => by omega, .inr ?_⟩
        rcases hrule with ⟨-, h⟩ | h
        · exact ⟨[], sr, rest, rfl, h.trans hlast, hreplaced⟩
        · exact hlater h

theorem redactSecrets_tally (marked : Bool) (path : Chars) (secrets : List SecretRule) (p : Progress)
    (t : Tally) :
    (w.redactSecrets marked path secrets p t).2.count = t.count ∧
    (∀ p', (w.redactSecrets marked path secrets p t).1 = some p' →
      p.n ≤ p'.n ∧ (p'.n = p.n → (w.redactSecrets marked path secrets p t).2.located = t.located)) ∧
    ((w.redactSecrets marked path secrets p t).1 = none →
      p.eligible = false ∧ (w.redactSecrets marked path secrets p t).2.located = t.located) := by
  induction secrets generalizing p t with
  | nil =>
    refine ⟨rfl, fun p' hp => ?_, fun h => (nomatch h)⟩
    cases hp
    exact ⟨le_refl _, fun _ => rfl⟩
  | cons sr rest ih =>
    rcases redactSecrets_cons (w := w) marked path sr rest p t with
      ⟨-, hrun⟩ | ⟨helig, -, t', hc, hl, hrun⟩ | ⟨p1, t1, hrun, -, helig, hc, hcases⟩
    · rw [hrun]
      exact ih p t
    · rw [hrun]
      exact ⟨hc, fun p' hp => (nomatch hp), fun _ => ⟨helig, hl⟩⟩
    · rw [hrun]
      obtain ⟨hc', hsome, hnone⟩ := ih p1 t1
      refine ⟨hc'.trans hc, fun p' hp => ?_, fun h => ?_⟩
      · obtain ⟨hle, hsame⟩ := hsome p' hp
        rcases hcases with ⟨-, hn, -, hl⟩ | ⟨-, hlt, -⟩
        · exact ⟨by omega, fun h => (hsame (by omega)).trans hl⟩
        · exact ⟨by omega, fun h => by omega⟩
      · -- once the leaf is known to be eligible, it cannot turn out protected
        rw [(hnone h).1] at helig
        cases helig

def Rewriter.finalBody (w : Rewriter) (s : Chars) : Chars :=
  w.bodyAfter (w.marked (encodeStringBody s)) w.secrets (encodeStringBody s)

theorem redactLeaf_eligible (hpath : w.pathFilter path = true) (hne : ∀ sr ∈ w.secrets, sr.secret ≠ [])
    (s : Chars) (t : Tally) :
    (∀ out, decodeStringBody (w.finalBody s) = some out → (w.redactLeaf s path t).1 = out) ∧
    (decodeStringBody (w.finalBody s) = none → ∃ rule, (w.redactLeaf s path t).1 = w.placeholder rule ∧
      w.LastReplaced (w.marked (encodeStringBody s)) w.secrets (encodeStringBody s) rule) := by
  obtain ⟨p, hp, hbody, -, hsame, hrule⟩ := redactSecrets_eligible (w.marked (encodeStringBody s)) hpath hne
    ⟨encodeStringBody s, 0, false, []⟩ t
  have hleaf : (w.redactLeaf s path t).1
      = if p.n = 0 then s else (decodeStringBody p.body).getD (w.placeholder p.lastRule) := by
    simp only [Rewriter.redactLeaf]
    revert hp
    generalize w.redactSecrets (w.marked (encodeStringBody s)) path w.secrets
      ⟨encodeStringBody s, 0, false, []⟩ t = run
    obtain ⟨leaf, t'⟩ := run
    rintro rfl
    by_cases hn : p.n = 0 <;> simp [hn]
  rw [show w.finalBody s = p.body from hbody.symm, hleaf]
  by_cases hn : p.n = 0
  · rw [hsame hn, decode_encode, if_pos hn]
    exact ⟨fun out h => some.inj h, fun h => nomatch h⟩
  · rw [if_neg hn]
    refine ⟨fun out h => by rw [h, getD_some], fun h => ?_⟩
    rw [h, getD_none]
    exact ⟨p.lastRule, rfl, hrule.resolve_left fun h => hn h.1⟩

theorem redactLeaf_tally (s path : Chars) (t : Tally) : t.count ≤ (w.redactLeaf s path t).2.count ∧
      ((w.redactLeaf s path t).2.count = t.count →
        (w.redactLeaf s path t).1 = s ∧ (w.redactLeaf s path t).2.located = t.located) := by
  obtain ⟨hc, hsome, hnone⟩ := redactSecrets_tally (w := w) (w.marked (encodeStringBody s)) path w.secrets
    ⟨encodeStringBody s, 0, false, []⟩ t
  simp only [Rewriter.redactLeaf]
  generalize w.redactSecrets (w.marked (encodeStringBody s)) path w.secrets
    ⟨encodeStringBody s, 0, false, []⟩ t = run at hc hsome hnone ⊢
  obtain ⟨leaf, t'⟩ := run
  cases leaf with
  | none => exact ⟨le_of_eq hc.symm, fun _ => ⟨rfl, (hnone rfl).2⟩⟩
  | some p =>
    obtain ⟨-, hsame⟩ := hsome p rfl
    simp only at hc hsame ⊢
    split_ifs with hn
    · exact ⟨le_of_eq hc.symm, fun _ => ⟨rfl, hsame hn⟩⟩
    · simp only
      exact ⟨by omega, fun h => by omega⟩

end Chainloop.Redaction
