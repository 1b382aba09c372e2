import Chainloop.Json.Leaves
import Chainloop.Redaction.Body
import Chainloop.Redaction.Redact

namespace Chainloop.Redaction

open Go Json Text List Except

variable {f : Finding} {st st' : LoopState}

variable {w : Rewriter}

section Tree

def Rewriter.newLeaf (w : Rewriter) (path s : Chars) : Chars := (w.redactLeaf s path .empty).1

theorem redactSecrets_fst (marked : Bool) (path : Chars) (secrets : List SecretRule) (p : Progress)
    (t t' : Tally) :
    (w.redactSecrets marked path secrets p t).1 = (w.redactSecrets marked path secrets p t').1 := by
  induction secrets generalizing p t t' with
  | nil => rfl
  | cons sr rest ih =>
    rw [Rewriter.redactSecrets, Rewriter.redactSecrets]
    generalize w.substitute marked sr p.body = done
    split_ifs
    · exact ih p t t'
    · rfl
    · simp only
      split_ifs <;> exact ih _ _ _

theorem redactLeaf_fst (s path : Chars) (t : Tally) : (w.redactLeaf s path t).1 = w.newLeaf path s := by
  have hrun := redactSecrets_fst (w := w) (w.marked (encodeStringBody s)) path w.secrets
    ⟨encodeStringBody s, 0, false, []⟩ t .empty
  simp only [Rewriter.newLeaf, Rewriter.redactLeaf]
  revert hrun
  generalize w.redactSecrets (w.marked (encodeStringBody s)) path w.secrets
    ⟨encodeStringBody s, 0, false, []⟩ t = run
  generalize w.redactSecrets (w.marked (encodeStringBody s)) path w.secrets
    ⟨encodeStringBody s, 0, false, []⟩ .empty = run'
  obtain ⟨leaf, t⟩ := run
  obtain ⟨leaf', t'⟩ := run'
  rintro rfl
  cases leaf with
  | none => rfl
  | some p => by_cases hn : p.n = 0 <;> simp [hn]

def Rewriter.tallied (w : Rewriter) (t : Tally) (leaf : Chars × Chars) : Tally :=
  (w.redactLeaf leaf.2 leaf.1 t).2

-- The leaves are rewritten one by one, each on its own but for the tally.
mutual

theorem rewrite_eq : ∀ (v : Value) (path : Chars) (t : Tally),
    w.rewrite v path t = (mapLeaves w.newLeaf v path, (leaves v path).foldl w.tallied t)
  | .obj ms, path, t => by rw [Rewriter.rewrite, rewriteMap_eq ms path t]; rfl
  | .arr vs, path, t => by rw [Rewriter.rewrite, rewriteItems_eq vs 0 path t]; rfl
  | .str s, path, t => by rw [mapLeaves, ← redactLeaf_fst s path t]; rfl
  | .detached _, _, _ | .num _, _, _ | .bool _, _, _ | .null, _, _ => rfl

theorem rewriteMap_eq : ∀ (ms : List (Chars × Value)) (path : Chars) (t : Tally),
    w.rewriteMap ms path t = (mapMemberLeaves w.newLeaf ms path, (memberLeaves ms path).foldl w.tallied t)
  | [], _, _ => rfl
  | (k, v) :: ms, path, t => by
    simp only [Rewriter.rewriteMap, rewrite_eq v, rewriteMap_eq ms, mapMemberLeaves, memberLeaves, foldl_append]

theorem rewriteItems_eq : ∀ (vs : List Value) (i : Nat) (path : Chars) (t : Tally),
    w.rewriteItems vs i path t = (mapItemLeaves w.newLeaf vs i path, (itemLeaves vs i path).foldl w.tallied t)
  | [], _, _, _ => rfl
  | v :: vs, i, path, t => by
    simp only [Rewriter.rewriteItems, rewrite_eq v, rewriteItems_eq vs, mapItemLeaves, itemLeaves, foldl_append]

end

theorem foldl_tallied (ls : List (Chars × Chars)) (t : Tally) :
    t.count ≤ (ls.foldl w.tallied t).count ∧ ((ls.foldl w.tallied t).count = t.count →
      (∀ leaf ∈ ls, w.newLeaf leaf.1 leaf.2 = leaf.2) ∧ (ls.foldl w.tallied t).located = t.located) := by
  induction ls generalizing t with
  | nil => simp
  | cons leaf ls ih =>
    obtain ⟨hle, hsame⟩ := redactLeaf_tally (w := w) leaf.2 leaf.1 t
    obtain ⟨hle', hsame'⟩ := ih (w.tallied t leaf)
    rw [redactLeaf_fst] at hsame
    rw [foldl_cons, forall_mem_cons]
    simp only [Rewriter.tallied] at hle' hsame' ⊢
    refine ⟨by omega, fun h => ?_⟩
    obtain ⟨hleaf, hl⟩ := hsame (by omega)
    obtain ⟨hls, hl'⟩ := hsame' (by omega)
    exact ⟨⟨hleaf, hls⟩, hl'.trans hl⟩

-- A tree in which nothing is counted stays as it is, and no secret is located.
theorem rewrite_tally {v : Value} {t : Tally} (h : (w.rewrite v path t).2.count = t.count) :
    (w.rewrite v path t).1 = v ∧ (w.rewrite v path t).2.located = t.located := by
  rw [rewrite_eq] at h ⊢
  obtain ⟨hleaves, hlocated⟩ := (foldl_tallied (leaves v path) t).2 h
  exact ⟨mapLeaves_eq_self v path hleaves, hlocated⟩

end Tree

theorem wellFormed_restore_mapLeaves (f : Chars → Chars → Chars) (path : Chars) {v : Value}
    (h : WellFormed (restore v)) : WellFormed (restore (mapLeaves f v path)) := by
  induction v using Value.ind generalizing path with
  | obj ms ih =>
    rw [restore, restoreMembers_eq_map] at h
    rw [mapLeaves, restore, restoreMembers_eq_map, mapMemberLeaves_eq_map, map_map]
    cases h with
    | obj sorted each =>
      have hkeys := pairwise_map.mp sorted
      refine .obj (pairwise_map.mpr hkeys) fun m hm => ?_
      obtain ⟨m', hm', rfl⟩ := mem_map.mp hm
      exact ih m' hm' _ (each _ (mem_map_of_mem hm'))
  | arr vs ih =>
    rw [restore, restoreItems_eq_map] at h
    rw [mapLeaves, restore, restoreItems_eq_map, mapItemLeaves_eq_mapIdx]
    cases h with
    | arr each =>
      refine .arr fun v hv => ?_
      obtain ⟨v', hv', rfl⟩ := mem_map.mp hv
      obtain ⟨i, hi, rfl⟩ := mem_mapIdx.mp hv'
      exact ih _ (getElem_mem hi) _ (each _ (mem_map_of_mem (getElem_mem hi)))
  | str => exact .str _
  | detached => exact h
  | num => exact h
  | bool => exact h
  | null => exact h

section Pending

theorem escaped_trimPartialEscape (s : Chars) : escaped false (trimPartialEscape s) = false := by
  unfold trimPartialEscape
  split_ifs with hodd
  · have hesc := (escaped_false_iff s).mpr hodd
    rcases eq_nil_or_concat s with rfl | ⟨front, c, rfl⟩
    · rfl
    · rw [concat_eq_append, escaped_append] at hesc
      rw [concat_eq_append, dropLast_concat]
      cases hfront : escaped false front with
      | false => rfl
      | true => simp [hfront, escaped] at hesc
  · rw [← escaped_false_iff] at hodd
    simpa using hodd

variable {skip : List Chars} {isPlaceholder : Chars → Bool}

def Accounted (skip : List Chars) (isPlaceholder : Chars → Bool) (s : Chars) : Prop :=
  s = [] ∨ isPlaceholder s = true ∨ s ∈ skip

theorem chased_cases (skip : List Chars) (isPlaceholder : Chars → Bool) (out : List SecretRule) (f : Finding) :
    (chased skip isPlaceholder out f = out ∧ (Accounted skip isPlaceholder (trimPartialEscape f.secret) ∨
        trimPartialEscape f.secret ∈ out.map SecretRule.secret)) ∨
      trimPartialEscape f.secret ≠ [] ∧ isPlaceholder (trimPartialEscape f.secret) = false ∧
        chased skip isPlaceholder out f = out ++ [⟨trimPartialEscape f.secret, f.ruleID⟩] := by
  simp only [chased]
  split_ifs with hempty hskip hplaceholder hdup
  · exact .inl ⟨rfl, .inl (.inl (by simpa using hempty))⟩
  · exact .inl ⟨rfl, .inl (.inr (.inr (by simpa using hskip)))⟩
  · exact .inl ⟨rfl, .inl (.inr (.inl hplaceholder))⟩
  · exact .inl ⟨rfl, .inr (by simpa using hdup)⟩
  · exact .inr ⟨by simpa using hempty, by simpa using hplaceholder, rfl⟩

theorem mem_pendingSecrets {sr : SecretRule} (h : sr ∈ pendingSecrets findings skip isPlaceholder) :
    sr.secret ≠ [] ∧ isPlaceholder sr.secret = false ∧
      ∃ f ∈ findings, sr = ⟨trimPartialEscape f.secret, f.ruleID⟩ := by
  suffices hall : ∀ (findings : List Finding) (out : List SecretRule),
      sr ∈ findings.foldl (chased skip isPlaceholder) out →
        sr ∈ out ∨ sr.secret ≠ [] ∧ isPlaceholder sr.secret = false ∧
          ∃ f ∈ findings, sr = ⟨trimPartialEscape f.secret, f.ruleID⟩ by
    rw [pendingSecrets, mem_insertionSort] at h
    exact (hall findings [] h).resolve_left (by simp)
  intro findings
  induction findings with
  | nil => exact fun out hout => .inl hout
  | cons f findings ih =>
    intro out h
    rcases ih _ h with h | ⟨hne, hno, g, hg, heq⟩
    · rcases chased_cases skip isPlaceholder out f with ⟨hsame, -⟩ | ⟨hne, hno, hmore⟩
      · exact .inl (hsame ▸ h)
      · rw [hmore, mem_append, mem_singleton] at h
        exact h.imp id fun heq => ⟨by rwa [heq], by rwa [heq], f, by simp, heq⟩
    · exact .inr ⟨hne, hno, g, by simp [hg], heq⟩

theorem trimmed_pendingSecrets (findings : List Finding) :
    ∀ sr ∈ pendingSecrets findings skip isPlaceholder, sr.secret ≠ [] ∧ escaped false sr.secret = false := by
  intro sr hsr
  obtain ⟨hne, -, f, -, heq⟩ := mem_pendingSecrets hsr
  refine ⟨hne, ?_⟩
  rw [heq]
  exact escaped_trimPartialEscape f.secret

theorem foldl_chased_accounts (findings : List Finding) (out : List SecretRule) :
    out.map SecretRule.secret ⊆ (findings.foldl (chased skip isPlaceholder) out).map SecretRule.secret ∧
      ∀ f ∈ findings, Accounted skip isPlaceholder (trimPartialEscape f.secret) ∨ trimPartialEscape f.secret ∈
        (findings.foldl (chased skip isPlaceholder) out).map SecretRule.secret := by
  induction findings generalizing out with
  | nil => simp
  | cons g findings ih =>
    have hstep : out.map SecretRule.secret ⊆ (chased skip isPlaceholder out g).map SecretRule.secret ∧
        (Accounted skip isPlaceholder (trimPartialEscape g.secret) ∨
          trimPartialEscape g.secret ∈ (chased skip isPlaceholder out g).map SecretRule.secret) := by
      rcases chased_cases skip isPlaceholder out g with ⟨hsame, hg⟩ | ⟨-, -, hmore⟩
      · rw [hsame]
        exact ⟨Subset.refl _, hg⟩
      · rw [hmore]
        exact ⟨by simp, .inr (by simp)⟩
    obtain ⟨hkeeps, hall⟩ := ih (chased skip isPlaceholder out g)
    exact ⟨Subset.trans hstep.1 hkeeps, forall_mem_cons.mpr ⟨hstep.2.imp id (@hkeeps _), hall⟩⟩

theorem pendingSecrets_accounts (hf : f ∈ findings) :
    Accounted skip isPlaceholder (trimPartialEscape f.secret) ∨ trimPartialEscape f.secret ∈
        (pendingSecrets findings skip isPlaceholder).map SecretRule.secret := by
  refine ((foldl_chased_accounts findings []).2 f hf).imp id fun h => ?_
  obtain ⟨sr, hsr, heq⟩ := mem_map.mp h
  exact mem_map.mpr ⟨sr, by rwa [pendingSecrets, mem_insertionSort], heq⟩

end Pending

section Settle

theorem mem_settle (t : Tally) (state : List Chars × Map Chars Nat) (s : SecretRule) (d : Chars) :
    (d ∈ (settle t state s).1 → d ∈ state.1 ∨ d = s.secret) ∧
      (d ∈ state.1 → d ∈ (settle t state s).1) ∧
      (t.located = [] → s.secret ∈ (settle t state s).1) := by
  simp only [settle]
  split_ifs with hprotected hkept
  · refine ⟨fun h => ?_, mem_insert_of_mem, fun _ => mem_insert_self⟩
    exact (mem_insert_iff.mp h).symm
  · refine ⟨fun h => ?_, mem_insert_of_mem, fun _ => mem_insert_self⟩
    exact (mem_insert_iff.mp h).symm
  · refine ⟨.inl, id, fun hl => ?_⟩
    have hnot : t.kept.contains s.secret = false := by simpa using hkept
    rw [hl, hnot] at hprotected
    simp at hprotected

theorem mem_settle_foldl (t : Tally) (secrets : List SecretRule) (state : List Chars × Map Chars Nat)
    (d : Chars) :
    (d ∈ (secrets.foldl (settle t) state).1 → d ∈ state.1 ∨ d ∈ secrets.map SecretRule.secret) ∧
      (d ∈ state.1 → d ∈ (secrets.foldl (settle t) state).1) ∧
      (t.located = [] → d ∈ secrets.map SecretRule.secret → d ∈ (secrets.foldl (settle t) state).1) := by
  induction secrets generalizing state with
  | nil => simp
  | cons s secrets ih =>
    obtain ⟨hback, hkeep, hall⟩ := ih (settle t state s)
    obtain ⟨hback', hkeep', hself⟩ := mem_settle t state s d
    refine ⟨fun h => ?_, fun h => hkeep (hkeep' h), fun hl h => ?_⟩
    · rcases hback h with h | h
      · exact (hback' h).imp id fun heq => by simp [heq]
      · exact .inr (by simp only [map_cons, mem_cons]; exact .inr h)
    · rw [map_cons, mem_cons] at h
      rcases h with rfl | h
      · exact hkeep (hself hl)
      · exact hall hl h

end Settle

section Loop

variable {r : Redactor} {scan : Scanner}

theorem chase_converged (st : LoopState) {secrets : List SecretRule} (pass : Nat)
    (h : (r.chase pass secrets st).1 = true) :
    (r.chase pass secrets st).2.root = st.root ∧
      ∀ d ∈ secrets.map SecretRule.secret, d ∈ (r.chase pass secrets st).2.skip := by
  have hcount : ((r.rewriter secrets).rewrite st.root [] .empty).2.count = 0 := beq_iff_eq.mp h
  obtain ⟨hroot, hlocated⟩ := rewrite_tally (w := r.rewriter secrets) hcount
  refine ⟨hroot, fun d hd => ?_⟩
  exact (mem_settle_foldl _ secrets (st.skip, st.report.unlocated) d).2.2 hlocated hd

theorem chase_skip (pass : Nat) (hd : d ∈ st.skip) : d ∈ (r.chase pass secrets st).2.skip :=
  (mem_settle_foldl _ secrets (st.skip, st.report.unlocated) d).2.1 hd

theorem chase_replacements (st : LoopState) (secrets : List SecretRule) (pass : Nat) :
    st.report.replacements ≤ (r.chase pass secrets st).2.report.replacements ∧
      ((r.chase pass secrets st).2.report.replacements = st.report.replacements →
        (r.chase pass secrets st).2.root = st.root) := by
  have hreport : (r.chase pass secrets st).2.report.replacements
      = st.report.replacements + ((r.rewriter secrets).rewrite st.root [] .empty).2.count := rfl
  refine ⟨by omega, fun h => ?_⟩
  have hcount : ((r.rewriter secrets).rewrite st.root [] .empty).2.count = Tally.empty.count := by
    exact Nat.add_left_cancel h
  exact (rewrite_tally (w := r.rewriter secrets) hcount).1

-- The secrets that the passes chase, one list for each pass.
def Redactor.history (r : Redactor) (scan : Scanner) : Nat → Nat → LoopState → List (List SecretRule)
  | 0, _, _ => []
  | left + 1, n, st =>
    match r.pending scan st with
    | .error _ => []
    | .ok secrets =>
      if secrets.isEmpty then []
      else
        let (converged, st') := r.chase n secrets st
        secrets :: if converged then [] else r.history scan left (n + 1) st'

-- A pass finds nothing pending, has nothing to rewrite, or is followed by another.
theorem passes_cases (h : r.passes scan (left + 1) n st = .ok st') :
    ∃ findings secrets, scan (encode st.root true) = .ok findings ∧
      secrets = pendingSecrets findings st.skip r.isPlaceholder ∧
      ((secrets = [] ∧ st' = { st with report := { st.report with passes := n } } ∧
          r.history scan (left + 1) n st = []) ∨
        ((r.chase n secrets st).1 = true ∧ st' = (r.chase n secrets st).2 ∧
          r.history scan (left + 1) n st = [secrets]) ∨
        (r.passes scan left (n + 1) (r.chase n secrets st).2 = .ok st' ∧
          r.history scan (left + 1) n st = secrets :: r.history scan left (n + 1) (r.chase n secrets st).2)) := by
  obtain ⟨⟨converged, st1⟩, hpass, h⟩ := bind_eq_ok.mp h
  obtain ⟨secrets, hsecrets, hpass⟩ := bind_eq_ok.mp hpass
  obtain ⟨findings, hfindings, hpending⟩ := bind_eq_ok.mp (id hsecrets)
  rw [wrapErr_eq_ok] at hfindings
  refine ⟨findings, secrets, hfindings, (ok.inj hpending).symm, ?_⟩
  rw [Redactor.history, hsecrets]
  simp only
  split_ifs at hpass ⊢ with hempty hconverged
  · cases hpass
    cases h
    exact .inl ⟨isEmpty_iff.mp hempty, rfl, rfl⟩
  · obtain rfl : converged = true := (congrArg Prod.fst (ok.inj hpass)).symm.trans hconverged
    cases h
    exact .inr (.inl ⟨hconverged, (congrArg Prod.snd (ok.inj hpass)).symm, rfl⟩)
  · have hchase := ok.inj hpass
    obtain rfl : converged = false := by simpa [hchase] using hconverged
    rw [hchase]
    exact .inr (.inr ⟨h, rfl⟩)

theorem passes_accounts (h : r.passes scan left n st = .ok st')
    (hscan : scan (encode st'.root true) = .ok findings) (hf : f ∈ findings) :
    Accounted st'.skip r.isPlaceholder (trimPartialEscape f.secret) := by
  induction left generalizing n st with
  | zero => cases h
  | succ left ih =>
    obtain ⟨findings', secrets, hfindings, hsecrets, ⟨hnone, rfl, -⟩ | ⟨hconverged, rfl, -⟩ | ⟨hmore, -⟩⟩ := passes_cases h
    · rw [hfindings] at hscan
      cases hscan
      refine (pendingSecrets_accounts hf).resolve_right fun hpending => ?_
      rw [← hsecrets, hnone] at hpending
      cases hpending
    · obtain ⟨hroot, hall⟩ := chase_converged st n hconverged
      rw [hroot, hfindings] at hscan
      cases hscan
      rcases pendingSecrets_accounts hf with hacc | hpending
      · exact hacc.imp id fun h => h.imp id (chase_skip n)
      · exact .inr (.inr (hall _ (hsecrets ▸ hpending)))
    · exact ih hmore

theorem passes_replacements (h : r.passes scan left n st = .ok st') :
    st.report.replacements ≤ st'.report.replacements ∧
      (st'.report.replacements = st.report.replacements → st'.root = st.root) := by
  induction left generalizing n st with
  | zero => cases h
  | succ left ih =>
    obtain ⟨-, secrets, -, -, ⟨-, rfl, -⟩ | ⟨-, rfl, -⟩ | ⟨hmore, -⟩⟩ := passes_cases h
    · exact ⟨Nat.le_refl _, fun _ => rfl⟩
    · exact chase_replacements st secrets n
    · obtain ⟨hle, hsame⟩ := chase_replacements (r := r) st secrets n
      obtain ⟨hle', hsame'⟩ := ih hmore
      exact ⟨by omega, fun heq => (hsame' (by omega)).trans (hsame (by omega))⟩

end Loop

section Leaf

variable {w : Rewriter}

theorem redactSecrets_untouched (marked : Bool) (path : Chars) (secrets : List SecretRule) {p : Progress}
    (h : p.eligible = false ∧ w.pathFilter path = false ∨ ∀ sr ∈ secrets, ¬ sr.secret <:+: p.body)
    (t : Tally) :
    (w.redactSecrets marked path secrets p t).1 = none ∨
      (w.redactSecrets marked path secrets p t).1 = some p := by
  induction secrets generalizing t with
  | nil => exact .inr rfl
  | cons sr rest ih =>
    have htail : p.eligible = false ∧ w.pathFilter path = false ∨ ∀ sr ∈ rest, ¬ sr.secret <:+: p.body :=
      h.imp id fun habsent sr' hsr' => habsent sr' (by simp [hsr'])
    rw [Rewriter.redactSecrets]
    by_cases hcount : count sr.secret p.body = 0
    · rw [if_pos hcount]
      exact ih htail t
    · rw [if_neg hcount]
      rcases h with ⟨helig, hpath⟩ | habsent
      · rw [helig, hpath]
        exact .inl rfl
      · have hno := habsent sr (by simp)
        refine absurd ((count_eq_zero_iff ?_ _).mpr hno) hcount
        rintro hnil
        exact hno (hnil ▸ List.nil_infix)

theorem newLeaf_untouched
    (h : w.pathFilter path = false ∨ ∀ sr ∈ w.secrets, ¬ sr.secret <:+: encodeStringBody s) :
    w.newLeaf path s = s := by
  have hrun := redactSecrets_untouched (w := w) (p := ⟨encodeStringBody s, 0, false, []⟩)
    (w.marked (encodeStringBody s)) path w.secrets
    (h.imp (fun hpath => ⟨rfl, hpath⟩) id) .empty
  simp only [Rewriter.newLeaf, Rewriter.redactLeaf]
  revert hrun
  generalize w.redactSecrets (w.marked (encodeStringBody s)) path w.secrets
    ⟨encodeStringBody s, 0, false, []⟩ .empty = run
  obtain ⟨leaf, t⟩ := run
  rintro (rfl | rfl) <;> rfl

end Leaf

section Run

variable {r : Redactor} {scan : Scanner}

def Redactor.leafAfter (r : Redactor) (history : List (List SecretRule)) (path s : Chars) : Chars :=
  history.foldl (fun s secrets => (r.rewriter secrets).newLeaf path s) s

theorem leafAfter_cons (secrets : List SecretRule) (history : List (List SecretRule)) (path s : Chars) :
    r.leafAfter (secrets :: history) path s
      = r.leafAfter history path ((r.rewriter secrets).newLeaf path s) := rfl

theorem chase_root (n : Nat) (secrets : List SecretRule) (st : LoopState) :
    (r.chase n secrets st).2.root = mapLeaves (r.rewriter secrets).newLeaf st.root [] :=
  congrArg Prod.fst (rewrite_eq (w := r.rewriter secrets) st.root [] .empty)

theorem passes_root {st st' : LoopState} (h : r.passes scan left n st = .ok st') :
    st'.root = mapLeaves (r.leafAfter (r.history scan left n st)) st.root [] := by
  induction left generalizing n st with
  | zero => cases h
  | succ left ih =>
    obtain ⟨-, secrets, -, -, ⟨-, rfl, hnone⟩ | ⟨-, rfl, hlast⟩ | ⟨hrun, hmore⟩⟩ := passes_cases h
    · rw [hnone]
      exact (mapLeaves_eq_self st.root [] fun _ _ => rfl).symm
    · rw [hlast]
      exact chase_root n secrets st
    · rw [ih hrun, chase_root, mapLeaves_mapLeaves, hmore]
      rfl

theorem leafAfter_untouched (h : r.pathFilter path = false ∨
      ∀ secrets ∈ history, ∀ sr ∈ secrets, ¬ sr.secret <:+: encodeStringBody s) :
    r.leafAfter history path s = s := by
  induction history with
  | nil => rfl
  | cons secrets history ih =>
    have hone : (r.rewriter secrets).newLeaf path s = s :=
      newLeaf_untouched (h.imp id fun habsent => habsent secrets (by simp))
    rw [leafAfter_cons, hone]
    exact ih (h.imp id fun habsent secrets' hmem => habsent secrets' (by simp [hmem]))

theorem pending_ne_nil (h : r.pending scan st = .ok secrets) : ∀ sr ∈ secrets, sr.secret ≠ [] := by
  obtain ⟨findings, -, h⟩ := bind_eq_ok.mp h
  cases h
  exact fun sr hsr => (mem_pendingSecrets hsr).1

theorem history_forall {P : List SecretRule → Prop}
    (hP : ∀ st secrets, r.pending scan st = .ok secrets → P secrets) (left n : Nat) (st : LoopState) :
    ∀ secrets ∈ r.history scan left n st, P secrets := by
  induction left generalizing n st with
  | zero => simp [Redactor.history]
  | succ left ih =>
    rw [Redactor.history]
    cases hpending : r.pending scan st with
    | error e => simp
    | ok pending =>
      simp only
      split_ifs with hempty hconverged
      · simp
      · simpa using hP st pending hpending
      · intro secrets hmem
        rcases List.mem_cons.mp hmem with rfl | hmem
        · exact hP st secrets hpending
        · exact ih _ _ secrets hmem

theorem leafAfter_nil (hne : ∀ secrets ∈ history, ∀ sr ∈ secrets, sr.secret ≠ []) (path : Chars) :
    r.leafAfter history path [] = [] := by
  apply leafAfter_untouched
  right
  intro secrets hsecrets sr hsr hin
  exact hne secrets hsecrets sr hsr (List.infix_nil.mp hin)

end Run

-- The secrets that the passes of a call chase.
def Redactor.chases (r : Redactor) (scan : Scanner) (root : Value) : List (List SecretRule) :=
  r.history scan r.maxPasses 1 (r.start root)

theorem chases_ne_nil (r : Redactor) (scan : Scanner) (root : Value) :
    ∀ secrets ∈ r.chases scan root, ∀ sr ∈ secrets, sr.secret ≠ [] :=
  history_forall (fun _ _ => pending_ne_nil) r.maxPasses 1 (r.start root)

-- What a call returns: the encoding of the state in which the loop ends, with the
-- opaque leaves put back, or the document itself.
theorem redact_returns (r : Redactor) (scan : Scanner) (hscanner : r.scanner = some scan)
    (doc out : Chars) (report : Report) (h : r.redact doc = .ok (out, report)) :
    ∃ root st, decodeObject doc = .ok root ∧ r.passes scan r.maxPasses 1 (r.start root) = .ok st ∧
      report = st.report ∧ decodeObject out = .ok (restore st.root) ∧
      (report.replacements = 0 → out = doc) ∧ (report.replacements ≠ 0 → out = encode (restore st.root) false) := by
  rw [Redactor.redact, hscanner] at h
  obtain ⟨root, hroot, hrun⟩ := bind_eq_ok.mp h
  obtain ⟨st, hst, hreturn⟩ := bind_eq_ok.mp hrun
  obtain ⟨hwell, ms, rfl⟩ := wellFormed_decodeObject hroot
  split_ifs at hreturn with hzero
  · cases hreturn
    have hsame : st.root = (r.start (.obj ms)).root := (passes_replacements hst).2 hzero
    exact ⟨.obj ms, st, hroot, hst, rfl, by rw [hsame, restore_start r hwell, hroot], fun _ => rfl, fun h => absurd hzero h⟩
  · cases hreturn
    refine ⟨.obj ms, st, hroot, hst, rfl, ?_, fun h => absurd h hzero, fun _ => rfl⟩
    have hout : WellFormed (restore st.root) := by
      rw [passes_root hst]
      exact wellFormed_restore_mapLeaves _ [] (by rwa [restore_start r hwell])
    obtain ⟨ms', hms'⟩ : ∃ ms', restore st.root = .obj ms' := by
      have hkind := restore_start r hwell
      rw [passes_root hst]
      cases hv : (r.start (.obj ms)).root with
      | obj ms' => exact ⟨_, rfl⟩
      | _ => simp [hv, restore] at hkind
    rw [hms'] at hout ⊢
    exact decodeObject_encode hout

end Chainloop.Redaction
