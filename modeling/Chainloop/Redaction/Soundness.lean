import Chainloop.Redaction.Settled

namespace Chainloop.Redaction

open Go Json Text Except
open List hiding span

-- The findings that a run can come to, `P`, do not get into each other's way: no
-- placeholder continues an escape, the leaves are calm, and a document in which some
-- occurrences of the secrets are replaced has no other findings.
structure Redactor.Undisturbed (r : Redactor) (scan : Scanner) (P : SecretRule → Prop) (root : Value) : Prop where
  breaks : ∀ sr, P sr → breaksFirst (r.shown sr) = true
  calm : ∀ leaf ∈ leaves root [], r.pathFilter leaf.1 = true → r.Calm P (encodeStringBody leaf.2)
  scans : ∀ f, (∀ leaf ∈ leaves root [], r.Rewritten P leaf.1 leaf.2 (f leaf.1 leaf.2)) →
    ∀ findings, scan (encode (mapLeaves f root []) true) = .ok findings → ∀ fd ∈ findings,
      Accounted [] r.isPlaceholder (trimPartialEscape fd.secret) ∨ P ⟨trimPartialEscape fd.secret, fd.ruleID⟩

-- The secrets that the passes of a run chase.
def Chased (history : List (List SecretRule)) (d : Chars) : Prop :=
  ∃ secrets ∈ history, d ∈ secrets.map SecretRule.secret

section Run

variable {r : Redactor} {scan : Scanner} {P : SecretRule → Prop} {root : Value} {st st' : LoopState}

theorem Redactor.Undisturbed.pending (h : r.Undisturbed scan P root) {f : Chars → Chars → Chars}
    (hf : ∀ leaf ∈ leaves root [], r.Rewritten P leaf.1 leaf.2 (f leaf.1 leaf.2))
    (hroot : st.root = mapLeaves f root []) (hscan : scan (encode st.root true) = .ok findings) :
    ∀ sr ∈ pendingSecrets findings st.skip r.isPlaceholder,
      P sr ∧ sr.secret ≠ [] ∧ escaped false sr.secret = false := by
  intro sr hsr
  refine ⟨?_, trimmed_pendingSecrets findings sr hsr⟩
  obtain ⟨hne, hno, fd, hfd, rfl⟩ := mem_pendingSecrets hsr
  rw [hroot] at hscan
  rcases h.scans f hf findings hscan fd hfd with (hnil | hplaceholder | hskip) | hP
  · exact absurd hnil hne
  · rw [hno] at hplaceholder
    cases hplaceholder
  · cases hskip
  · exact hP

-- Along the passes every leaf stays at a stage of its rewriting, and the secrets
-- that were chased are done.
theorem Redactor.Undisturbed.passes (h : r.Undisturbed scan P root) {f : Chars → Chars → Chars}
    {g : Chars → Chars → List (Cell Char)} {done : Chars → Prop}
    (hf : ∀ leaf ∈ leaves root [], r.LeafStage P done leaf.1 leaf.2 (f leaf.1 leaf.2) (g leaf.1 leaf.2))
    (hroot : st.root = mapLeaves f root []) (hrun : r.passes scan left n st = .ok st') :
    (∀ secrets ∈ r.history scan left n st, ∀ sr ∈ secrets, P sr ∧ sr.secret ≠ []) ∧
      ∀ leaf ∈ leaves root [], r.LeafStage P (fun d => done d ∨ Chased (r.history scan left n st) d) leaf.1 leaf.2
        (r.leafAfter (r.history scan left n st) leaf.1 (f leaf.1 leaf.2))
        (r.cellsOf (r.history scan left n st) leaf.1 (f leaf.1 leaf.2) (g leaf.1 leaf.2)) := by
  induction left generalizing n st f g done with
  | zero => cases hrun
  | succ left ih =>
    obtain ⟨findings, secrets, hscan, rfl, hcases⟩ := passes_cases hrun
    have hP := h.pending (fun leaf hleaf => (hf leaf hleaf).rewritten) hroot hscan
    have hstep := fun leaf hleaf => (hf leaf hleaf).newLeaf (h.calm leaf hleaf) h.breaks hP
    have hchased := fun sr hsr => (hP sr hsr).imp id And.left
    rcases hcases with ⟨-, -, hnone⟩ | ⟨-, -, hlast⟩ | ⟨hnext, hmore⟩
    · rw [hnone]
      exact ⟨by simp, by simpa [Chased, Redactor.leafAfter, Redactor.cellsOf] using hf⟩
    · rw [hlast]
      exact ⟨forall_mem_singleton.mpr hchased, by simpa [Chased, Redactor.leafAfter, Redactor.cellsOf] using hstep⟩
    · obtain ⟨hPs, hleaves⟩ := ih (g := fun path s => (r.rewriter _).leafCells path (f path s) (g path s))
        hstep (by rw [chase_root, hroot, mapLeaves_mapLeaves]) hnext
      rw [hmore]
      generalize pendingSecrets findings st.skip r.isPlaceholder = secrets at hnext hchased hPs hleaves ⊢
      refine ⟨forall_mem_cons.mpr ⟨hchased, hPs⟩, fun leaf hleaf => ?_⟩
      have hdone : ∀ d, (done d ∨ d ∈ secrets.map SecretRule.secret) ∨
          Chased (r.history scan left (n + 1) (r.chase n secrets st).2) d ↔
          done d ∨ Chased (secrets :: r.history scan left (n + 1) (r.chase n secrets st).2) d := fun d => by
        rw [Chased, Chased, exists_mem_cons_iff]
        tauto
      simpa only [hdone, leafAfter_cons, Redactor.cellsOf] using hleaves leaf hleaf

theorem passes_skip (hrun : r.passes scan left n st = .ok st') (hd : d ∈ st'.skip) :
    d ∈ st.skip ∨ Chased (r.history scan left n st) d := by
  induction left generalizing n st with
  | zero => cases hrun
  | succ left ih =>
    obtain ⟨-, secrets, -, -, hcases⟩ := passes_cases hrun
    have hchase (hd : d ∈ (r.chase n secrets st).2.skip) :=
      (mem_settle_foldl _ secrets (st.skip, st.report.unlocated) d).1 hd
    rcases hcases with ⟨-, rfl, -⟩ | ⟨-, rfl, hlast⟩ | ⟨hnext, hmore⟩
    · exact .inl hd
    · rw [hlast]
      exact (hchase hd).imp id fun h => ⟨secrets, by simp, h⟩
    · rw [hmore]
      rcases ih hnext with h | ⟨s, hs, h⟩
      · exact (hchase h).imp id fun h => ⟨secrets, by simp, h⟩
      · exact .inr ⟨s, by simp [hs], h⟩

end Run

section Leaf

variable {r : Redactor} {P : SecretRule → Prop} {done : Chars → Prop}

-- An occurrence of a secret that is done was on a marked line, and is on one.
theorem Redactor.LeafStage.on_line (h : r.LeafStage P done path s s' cs) (hpath : r.pathFilter path = true)
    (hcalm : r.Calm P (encodeStringBody s)) (hbreaks : ∀ sr, P sr → breaksFirst (r.shown sr) = true)
    (hP : P sr) (hne : sr.secret ≠ []) (hdone : done sr.secret) (hocc : sr.secret <+: (encodeStringBody s').drop i) :
    within (allowedLines (encodeStringBody s')) i (i + sr.secret.length) = true ∧
      ∃ j, (cs.drop i).take sr.secret.length = original (((encodeStringBody s).zipIdx.drop j).take sr.secret.length) ∧
        sr.secret <+: (encodeStringBody s).drop j ∧ r.OnLine (encodeStringBody s) j sr.secret.length := by
  rw [Redactor.LeafStage, if_pos hpath] at h
  obtain ⟨hshown, ⟨ps, hst, rfl⟩ | ⟨ps, t, sr', hrew, hswap, rfl⟩⟩ := h
  · have hrew := hst.rewriting
    rw [← hshown, ← text] at hocc ⊢
    obtain ⟨X, hit, Y, rfl, hhit, rfl⟩ := (hcalm.apart ps hrew sr hP).block hne hrew hbreaks hocc
    have hhitne : hit ≠ [] := by
      rintro rfl
      exact hne hhit.symm
    have hon := hst.left X hit Y rfl hhitne (by rwa [hhit])
    have hin := (hst.line_iff hbreaks hcalm hon.1 rfl).mpr hon
    rw [← hhit, length_map]
    refine ⟨hin, (source X).length, ?_, hrew.occurs, hon⟩
    rw [← hrew.whole, source_append, source_append, source_lits, drop_left, take_left, cells_append, cells_append,
      cells_lits, ← length_cells, drop_left, take_left' (by simp [original])]
  · have hin : sr.secret <:+: encodeStringBody (r.placeholder sr'.ruleID) :=
      hocc.isInfix.trans (drop_suffix i _).isInfix
    exact absurd hin ((hcalm.apart ps hrew sr hP).absent hne hswap)

end Leaf

def OnlyAllowed (markers : Bool) (d b : Chars) : Prop :=
  ∀ p s, b = p ++ d ++ s →
    markers = true ∧ within (allowedLines b) p.length (p.length + d.length) = true

def Redactor.Settled (r : Redactor) (st : LoopState) : Prop :=
  ∀ leaf ∈ leaves st.root [], r.pathFilter leaf.1 = true → ∀ d ∈ st.skip,
    OnlyAllowed r.allowMarkers d (encodeStringBody leaf.2)

-- The cells of a leaf after a call.
def Redactor.leafCells (r : Redactor) (history : List (List SecretRule)) (path s : Chars) : List (Cell Char) :=
  r.cellsOf history path s (original (encodeStringBody s).zipIdx)

theorem Redactor.Undisturbed.start {r : Redactor} {scan : Scanner} {P : SecretRule → Prop} {root : Value}
    (h : r.Undisturbed scan P (r.start root).root)
    (hrun : r.passes scan r.maxPasses 1 (r.start root) = .ok st) :
    (∀ secrets ∈ r.chases scan root, ∀ sr ∈ secrets, P sr ∧ sr.secret ≠ []) ∧
      ∀ leaf ∈ leaves (r.start root).root [], r.LeafStage P (Chased (r.chases scan root)) leaf.1 leaf.2
        (r.leafAfter (r.chases scan root) leaf.1 leaf.2) (r.leafCells (r.chases scan root) leaf.1 leaf.2) := by
  have hinit : ∀ leaf ∈ leaves (r.start root).root [], r.LeafStage P (fun _ => False) leaf.1 leaf.2 leaf.2
      (original (encodeStringBody leaf.2).zipIdx) := by
    intro leaf _
    unfold Redactor.LeafStage
    split_ifs
    · exact ⟨by simp [original, Function.comp_def], .inl ⟨_, stage_lits r P _, (cells_lits _).symm⟩⟩
    · rfl
  simpa [Redactor.chases, Redactor.leafCells] using h.passes (f := fun _ s => s)
    (g := fun _ s => original (encodeStringBody s).zipIdx) hinit (mapLeaves_eq_self _ _ fun _ _ => rfl).symm hrun

theorem settled_of_undisturbed {r : Redactor} {scan : Scanner} {P : SecretRule → Prop} {root : Value}
    (h : r.Undisturbed scan P (r.start root).root)
    (hrun : r.passes scan r.maxPasses 1 (r.start root) = .ok st) : r.Settled st := by
  obtain ⟨hP, hleaves⟩ := h.start hrun
  intro leaf hleaf hpath d hd p y heq
  rw [passes_root hrun, leaves_mapLeaves, mem_map] at hleaf
  obtain ⟨⟨path, s⟩, hmem, rfl⟩ := hleaf
  obtain ⟨secrets, hsecrets, hd'⟩ := (passes_skip hrun hd).resolve_left (by simp [Redactor.start])
  obtain ⟨sr, hsr, rfl⟩ := mem_map.mp hd'
  obtain ⟨hPsr, hne⟩ := hP secrets hsecrets sr hsr
  have hocc : sr.secret <+: (encodeStringBody (r.leafAfter (r.chases scan root) path s)).drop p.length := by
    rw [Redactor.chases, heq, append_assoc, drop_left]
    exact prefix_append _ _
  obtain ⟨hwithin, _, -, -, hon⟩ := (hleaves _ hmem).on_line hpath (h.calm _ hmem hpath) h.breaks hPsr hne
    ⟨secrets, hsecrets, hd'⟩ hocc
  exact ⟨hon.1, hwithin⟩

section Finite

-- The ways to replace occurrences of the secrets in a text.
def parses (rules : List SecretRule) : Nat → List (Char × Nat) → List Pieces
  | 0, _ => []
  | _ + 1, [] => [[]]
  | fuel + 1, c :: cs => (parses rules fuel cs).map (.lit c :: ·) ++ rules.flatMap fun sr =>
    if sr.secret.isPrefixOf ((c :: cs).map Prod.fst) then
      (parses rules fuel ((c :: cs).drop sr.secret.length)).map (.swap ((c :: cs).take sr.secret.length) sr :: ·)
    else []

theorem mem_parses {fuel : Nat} {rules : List SecretRule} {ps : Pieces} (hfuel : (source ps).length < fuel)
    (hswaps : ∀ t sr, .swap t sr ∈ ps → sr ∈ rules ∧ sr.secret ≠ [] ∧ t.map Prod.fst = sr.secret) :
    ps ∈ parses rules fuel (source ps) := by
  induction ps generalizing fuel with
  | nil =>
    obtain _ | fuel := fuel
    · cases hfuel
    · simp [parses]
  | cons p ps ih =>
    have htail {fuel : Nat} (hlen : (source ps).length < fuel) : ps ∈ parses rules fuel (source ps) :=
      ih hlen fun t sr ht => hswaps t sr (mem_cons_of_mem _ ht)
    obtain _ | fuel := fuel
    · cases hfuel
    cases p with
    | lit c =>
      have hlen : (source ps).length < fuel := by simpa [source, Piece.source] using hfuel
      exact mem_append_left _ (mem_map_of_mem (htail hlen))
    | swap t sr =>
      obtain ⟨hsr, hne, ht⟩ := hswaps t sr mem_cons_self
      have hlen : sr.secret.length = t.length := by rw [← ht, length_map]
      obtain ⟨c, t, rfl⟩ := exists_cons_of_ne_nil (show t ≠ [] by rintro rfl; exact hne ht.symm)
      rw [source_swap, cons_append, parses]
      refine mem_append_right _ (mem_flatMap.mpr ⟨sr, hsr, ?_⟩)
      rw [← cons_append, hlen, drop_left, take_left, map_append, ht, if_pos (by simp)]
      refine mem_map_of_mem (htail ?_)
      simp only [source_swap, length_append, length_cons] at hfuel
      omega

variable {rules : List SecretRule} {b : Chars} {r : Redactor}

theorem AllowedLine.mem (h : AllowedLine b span) : span ∈ allowedLines b := by
  obtain ⟨span', hmem, hstart, hstop⟩ := exists_allowedLine (a := []) (atLine_nil b) (Nat.lt_succ_self b.length)
    (Nat.zero_le _) h.stop_le h.unbroken h.marked
  have hline := allowedLine_of_mem (a := []) (atLine_nil b) hmem
  have hle := h.le
  obtain ⟨hstart', hstop'⟩ := h.subset hline (Nat.le_refl _) hle hstart (Nat.le_trans hle hstop)
  have heq : span' = span := by
    obtain ⟨lo, hi⟩ := span
    obtain ⟨lo', hi'⟩ := span'
    rw [Span.mk.injEq]
    exact ⟨Nat.le_antisymm hstart hstart', Nat.le_antisymm hstop' hstop⟩
  exact heq ▸ hmem

theorem calm_of_parses
    (hapart : ∀ ps ∈ parses rules (b.length + 1) b.zipIdx, ∀ sr ∈ rules, Original r.shown sr.secret ps)
    (hmarkers : r.allowMarkers = true →
      (∀ ps ∈ parses rules (b.length + 1) b.zipIdx, ∀ sig ∈ allowSignatures, Original r.shown sig ps) ∧
      ∀ sr ∈ rules, ∀ i < b.length, sr.secret <+: b.drop i → ∀ span ∈ allowedLines b, i < span.stop + 2 →
        span.start < i + sr.secret.length + 2 → span.start ≤ i ∧ i + sr.secret.length ≤ span.stop)
    (hne : ∀ sr ∈ rules, sr.secret ≠ []) : r.Calm (· ∈ rules) b := by
  have hmem : ∀ ps, Rewriting (· ∈ rules) b ps → ps ∈ parses rules (b.length + 1) b.zipIdx := by
    intro ps hps
    rw [← hps.whole]
    refine mem_parses ?_ hps.swaps
    rw [hps.whole]
    simp
  refine ⟨fun ps hps => hapart ps (hmem ps hps), fun h ps hps => (hmarkers h).1 ps (hmem ps hps),
    fun h sr hsr i hocc span hline => ?_⟩
  have hlen := hocc.length_le
  have hpos := length_pos_iff.mpr (hne sr hsr)
  rw [length_drop] at hlen
  exact (hmarkers h).2 sr hsr i (by omega) hocc span hline.mem

-- The scanner that finds the given secrets wherever they are.
def seeks (rules : List SecretRule) : Scanner := fun text =>
  .ok ((rules.filter fun sr => Text.contains sr.secret text).map fun sr => ⟨sr.ruleID, sr.secret⟩)

theorem undisturbed_seeks (hrules : ∀ sr ∈ rules, trimPartialEscape sr.secret = sr.secret ∧ breaksFirst (r.shown sr) = true)
    (hcalm : ∀ leaf ∈ leaves root [], r.pathFilter leaf.1 = true → r.Calm (· ∈ rules) (encodeStringBody leaf.2)) :
    r.Undisturbed (seeks rules) (· ∈ rules) root := by
  refine ⟨fun sr hsr => (hrules sr hsr).2, hcalm, fun f _ findings hscan fd hfd => .inr ?_⟩
  cases hscan
  obtain ⟨sr, hsr, rfl⟩ := mem_map.mp hfd
  have hmem := (mem_filter.mp hsr).1
  rw [(hrules sr hmem).1]
  exact hmem

end Finite

section Example

-- An object whose members are strings.
def strings (ms : List (Chars × Chars)) : Value := .obj (ms.map fun m => (m.1, .str m.2))

theorem decodeObject_strings {ms : List (Chars × Chars)} (hdoc : doc = encode (strings ms) false)
    (hsorted : ms.Pairwise fun m n => m.1 < n.1) : decodeObject doc = .ok (strings ms) := by
  rw [hdoc]
  refine decodeObject_encode (.obj (pairwise_map.mpr hsorted) fun m hm => ?_)
  obtain ⟨n, -, rfl⟩ := mem_map.mp hm
  exact .str n.2

def twoRules : List SecretRule := [⟨['S', 'E', 'C'], ['r']⟩, ⟨[']', 'x'], ['k']⟩]

def guardedRedactor : Redactor :=
  { Redactor.new (seeks twoRules) with pathFilter := fun path => path != ['/', 'i', 'd'] }

def guardedDocument : Chars := "\x7b\"id\":\"SEC\",\"t\":\"SEC ]x\"\x7d".toList

def guardedRoot : Value := strings [(['i', 'd'], ['S', 'E', 'C']), (['t'], "SEC ]x".toList)]

theorem guardedRedactor_undisturbed :
    guardedRedactor.Undisturbed (seeks twoRules) (· ∈ twoRules) (guardedRedactor.start guardedRoot).root := by
  refine undisturbed_seeks (by decide +kernel) fun leaf hleaf hpath => ?_
  have hleaf : leaf = (['/', 't'], "SEC ]x".toList) := by
    have hmem : leaf ∈ [(['/', 'i', 'd'], ['S', 'E', 'C']), (['/', 't'], "SEC ]x".toList)] := hleaf
    rcases mem_pair.mp hmem with rfl | rfl
    · cases hpath
    · rfl
  subst hleaf
  exact calm_of_parses (by decide +kernel) (fun hno => nomatch hno) (by decide)

theorem guarded_run : decodeObject guardedDocument = .ok guardedRoot ∧
    (guardedRedactor.redact guardedDocument).toOption.map (fun e => e.2.replacements) = some 2 ∧
    (guardedRedactor.passes (seeks twoRules) 4 1 (guardedRedactor.start guardedRoot)).toOption.map LoopState.skip
      = some [['S', 'E', 'C']] := by
  have heval : guardedDocument = encode guardedRoot false ∧
      (guardedRedactor.redact guardedDocument).toOption.map (fun e => e.2.replacements) = some 2 ∧
      (guardedRedactor.passes (seeks twoRules) 4 1 (guardedRedactor.start guardedRoot)).toOption.map LoopState.skip
        = some [['S', 'E', 'C']] := by decide +kernel
  exact ⟨decodeObject_strings heval.1 (by decide), heval.2⟩

def keySecret : Chars := "CHAINLOOP_TRACE_REDACTED".toList

def keyRedactor : Redactor := Redactor.new (seeks [⟨keySecret, ['k']⟩, ⟨['S', 'E', 'C'], ['r']⟩])

def keyDocument : Chars := "\x7b\"CHAINLOOP_TRACE_REDACTED\":\"SEC\"\x7d".toList

def keyRedacted : Chars := "\x7b\"CHAINLOOP_TRACE_REDACTED\":\"[CHAINLOOP_TRACE_REDACTED:r]\"\x7d".toList

theorem key_run : decodeObject keyDocument = .ok (strings [(keySecret, ['S', 'E', 'C'])]) ∧
    (keyRedactor.redact keyDocument).toOption.map Prod.fst = some keyRedacted ∧
    errorOf (keyRedactor.redact keyRedacted) = some (errNotConverged 4) ∧
    (keyRedactor.passes (seeks [⟨keySecret, ['k']⟩, ⟨['S', 'E', 'C'], ['r']⟩]) 4 1
      (keyRedactor.start (strings [(keySecret, ['S', 'E', 'C'])]))).toOption.map (fun st => (leaves st.root [], st.skip))
      = some ([('/' :: keySecret, "[CHAINLOOP_TRACE_REDACTED:r]".toList)], [keySecret]) := by
  refine ⟨decodeObject_strings ?_ (by simp), ?_⟩ <;> decide +kernel

end Example

end Chainloop.Redaction
