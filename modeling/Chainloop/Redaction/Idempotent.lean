import Chainloop.Redaction.Soundness

namespace Chainloop.Redaction

open Go Json Text List Nat Except

section Quiet

variable {w : Rewriter}

def Rewriter.Quiet (w : Rewriter) (path s : Chars) : Prop :=
  w.pathFilter path = true → ∀ sr ∈ w.secrets,
    (w.substitute (w.marked (encodeStringBody s)) sr (encodeStringBody s)).2.1 = 0

theorem redactSecrets_count_iff (marked : Bool) (hpath : w.pathFilter path = true)
    (hne : ∀ sr ∈ secrets, sr.secret ≠ []) (p : Progress) (t : Tally) :
    ∃ p', (w.redactSecrets marked path secrets p t).1 = some p' ∧
      (p'.n = p.n ↔ ∀ sr ∈ secrets, (w.substitute marked sr p.body).2.1 = 0) := by
  induction secrets generalizing p t with
  | nil => exact ⟨p, rfl, by simp⟩
  | cons sr rest ih =>
    have htail : ∀ sr' ∈ rest, sr'.secret ≠ [] := fun sr' h => hne sr' (by simp [h])
    rcases redactSecrets_cons (w := w) marked path sr rest p t with
      ⟨hcount, hrun⟩ | ⟨-, hno, -⟩ | ⟨p1, t1, hrun, hbody, -, -, ⟨hzero, hn, -⟩ | ⟨hnz, hlt, -⟩⟩
    · rw [hrun]
      obtain ⟨p', hp, hiff⟩ := ih htail p t
      refine ⟨p', hp, hiff.trans ?_⟩
      rw [forall_mem_cons]
      exact ⟨fun h => ⟨replaced_of_count hcount, h⟩, fun h => h.2⟩
    · rw [hpath] at hno
      cases hno
    · rw [hrun]
      obtain ⟨p', hp, hiff⟩ := ih htail p1 t1
      rw [hbody, substitute_of_none w marked p.body (hne sr (by simp)) hzero, hn] at hiff
      refine ⟨p', hp, hiff.trans ?_⟩
      rw [forall_mem_cons]
      exact ⟨fun h => ⟨hzero, h⟩, fun h => h.2⟩
    · rw [hrun]
      obtain ⟨p', hp, -⟩ := ih htail p1 t1
      have hle := ((redactSecrets_tally (w := w) marked path rest p1 t1).2.1 p' hp).1
      refine ⟨p', hp, fun h => by omega, fun h => ?_⟩
      exact absurd (h sr (by simp)) hnz

theorem redactLeaf_count_iff (hne : ∀ sr ∈ w.secrets, sr.secret ≠ []) (s path : Chars) (t : Tally) :
    (w.redactLeaf s path t).2.count = t.count ↔ w.Quiet path s := by
  obtain ⟨hcount, -, -⟩ := redactSecrets_tally (w := w) (w.marked (encodeStringBody s)) path w.secrets
    ⟨encodeStringBody s, 0, false, []⟩ t
  by_cases hpath : w.pathFilter path = true
  · obtain ⟨p, hp, hiff⟩ := redactSecrets_count_iff (w.marked (encodeStringBody s)) hpath hne
      ⟨encodeStringBody s, 0, false, []⟩ t
    have hquiet : w.Quiet path s ↔ p.n = 0 := by
      rw [hiff]
      exact ⟨fun h => h hpath, fun h _ => h⟩
    rw [hquiet]
    simp only [Rewriter.redactLeaf]
    revert hcount hp
    generalize w.redactSecrets (w.marked (encodeStringBody s)) path w.secrets
      ⟨encodeStringBody s, 0, false, []⟩ t = run
    obtain ⟨leaf, t'⟩ := run
    rintro hcount rfl
    simp only at hcount
    by_cases hn : p.n = 0
    · simpa [hn] using hcount
    · simp only [hn, if_false, iff_false]
      omega
  · have hprotected : w.pathFilter path = false := by simpa using hpath
    refine ⟨fun _ h => absurd h hpath, fun _ => ?_⟩
    have hrun := redactSecrets_untouched (w := w) (p := ⟨encodeStringBody s, 0, false, []⟩)
      (w.marked (encodeStringBody s)) path w.secrets (.inl ⟨rfl, hprotected⟩) t
    simp only [Rewriter.redactLeaf]
    revert hcount hrun
    generalize w.redactSecrets (w.marked (encodeStringBody s)) path w.secrets
      ⟨encodeStringBody s, 0, false, []⟩ t = run
    obtain ⟨leaf, t'⟩ := run
    rintro hcount (rfl | rfl) <;> exact hcount

theorem rewrite_count_iff (hne : ∀ sr ∈ w.secrets, sr.secret ≠ []) (v : Value) (path : Chars) (t : Tally) :
    (w.rewrite v path t).2.count = t.count ↔ ∀ leaf ∈ leaves v path, w.Quiet leaf.1 leaf.2 := by
  rw [rewrite_eq]
  generalize leaves v path = ls
  induction ls generalizing t with
  | nil => simp
  | cons leaf ls ih =>
    have hleaf := redactLeaf_count_iff hne leaf.2 leaf.1 t
    have hle := (redactLeaf_tally (w := w) leaf.2 leaf.1 t).1
    have hle' := (foldl_tallied (w := w) ls (w.tallied t leaf)).1
    rw [forall_mem_cons, ← hleaf, ← ih (w.tallied t leaf), foldl_cons]
    simp only [Rewriter.tallied] at hle' ⊢
    omega

-- An occurrence on an allowed line is not replaced, and where there is one the
-- markers are looked at.
theorem OnlyAllowed.replaced_eq_zero {sr : SecretRule} (hne : sr.secret ≠ [])
    (h : OnlyAllowed w.allowMarkers sr.secret b) : (w.substitute (w.marked b) sr b).2.1 = 0 := by
  have hmarked : ∀ p s, b = p ++ sr.secret ++ s → w.marked b = true := by
    intro p s heq
    obtain ⟨hallow, hin⟩ := h p s heq
    obtain ⟨span, hline, -, -⟩ := within_iff.mp hin
    obtain ⟨sig, hsig, m, -, -, hpre⟩ := hline.marked
    rw [Rewriter.marked, hallow, Bool.true_and, hasAllowMarker_iff]
    exact ⟨sig, hsig, hpre.isInfix.trans (drop_suffix m _).isInfix⟩
  cases hm : w.marked b with
  | false =>
    refine (count_eq_zero_iff hne b).mpr ?_
    rintro ⟨p, s, heq⟩
    rw [hmarked p s heq.symm] at hm
    cases hm
  | true =>
    apply length_eq_zero_iff.mpr
    rw [filter_eq_nil_iff]
    intro start hstart
    obtain ⟨p, s, heq, rfl⟩ := mem_startsFrom hne hstart
    have hin := (h p s heq).2
    simp [keeps, hin]

end Quiet

section Again

variable {r : Redactor} {scan : Scanner}

theorem passes_scans {st' : LoopState} (h : r.passes scan left n st = .ok st') :
    ∃ findings, scan (encode st'.root true) = .ok findings := by
  induction left generalizing n st with
  | zero => cases h
  | succ left ih =>
    obtain ⟨findings, secrets, hscan, -, ⟨-, rfl, -⟩ | ⟨hconverged, rfl, -⟩ | ⟨hmore, -⟩⟩ := passes_cases h
    · exact ⟨findings, hscan⟩
    · exact ⟨findings, by rw [(chase_converged st n hconverged).1, hscan]⟩
    · exact ih hmore

-- The second call starts where the first one ended.
theorem start_again {st : LoopState} (hfilter : r.opaqueFilter = none) (hwhole : restore root = root)
    (hst : r.passes scan r.maxPasses 1 (r.start root) = .ok st) : (r.start (restore st.root)).root = st.root := by
  have hroot : st.root = mapLeaves (r.leafAfter (r.chases scan root)) (r.start root).root [] := passes_root hst
  rw [hroot]
  unfold Redactor.start
  rw [hfilter]
  simp only
  rw [← hwhole, restore_mapLeaves]

theorem passes_of_quiet (left n : Nat) {st : LoopState}
    (hscan : scan (encode st.root true) = .ok findings)
    (hquiet : ∀ leaf ∈ leaves st.root [],
      (r.rewriter (pendingSecrets findings st.skip r.isPlaceholder)).Quiet leaf.1 leaf.2) :
    ∃ st', r.passes scan (left + 1) n st = .ok st' ∧
      st'.report.replacements = st.report.replacements := by
  have hpending : r.pending scan st = .ok (pendingSecrets findings st.skip r.isPlaceholder) := by
    rw [Redactor.pending, hscan]
    rfl
  generalize hsecrets : pendingSecrets findings st.skip r.isPlaceholder = secrets at hquiet hpending
  have hne : ∀ sr ∈ (r.rewriter secrets).secrets, sr.secret ≠ [] := pending_ne_nil hpending
  by_cases hempty : secrets.isEmpty = true
  · refine ⟨{ st with report := { st.report with passes := n } }, ?_, rfl⟩
    refine bind_eq_ok.mpr ⟨(true, _), bind_eq_ok.mpr ⟨secrets, hpending, ?_⟩, rfl⟩
    rw [if_pos hempty]
    rfl
  · have hcount : ((r.rewriter secrets).rewrite st.root [] .empty).2.count = 0 :=
      (rewrite_count_iff hne st.root [] .empty).mpr hquiet
    have hconverged : (r.chase n secrets st).1 = true := beq_iff_eq.mpr hcount
    have hreport : (r.chase n secrets st).2.report.replacements
        = st.report.replacements + ((r.rewriter secrets).rewrite st.root [] .empty).2.count := rfl
    refine ⟨(r.chase n secrets st).2, ?_, by rw [hreport, hcount, add_zero]⟩
    refine bind_eq_ok.mpr ⟨r.chase n secrets st, bind_eq_ok.mpr ⟨secrets, hpending, ?_⟩, ?_⟩
    · rw [if_neg hempty]
      rfl
    · simp only [hconverged]
      rfl

theorem quiet_of_passes {st st' : LoopState} (h : r.passes scan left n st = .ok st')
    (hsame : st'.report.replacements = st.report.replacements)
    (hscan : scan (encode st.root true) = .ok findings) :
    ∀ leaf ∈ leaves st.root [],
      (r.rewriter (pendingSecrets findings st.skip r.isPlaceholder)).Quiet leaf.1 leaf.2 := by
  cases left with
  | zero => cases h
  | succ left =>
    obtain ⟨findings', secrets, hscan', hsecrets, hcases⟩ := passes_cases h
    obtain rfl := ok.inj (hscan'.symm.trans hscan)
    have hne : ∀ sr ∈ secrets, sr.secret ≠ [] := hsecrets ▸ fun sr hsr => (mem_pendingSecrets hsr).1
    have hreport : (r.chase n secrets st).2.report.replacements
        = st.report.replacements + ((r.rewriter secrets).rewrite st.root [] .empty).2.count := rfl
    have hquiet := (rewrite_count_iff (w := r.rewriter secrets) hne st.root [] .empty).mp
    rw [← hsecrets]
    rcases hcases with ⟨rfl, -, -⟩ | ⟨-, rfl, -⟩ | ⟨hmore, -⟩
    · intro leaf _ _ sr hsr
      cases hsr
    · exact hquiet (show _ = 0 by omega)
    · have hmono := (passes_replacements hmore).1
      exact hquiet (show _ = 0 by omega)

end Again

def Redactor.StaysPut (r : Redactor) (doc : Chars) : Prop :=
  ∃ report, r.redact doc = .ok (doc, report) ∧ report.replacements = 0

-- No secret that a scan of the document finds is in an eligible leaf of it outside
-- the allowed lines.
def Redactor.FoundQuiet (r : Redactor) (scan : Scanner) (root : Value) : Prop :=
  ∀ findings, scan (encode root true) = .ok findings → ∀ leaf ∈ leaves root [],
    (r.rewriter (pendingSecrets findings [] r.isPlaceholder)).Quiet leaf.1 leaf.2

section Again

variable {r : Redactor} {scan : Scanner}

theorem staysPut_iff_foundQuiet (hscanner : r.scanner = some scan) (hpasses : 0 < r.maxPasses)
    (hdecode : decodeObject doc = .ok root) (hscan : scan (encode (r.start root).root true) = .ok findings) :
    r.StaysPut doc ↔ r.FoundQuiet scan (r.start root).root := by
  constructor
  · rintro ⟨report, hredact, hzero⟩ findings' hscan'
    obtain ⟨root', st, hroot, hst, rfl, -⟩ := redact_returns r scan hscanner doc doc report hredact
    obtain rfl := ok.inj (hroot.symm.trans hdecode)
    exact quiet_of_passes hst hzero hscan'
  · intro hquiet
    obtain ⟨left, hleft⟩ := Nat.exists_eq_add_of_lt hpasses
    obtain ⟨st, hst, hsame⟩ := passes_of_quiet left 1 hscan (hquiet findings hscan)
    rw [zero_add] at hleft
    have hzero : st.report.replacements = 0 := hsame
    refine ⟨st.report, ?_, hzero⟩
    rw [Redactor.redact, hscanner]
    refine bind_eq_ok.mpr ⟨root, hdecode, bind_eq_ok.mpr ⟨st, hleft ▸ hst, ?_⟩⟩
    rw [if_pos hzero]
    rfl

theorem foundQuiet_of_settled {st : LoopState} (hst : r.passes scan left n st₀ = .ok st)
    (hsettled : r.Settled st) : r.FoundQuiet scan st.root := by
  intro findings hscan leaf hleaf hpath sr hsr
  obtain ⟨hne, hplaceholder, f, hf, rfl⟩ := mem_pendingSecrets hsr
  rcases passes_accounts hst hscan hf with hnil | hyes | hskip
  · exact absurd hnil hne
  · rw [hplaceholder] at hyes
    cases hyes
  · have honly : OnlyAllowed (r.rewriter (pendingSecrets findings [] r.isPlaceholder)).allowMarkers
        (trimPartialEscape f.secret) (encodeStringBody leaf.2) := hsettled leaf hleaf hpath _ hskip
    exact honly.replaced_eq_zero hne

end Again

end Chainloop.Redaction
