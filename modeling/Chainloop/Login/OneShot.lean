import Chainloop.Login.Handoff

namespace Chainloop.Login

open Option

variable {sha256Hex s256ChallengeFromVerifier : String → String} {s s' : System} {e : Event}

structure Inv (sha256Hex s256ChallengeFromVerifier : String → String) (s : System) : Prop where
  rows_issued : ∀ codeHash row, s.rows codeHash = some row →
    s.issued codeHash = some (entLoginHandoffToBiz row)
  spent : ∀ k attempt stage, s.attempts k = some (attempt, stage) → stage.consumed = true →
    s.Spent (sha256Hex attempt.code)
  unique : ∀ k l attempt other stage stage', s.attempts k = some (attempt, stage) →
    s.attempts l = some (other, stage') → stage.consumed = true → stage'.consumed = true →
    sha256Hex attempt.code = sha256Hex other.code → k = l
  fits : ∀ k attempt h, s.attempts k = some (attempt, .ended (.ok h)) →
    s.issued (sha256Hex attempt.code) = some h ∧ attempt.Fits s256ChallengeFromVerifier h

theorem inv_start : Inv sha256Hex s256ChallengeFromVerifier start where
  rows_issued _ _ h := by cases h
  spent _ _ _ h := by cases h
  unique _ _ _ _ _ _ h := by cases h
  fits _ _ _ h := by cases h

variable {attempt : Attempt}

theorem Advance.consumed {stage : Stage}
    (h : Advance sha256Hex s256ChallengeFromVerifier s s' k e)
    (hk : s'.attempts k = some (attempt, stage)) (hstage : stage.consumed = true) :
    (∃ stage', s.attempts k = some (attempt, stage') ∧ stage'.consumed = true) ∨
      e = .mark k ∧ (∃ row, s.rows (sha256Hex attempt.code) = some row ∧ row.usedAt = none) ∧
        ((s.issued (sha256Hex attempt.code)).isSome → s'.Spent (sha256Hex attempt.code)) := by
  cases h with
  | same _ h => exact .inl ⟨stage, h ▸ hk, hstage⟩
  | lost _ other stage' h hlost =>
    rw [h] at hk
    cases hk
    rw [hlost] at hstage
    cases hstage
  | won other row hrow hunused hspent h =>
    rw [h] at hk
    cases hk
    exact .inr ⟨rfl, ⟨row, hrow, hunused⟩, hspent⟩
  | exchanged other row hbefore hrow hfits h =>
    rw [h] at hk
    cases hk
    exact .inl ⟨_, hbefore, rfl⟩

theorem System.Spent.not_unused (h : s.Spent codeHash) {row : Row}
    (hrow : s.rows codeHash = some row) : row.usedAt ≠ none := by
  intro hunused
  have hused := h.2 row hrow
  rw [hunused] at hused
  cases hused

theorem Inv.step (h : Inv sha256Hex s256ChallengeFromVerifier s)
    (hstep : s.step sha256Hex s256ChallengeFromVerifier e = some s') :
    Inv sha256Hex s256ChallengeFromVerifier s' := by
  have hkeeps := System.step_keeps hstep
  have hadvance := System.step_advance hstep
  constructor
  · exact hkeeps.rows h.rows_issued
  · intro k attempt stage hk hstage
    rcases (hadvance k).consumed hk hstage with ⟨stage', hbefore, hheld⟩ | ⟨-, ⟨row, hrow, -⟩, hspent⟩
    · exact hkeeps.spent _ (h.spent k attempt stage' hbefore hheld)
    · exact hspent (by rw [h.rows_issued _ row hrow]; rfl)
  · intro k l attempt other stage stage' hk hl hstage hstage' hsame
    rcases (hadvance k).consumed hk hstage with ⟨st, hbefore, hheld⟩ | ⟨rfl, ⟨row, hrow, hunused⟩, -⟩ <;>
      rcases (hadvance l).consumed hl hstage' with ⟨st', hbefore', hheld'⟩ |
        ⟨hmark, ⟨row', hrow', hunused'⟩, -⟩
    · exact h.unique k l attempt other st st' hbefore hbefore' hheld hheld' hsame
    · exact absurd hunused' ((hsame ▸ h.spent k attempt st hbefore hheld).not_unused hrow')
    · exact absurd hunused ((hsame ▸ h.spent l other st' hbefore' hheld').not_unused hrow)
    · injection hmark
  · intro k attempt handoff hk
    cases hadvance k with
    | same _ hsame =>
      obtain ⟨hissued, hfits⟩ := h.fits k attempt handoff (hsame ▸ hk)
      exact ⟨hkeeps.issued _ _ hissued, hfits⟩
    | lost _ other stage hlost hstage =>
      rw [hlost] at hk
      cases hk
      cases hstage
    | won other row _ _ _ hwon =>
      rw [hwon] at hk
      cases hk
    | exchanged other row _ hrow hfits hended =>
      rw [hended] at hk
      cases hk
      exact ⟨hkeeps.issued _ _ (h.rows_issued _ row hrow), hfits⟩

def Event.marks : Event → Option Nat
  | .mark k | .markFails k true _ => some k
  | .markFails _ false _ | .issue .. | .begin .. | .find _ | .findFails .. | .sweep _ => none

def System.Waiting (s : System) (k : Nat) : Prop :=
  s.attempts k = none ∨ ∃ attempt, s.attempts k = some (attempt, .begun)

theorem System.step_marks
    (hstep : s.step sha256Hex s256ChallengeFromVerifier e = some s') (hmarks : e.marks = some k)
    (hk : s.attempts k = some (attempt, stage))
    (hissued : (s.issued (sha256Hex attempt.code)).isSome) :
    s'.Spent (sha256Hex attempt.code) := by
  have hspent := (s.markUsed_marks (sha256Hex attempt.code) attempt.now).spent
    (sha256Hex attempt.code) hissued (.inl rfl)
  cases e with
  | mark l =>
    cases hmarks
    simp only [System.step, hk] at hstep
    split at hstep <;> cases hstep
    rename_i other heq
    cases heq
    exact hspent
  | markFails l applied err =>
    cases applied <;> cases hmarks
    simp only [System.step, hk] at hstep
    split at hstep <;> cases hstep
    rename_i other heq
    cases heq
    exact hspent
  | issue | begin | find | findFails | sweep => cases hmarks

def System.Excludes (sha256Hex : String → String) (s : System) (codeHash : String) (k : Nat) : Prop :=
  s.Spent codeHash ∧ ∀ attempt stage, s.attempts k = some (attempt, stage) → stage.consumed = true →
    sha256Hex attempt.code ≠ codeHash

theorem System.Excludes.step (h : s.Excludes sha256Hex codeHash k)
    (hstep : s.step sha256Hex s256ChallengeFromVerifier e = some s') :
    s'.Excludes sha256Hex codeHash k := by
  refine ⟨(System.step_keeps hstep).spent _ h.1, fun attempt stage hk hstage hsame => ?_⟩
  rcases (System.step_advance hstep k).consumed hk hstage with
    ⟨stage', hbefore, hheld⟩ | ⟨-, ⟨row, hrow, hunused⟩, -⟩
  · exact h.2 attempt stage' hbefore hheld hsame
  · exact (hsame ▸ h.1).not_unused hrow hunused

theorem System.step_excludes
    (hstep : s.step sha256Hex s256ChallengeFromVerifier e = some s') (hmarks : e.marks = some w)
    (hw : s.attempts w = some (attempt, stage))
    (hissued : (s.issued (sha256Hex attempt.code)).isSome) (hwaiting : s.Waiting k) (hne : k ≠ w) :
    s'.Excludes sha256Hex (sha256Hex attempt.code) k := by
  refine ⟨System.step_marks hstep hmarks hw hissued, fun other stage' hk hstage hsame => ?_⟩
  rcases (System.step_advance hstep k).consumed hk hstage with ⟨st, hbefore, hheld⟩ | ⟨rfl, -, -⟩
  · rcases hwaiting with hnone | ⟨first, hbegun⟩
    · rw [hnone] at hbefore
      cases hbefore
    · rw [hbegun] at hbefore
      cases hbefore
      cases hheld
  · injection hmarks with hmarks
    exact hne hmarks

def IssuedWith (sha256Hex : String → String) (past : List Event) (codeHash : String)
    (h : LoginHandoff) : Prop :=
  ∃ code userID tokenTTL now,
    Event.issue code userID tokenTTL h.codeChallenge h.callback now ∈ past ∧
      sha256Hex code = codeHash ∧ h.expiresAt = now + loginHandoffTTL

theorem IssuedWith.append
    (hissued : IssuedWith sha256Hex past codeHash h ∨ IssuedWith sha256Hex more codeHash h) :
    IssuedWith sha256Hex (past ++ more) codeHash h := by
  rcases hissued with ⟨code, userID, tokenTTL, now, hmem, hrest⟩ | ⟨code, userID, tokenTTL, now, hmem, hrest⟩
  · exact ⟨code, userID, tokenTTL, now, List.mem_append_left _ hmem, hrest⟩
  · exact ⟨code, userID, tokenTTL, now, List.mem_append_right _ hmem, hrest⟩

theorem System.step_issuedWith (hstep : s.step sha256Hex s256ChallengeFromVerifier e = some s')
    (hissued : s'.issued codeHash = some h) :
    s.issued codeHash = some h ∨ IssuedWith sha256Hex [e] codeHash h := by
  cases e with simp only [System.step] at hstep
  | issue code userID tokenTTL codeChallenge callback now =>
    obtain ⟨row, -, hexpires, rfl, rfl, rfl⟩ := System.issue_eq_some hstep
    by_cases hsame : codeHash = sha256Hex code
    · subst codeHash
      simp only [Function.update_self, some.injEq] at hissued
      subst h
      exact .inr ⟨code, userID, tokenTTL, now, List.mem_cons_self, rfl, hexpires⟩
    · simp only [Function.update_of_ne hsame] at hissued
      exact .inl hissued
  | begin k attempt =>
    split at hstep <;> cases hstep
    exact .inl hissued
  | mark k =>
    split at hstep <;> cases hstep
    exact .inl ((s.markUsed_marks _ _).issued ▸ hissued)
  | markFails k applied err =>
    split at hstep <;> cases hstep
    cases applied with
    | false => exact .inl hissued
    | true => exact .inl ((s.markUsed_marks _ _).issued ▸ hissued)
  | find k =>
    split at hstep <;> cases hstep
    exact .inl hissued
  | findFails k err =>
    split at hstep <;> cases hstep
    exact .inl hissued
  | sweep before =>
    cases hstep
    exact .inl hissued

structure Records (sha256Hex : String → String) (past : List Event) (s : System) : Prop where
  issuedWith : ∀ codeHash h, s.issued codeHash = some h → IssuedWith sha256Hex past codeHash h
  issued : ∀ code userID tokenTTL codeChallenge callback now,
    Event.issue code userID tokenTTL codeChallenge callback now ∈ past →
      (s.issued (sha256Hex code)).isSome

theorem records_start : Records sha256Hex [] start where
  issuedWith _ _ h := by cases h
  issued _ _ _ _ _ _ h := by cases h

theorem Records.step (h : Records sha256Hex past s)
    (hstep : s.step sha256Hex s256ChallengeFromVerifier e = some s') :
    Records sha256Hex (past ++ [e]) s' := by
  constructor
  · intro codeHash handoff hissued
    exact IssuedWith.append ((System.step_issuedWith hstep hissued).imp_left (h.issuedWith codeHash handoff))
  · intro code userID tokenTTL codeChallenge callback now hmem
    rcases List.mem_append.mp hmem with hmem | hmem
    · obtain ⟨handoff, hissued⟩ := isSome_iff_exists.mp
        (h.issued code userID tokenTTL codeChallenge callback now hmem)
      rw [(System.step_keeps hstep).issued _ handoff hissued]
      rfl
    · obtain rfl := List.mem_singleton.mp hmem
      obtain ⟨row, -, -, -, -, rfl⟩ := System.issue_eq_some hstep
      simp

-- The whole promise of a handoff code: what an exchange that succeeds has brought, that no
-- two of them succeed, and that an attempt of any kind that has reached the database leaves
-- nothing to those that reach it later.
structure OneShot (sha256Hex s256ChallengeFromVerifier : String → String) (events : List Event)
    (s : System) : Prop where
  bound : ∀ k attempt h, s.attempts k = some (attempt, .ended (.ok h)) →
    IssuedWith sha256Hex events (sha256Hex attempt.code) h ∧ attempt.now < h.expiresAt ∧
      verifyS256 s256ChallengeFromVerifier attempt.codeVerifier h.codeChallenge = true ∧
      attempt.callback = h.callback
  once : ∀ k l attempt other h h', s.attempts k = some (attempt, .ended (.ok h)) →
    s.attempts l = some (other, .ended (.ok h')) → sha256Hex attempt.code = sha256Hex other.code → k = l
  burnt : ∀ before e after mid w attempt stage h, events = before ++ e :: after →
    Schedule.run (System.step sha256Hex s256ChallengeFromVerifier) start before = some mid →
    e.marks = some w → mid.attempts w = some (attempt, stage) →
    IssuedWith sha256Hex before (sha256Hex attempt.code) h →
    ∀ k other h', mid.Waiting k → k ≠ w → s.attempts k = some (other, .ended (.ok h')) →
      sha256Hex other.code ≠ sha256Hex attempt.code

section Runs

variable {events : List Event}

variable (h : Schedule.run (System.step sha256Hex s256ChallengeFromVerifier) start events = some s)
include h

theorem inv_run : Inv sha256Hex s256ChallengeFromVerifier s :=
  Schedule.run_keeps (Inv sha256Hex s256ChallengeFromVerifier) inv_start
    (fun _ _ _ h hstep => h.step hstep) h

theorem records_run : Records sha256Hex events s :=
  Schedule.run_invariant (Records sha256Hex) records_start (fun _ _ _ _ h hstep => h.step hstep) h

end Runs

theorem login_handoff_is_one_shot (sha256Hex s256ChallengeFromVerifier : String → String)
    (events : List Event) (s : System)
    (h : Schedule.run (System.step sha256Hex s256ChallengeFromVerifier) start events = some s) :
    OneShot sha256Hex s256ChallengeFromVerifier events s where
  bound k attempt handoff hk := by
    obtain ⟨hissued, hfits⟩ := (inv_run h).fits k attempt handoff hk
    exact ⟨(records_run h).issuedWith _ _ hissued, hfits.inTime, hfits.verifier, hfits.callback⟩
  once k l attempt other handoff handoff' hk hl hsame :=
    (inv_run h).unique k l attempt other _ _ hk hl rfl rfl hsame
  burnt before e after mid w attempt stage handoff hevents hbefore hmarks hw hissued k other handoff'
      hwaiting hne hk := by
    subst hevents
    obtain ⟨mid', next, hmid', hstep, hafter⟩ := Schedule.run_at h
    obtain rfl : mid = mid' := some.inj (hbefore.symm.trans hmid')
    obtain ⟨code, userID, tokenTTL, now, hmem, hcode, -⟩ := hissued
    have hsome := hcode ▸ (records_run hbefore).issued _ _ _ _ _ _ hmem
    have hexcludes : s.Excludes sha256Hex (sha256Hex attempt.code) k :=
      Schedule.run_keeps (fun s => s.Excludes sha256Hex (sha256Hex attempt.code) k)
        (System.step_excludes hstep hmarks hw hsome hwaiting hne)
        (fun _ _ _ h hstep => h.step hstep) hafter
    exact hexcludes.2 other _ hk rfl

def aVerifier : String := String.ofList (List.replicate 43 'a')

def twoClients : List Event :=
  [.issue "code" (Go.UUID.ofByte 1).toString (3600 * second) aVerifier "http://localhost/callback" 0,
    .begin 0 ⟨"code", aVerifier, "http://localhost/callback", 5⟩,
    .begin 1 ⟨"code", "guess", "http://localhost/callback", 5⟩,
    .mark 0, .mark 1, .sweep 5, .find 1, .find 0]

theorem twoClients_one_shot : ∃ s, Schedule.run (System.step id id) start twoClients = some s ∧
      (s.attempts 0).map (·.2.consumed) = some true ∧ (s.attempts 1).map (·.2.consumed) = some false ∧
      OneShot id id twoClients s := by
  have hrun : ((Schedule.run (System.step id id) start twoClients).map fun s =>
      ((s.attempts 0).map (·.2.consumed), (s.attempts 1).map (·.2.consumed))) =
        some (some true, some false) := by
    decide +kernel
  obtain ⟨s, hs, hended⟩ := map_eq_some_iff.mp hrun
  injection hended with hfirst hsecond
  exact ⟨s, hs, hfirst, hsecond, login_handoff_is_one_shot id id twoClients s hs⟩

end Chainloop.Login
