import Chainloop.Go.Uuid
import Chainloop.Steps.Schedule

namespace Chainloop.Login

open Go Option Function

variable {codeHash : String}

abbrev Time := Nat
abbrev Duration := Int

def second : Nat := 1000000000

def loginHandoffTTL : Nat := 60 * second

structure LoginHandoff where
  userID : UUID
  tokenTTL : Duration
  codeChallenge : String
  callback : String
  expiresAt : Time
deriving DecidableEq

structure Row where
  userID : UUID
  tokenTTLSeconds : Int
  codeChallenge : String
  callback : String
  expiresAt : Time
  usedAt : Option Time
deriving DecidableEq

def entLoginHandoffToBiz (row : Row) : LoginHandoff :=
  ⟨row.userID, row.tokenTTLSeconds * second, row.codeChallenge, row.callback, row.expiresAt⟩

inductive Reason where
  | unknown
  | expired
  | alreadyUsed
  | wrongVerifier
  | wrongCallback
deriving DecidableEq

inductive ExchangeError where
  | loginHandoffExchange (reason : Reason)
  | consuming (e : GoError)
deriving DecidableEq

def isUnreserved (c : Char) : Bool := c.isAlphanum || c == '-' || c == '.' || c == '_' || c == '~'

-- The unpadded base64url text of a digest always has this length.
def validS256Challenge (challenge : String) : Bool :=
  challenge.length = 43 ∧ challenge.toList.all fun c => c.isAlphanum || c == '-' || c == '_'

def validVerifier (verifier : String) : Bool :=
  43 ≤ verifier.length ∧ verifier.length ≤ 128 ∧ verifier.toList.all isUnreserved

structure Attempt where
  code : String
  codeVerifier : String
  callback : String
  -- the clock when the attempt began
  now : Time
deriving DecidableEq

-- An attempt between its two statements, and one that has ended.
inductive Stage where
  | begun
  | marked (consumed : Bool)
  | ended (result : Except ExchangeError LoginHandoff)

structure System where
  rows : String → Option Row
  -- what every code handed out so far was issued with
  issued : String → Option LoginHandoff
  attempts : Nat → Option (Attempt × Stage)

def start : System := ⟨fun _ => none, fun _ => none, fun _ => none⟩

-- The statements that reach the database and the steps between them. A statement that
-- reports an error may have taken effect.
inductive Event where
  | issue (code userID : String) (tokenTTL : Duration) (codeChallenge callback : String) (now : Time)
  | begin (k : Nat) (attempt : Attempt)
  | mark (k : Nat)
  | markFails (k : Nat) (applied : Bool) (e : GoError)
  | find (k : Nat)
  | findFails (k : Nat) (e : GoError)
  | sweep (before : Time)

section Model

variable (sha256Hex s256ChallengeFromVerifier : String → String)

def verifyS256 (verifier challenge : String) : Bool :=
  validVerifier verifier && s256ChallengeFromVerifier verifier == challenge

-- The update that Consume starts with: a code that is not used yet is marked. The second
-- part tells if a row was updated.
def System.markUsed (s : System) (codeHash : String) (at_ : Time) : System × Bool :=
  match s.rows codeHash with
  | some row =>
    match row.usedAt with
    | none => ({ s with rows := update s.rows codeHash (some { row with usedAt := some at_ }) }, true)
    | some _ => (s, false)
  | none => (s, false)

def judge (attempt : Attempt) (consumed : Bool) : Option Row → Except ExchangeError LoginHandoff
  | none => .error (.loginHandoffExchange .unknown)
  | some row =>
    let h := entLoginHandoffToBiz row
    if !consumed then .error (.loginHandoffExchange .alreadyUsed)
    else if ¬ attempt.now < h.expiresAt then .error (.loginHandoffExchange .expired)
    else if !verifyS256 s256ChallengeFromVerifier attempt.codeVerifier h.codeChallenge then
      .error (.loginHandoffExchange .wrongVerifier)
    else if attempt.callback ≠ h.callback then .error (.loginHandoffExchange .wrongCallback)
    else .ok h

def System.reach (s : System) (k : Nat) (attempt : Attempt) (stage : Stage) : System :=
  { s with attempts := update s.attempts k (some (attempt, stage)) }

-- Codes are 256 random bits: the one of an Issue was not handed out before.
def System.issue (s : System) (code userID : String) (tokenTTL : Duration)
    (codeChallenge callback : String) (now : Time) : Option System := do
  let user ← UUID.parse userID
  if !validS256Challenge codeChallenge then none
  else if callback = "" then none
  else if (s.issued (sha256Hex code)).isSome then none
  else
    let row : Row :=
      ⟨user, tokenTTL.tdiv second, codeChallenge, callback, now + loginHandoffTTL, none⟩
    some { s with
      rows := update s.rows (sha256Hex code) (some row)
      issued := update s.issued (sha256Hex code) (some (entLoginHandoffToBiz row)) }

def System.step (s : System) : Event → Option System
  | .issue code userID tokenTTL codeChallenge callback now =>
    s.issue sha256Hex code userID tokenTTL codeChallenge callback now
  | .begin k attempt =>
    match s.attempts k with
    | none => some (s.reach k attempt .begun)
    | some _ => none
  | .mark k =>
    match s.attempts k with
    | some (attempt, .begun) =>
      let (s, consumed) := s.markUsed (sha256Hex attempt.code) attempt.now
      some (s.reach k attempt (.marked consumed))
    | _ => none
  | .markFails k applied e =>
    match s.attempts k with
    | some (attempt, .begun) =>
      let s := if applied then (s.markUsed (sha256Hex attempt.code) attempt.now).1 else s
      some (s.reach k attempt (.ended (.error (.consuming e))))
    | _ => none
  | .find k =>
    match s.attempts k with
    | some (attempt, .marked consumed) =>
      let row := s.rows (sha256Hex attempt.code)
      some (s.reach k attempt (.ended (judge s256ChallengeFromVerifier attempt consumed row)))
    | _ => none
  | .findFails k e =>
    match s.attempts k with
    | some (attempt, .marked _) => some (s.reach k attempt (.ended (.error (.consuming e))))
    | _ => none
  | .sweep before =>
    some { s with rows := fun codeHash => (s.rows codeHash).filter fun row => ¬ row.expiresAt < before }

-- A code that was issued and whose row, if a sweep has left it, is marked.
def System.Spent (s : System) (codeHash : String) : Prop :=
  (s.issued codeHash).isSome ∧ ∀ row, s.rows codeHash = some row → row.usedAt.isSome

-- The stages only the attempt that marked the code can be in.
def Stage.consumed : Stage → Bool
  | .marked consumed => consumed
  | .ended (.ok _) => true
  | .begun | .ended (.error _) => false

structure Attempt.Fits (attempt : Attempt) (h : LoginHandoff) : Prop where
  inTime : attempt.now < h.expiresAt
  verifier : verifyS256 s256ChallengeFromVerifier attempt.codeVerifier h.codeChallenge = true
  callback : attempt.callback = h.callback

theorem judge_eq_ok {attempt : Attempt} {consumed : Bool} {row : Option Row} {h : LoginHandoff}
    (hok : judge s256ChallengeFromVerifier attempt consumed row = .ok h) :
    consumed = true ∧ row.map entLoginHandoffToBiz = some h ∧
      attempt.Fits s256ChallengeFromVerifier h := by
  cases row with
  | none => cases hok
  | some row =>
    simp only [judge] at hok
    split at hok
    · cases hok
    split at hok
    · cases hok
    split at hok
    · cases hok
    split at hok
    · cases hok
    rename_i hconsumed htime hverifier hcallback
    cases hok
    exact ⟨by simpa using hconsumed, rfl, not_not.mp htime, by simpa using hverifier,
      not_not.mp hcallback⟩

-- What every step keeps: a code stays issued with the same handoff and stays spent, and the
-- rows are those that were issued.
structure Keeps (s s' : System) : Prop where
  issued : ∀ codeHash h, s.issued codeHash = some h → s'.issued codeHash = some h
  spent : ∀ codeHash, s.Spent codeHash → s'.Spent codeHash
  rows : (∀ codeHash row, s.rows codeHash = some row →
      s.issued codeHash = some (entLoginHandoffToBiz row)) →
    ∀ codeHash row, s'.rows codeHash = some row → s'.issued codeHash = some (entLoginHandoffToBiz row)

theorem Keeps.refl (s : System) : Keeps s s := ⟨fun _ _ h => h, fun _ h => h, fun h => h⟩

section Rows

variable {s s' : System}

inductive Marks (s : System) (codeHash : String) (at_ : Time) : System × Bool → Prop where
  | marked (row : Row) (hrow : s.rows codeHash = some row) (hunused : row.usedAt = none) :
      Marks s codeHash at_ ({ s with
        rows := update s.rows codeHash (some { row with usedAt := some at_ }) }, true)
  | idle (hused : ∀ row, s.rows codeHash = some row → row.usedAt.isSome) :
      Marks s codeHash at_ (s, false)

theorem System.markUsed_marks (s : System) (codeHash : String) (at_ : Time) :
    Marks s codeHash at_ (s.markUsed codeHash at_) := by
  unfold System.markUsed
  cases hrow : s.rows codeHash with
  | none => exact .idle fun row h => by rw [hrow] at h; cases h
  | some row =>
    cases hused : row.usedAt with simp only [hused]
    | none =>
      exact .marked row hrow hused
    | some at' =>
      refine .idle fun other hother => ?_
      obtain rfl : row = other := some.inj (hrow.symm.trans hother)
      rw [hused]
      rfl

variable {consumed : Bool} {at_ : Time}

theorem Marks.attempts
    (h : Marks s codeHash at_ (s', consumed)) : s'.attempts = s.attempts := by
  cases h <;> rfl

theorem Marks.issued (h : Marks s codeHash at_ (s', consumed)) : s'.issued = s.issued := by
  cases h <;> rfl

theorem Marks.rows
    (h : Marks s codeHash at_ (s', consumed)) {other : String} {row : Row}
    (hrow : s'.rows other = some row) :
    ∃ before, s.rows other = some before ∧ entLoginHandoffToBiz row = entLoginHandoffToBiz before ∧
      (before.usedAt.isSome → row.usedAt.isSome) ∧ (other = codeHash → row.usedAt.isSome) := by
  cases h with
  | idle hused => exact ⟨row, hrow, rfl, id, fun hsame => hused row (hsame ▸ hrow)⟩
  | marked before hbefore hunused =>
    by_cases hother : other = codeHash
    · subst other
      simp only [update_self, some.injEq] at hrow
      subst row
      exact ⟨before, hbefore, rfl, fun _ => rfl, fun _ => rfl⟩
    · simp only [update_of_ne hother] at hrow
      exact ⟨row, hrow, rfl, id, fun hsame => absurd hsame hother⟩

theorem Marks.spent
    (h : Marks s codeHash at_ (s', consumed)) (other : String)
    (hissued : (s.issued other).isSome) (hspent : other = codeHash ∨ s.Spent other) : s'.Spent other := by
  refine ⟨h.issued ▸ hissued, fun row hrow => ?_⟩
  obtain ⟨before, hbefore, -, hkept, hmarked⟩ := h.rows hrow
  rcases hspent with hsame | hspent
  · exact hmarked hsame
  · exact hkept (hspent.2 before hbefore)

theorem Marks.keeps
    (h : Marks s codeHash at_ (s', consumed)) : Keeps s s' where
  issued _ _ hissued := h.issued ▸ hissued
  spent other hspent := h.spent other hspent.1 (.inr hspent)
  rows hrows other row hrow := by
    obtain ⟨before, hbefore, hbiz, -, -⟩ := h.rows hrow
    rw [h.issued, hbiz]
    exact hrows other before hbefore

theorem keeps_sweep (s : System) (before : Time) : Keeps s { s with
    rows := fun codeHash => (s.rows codeHash).filter fun row => ¬ row.expiresAt < before } where
  issued _ _ hissued := hissued
  spent _ hspent := ⟨hspent.1, fun row hrow => hspent.2 row (filter_eq_some_iff.mp hrow).1⟩
  rows hrows codeHash row hrow := hrows codeHash row (filter_eq_some_iff.mp hrow).1

theorem System.issue_eq_some {sha256Hex : String → String} {code userID : String} {tokenTTL : Duration}
    {codeChallenge callback : String} {now : Time}
    (h : s.issue sha256Hex code userID tokenTTL codeChallenge callback now = some s') :
    ∃ row : Row, s.issued (sha256Hex code) = none ∧ row.expiresAt = now + loginHandoffTTL ∧
      row.codeChallenge = codeChallenge ∧ row.callback = callback ∧
      s' = { s with
        rows := update s.rows (sha256Hex code) (some row)
        issued := update s.issued (sha256Hex code) (some (entLoginHandoffToBiz row)) } := by
  obtain ⟨user, -, h⟩ := bind_eq_some_iff.mp h
  simp only [ite_none_left_eq_some, some.injEq] at h
  obtain ⟨-, -, hnew, rfl⟩ := h
  exact ⟨⟨user, _, codeChallenge, callback, _, none⟩, by simpa using hnew, rfl, rfl, rfl, rfl⟩

theorem keeps_issue (hnew : s.issued codeHash = none) (row : Row) : Keeps s { s with
      rows := update s.rows codeHash (some row)
      issued := update s.issued codeHash (some (entLoginHandoffToBiz row)) } := by
  have hother : ∀ other, (s.issued other).isSome → other ≠ codeHash := by
    rintro other hissued rfl
    rw [hnew] at hissued
    cases hissued
  refine ⟨fun other handoff hissued => ?_, fun other hspent => ?_, fun hrows other found hfound => ?_⟩
  · have hne := hother other (by rw [hissued]; rfl)
    simpa only [update_of_ne hne] using hissued
  · have hne := hother other hspent.1
    simpa only [System.Spent, update_of_ne hne] using hspent
  · by_cases hsame : other = codeHash
    · subst other
      simp only [update_self, some.injEq] at hfound ⊢
      rw [hfound]
    · simp only [update_of_ne hsame] at hfound ⊢
      exact hrows other found hfound

theorem Keeps.reach (h : Keeps s s') (k : Nat) (attempt : Attempt) (stage : Stage) :
    Keeps s (s'.reach k attempt stage) :=
  ⟨h.issued, h.spent, h.rows⟩

end Rows

theorem System.reach_attempts (s : System) (k l : Nat) (attempt : Attempt) (stage : Stage) :
    (s.reach k attempt stage).attempts l = if l = k then some (attempt, stage) else s.attempts l := by
  simp [System.reach, update_apply]

section Steps

variable {sha256Hex s256ChallengeFromVerifier : String → String} {s s' : System} {e : Event}

theorem System.step_keeps (hstep : s.step sha256Hex s256ChallengeFromVerifier e = some s') :
    Keeps s s' := by
  cases e with simp only [System.step] at hstep
  | issue code userID tokenTTL codeChallenge callback now =>
    obtain ⟨row, hnew, -, -, -, rfl⟩ := System.issue_eq_some hstep
    exact keeps_issue hnew row
  | begin k attempt =>
    split at hstep <;> cases hstep
    exact (Keeps.refl s).reach k attempt _
  | mark k =>
    split at hstep <;> cases hstep
    rename_i attempt hk
    exact (s.markUsed_marks _ _).keeps.reach k attempt _
  | markFails k applied err =>
    split at hstep <;> cases hstep
    rename_i attempt hk
    refine Keeps.reach ?_ k attempt _
    split
    · exact (s.markUsed_marks _ _).keeps
    · exact Keeps.refl s
  | find k =>
    split at hstep <;> cases hstep
    exact (Keeps.refl s).reach k _ _
  | findFails k err =>
    split at hstep <;> cases hstep
    exact (Keeps.refl s).reach k _ _
  | sweep before =>
    cases hstep
    exact keeps_sweep s before

-- What one step makes of an attempt. Only an update that marks a row lets it win, and only
-- the query after that update lets it succeed.
inductive Advance (sha256Hex s256ChallengeFromVerifier : String → String) (s s' : System) (k : Nat) :
    Event → Prop where
  | same (e : Event) (h : s'.attempts k = s.attempts k) :
      Advance sha256Hex s256ChallengeFromVerifier s s' k e
  | lost (e : Event) (attempt : Attempt) (stage : Stage) (h : s'.attempts k = some (attempt, stage))
      (hstage : stage.consumed = false) : Advance sha256Hex s256ChallengeFromVerifier s s' k e
  | won (attempt : Attempt) (row : Row) (hrow : s.rows (sha256Hex attempt.code) = some row)
      (hunused : row.usedAt = none) (hspent : (s.issued (sha256Hex attempt.code)).isSome →
        s'.Spent (sha256Hex attempt.code)) (h : s'.attempts k = some (attempt, .marked true)) :
      Advance sha256Hex s256ChallengeFromVerifier s s' k (.mark k)
  | exchanged (attempt : Attempt) (row : Row) (hbefore : s.attempts k = some (attempt, .marked true))
      (hrow : s.rows (sha256Hex attempt.code) = some row)
      (hfits : attempt.Fits s256ChallengeFromVerifier (entLoginHandoffToBiz row))
      (h : s'.attempts k = some (attempt, .ended (.ok (entLoginHandoffToBiz row)))) :
      Advance sha256Hex s256ChallengeFromVerifier s s' k (.find k)

theorem System.step_advance (hstep : s.step sha256Hex s256ChallengeFromVerifier e = some s') (k : Nat) :
    Advance sha256Hex s256ChallengeFromVerifier s s' k e := by
  cases e with simp only [System.step] at hstep
  | issue code userID tokenTTL codeChallenge callback now =>
    obtain ⟨row, -, -, -, -, rfl⟩ := System.issue_eq_some hstep
    exact .same _ rfl
  | begin l attempt =>
    split at hstep <;> cases hstep
    have hreach := s.reach_attempts l k attempt .begun
    split at hreach
    · exact .lost _ attempt _ hreach rfl
    · exact .same _ hreach
  | mark l =>
    split at hstep <;> cases hstep
    rename_i attempt hl
    have hmarks := s.markUsed_marks (sha256Hex attempt.code) attempt.now
    generalize s.markUsed (sha256Hex attempt.code) attempt.now = marked at hmarks
    obtain ⟨next, consumed⟩ := marked
    have hreach := next.reach_attempts l k attempt (.marked consumed)
    split at hreach
    · subst k
      have hspent := hmarks.spent (sha256Hex attempt.code)
      cases hmarks with
      | idle => exact .lost _ attempt _ hreach rfl
      | marked row hrow hunused =>
        exact .won attempt row hrow hunused (fun hissued => hspent hissued (.inl rfl)) hreach
    · exact .same _ (hreach.trans (congrFun hmarks.attempts k))
  | markFails l applied err =>
    split at hstep <;> cases hstep
    rename_i attempt hl
    generalize hnext : (if applied = true then (s.markUsed (sha256Hex attempt.code) attempt.now).1
      else s) = next
    have hattempts : next.attempts = s.attempts := by
      subst next
      split
      · exact (s.markUsed_marks _ _).attempts
      · rfl
    have hreach := next.reach_attempts l k attempt (.ended (.error (.consuming err)))
    split at hreach
    · exact .lost _ attempt _ hreach rfl
    · exact .same _ (hreach.trans (congrFun hattempts k))
  | find l =>
    split at hstep <;> cases hstep
    rename_i attempt consumed hl
    generalize hjudge : judge s256ChallengeFromVerifier attempt consumed
      (s.rows (sha256Hex attempt.code)) = result
    have hreach := s.reach_attempts l k attempt (.ended result)
    split at hreach
    · subst k
      cases result with
      | error err => exact .lost _ attempt _ hreach rfl
      | ok handoff =>
        obtain ⟨rfl, hbiz, hfits⟩ := judge_eq_ok s256ChallengeFromVerifier hjudge
        obtain ⟨row, hrow, rfl⟩ := map_eq_some_iff.mp hbiz
        exact .exchanged attempt row hl hrow hfits hreach
    · exact .same _ hreach
  | findFails l err =>
    split at hstep <;> cases hstep
    rename_i attempt consumed hl
    have hreach := s.reach_attempts l k attempt (.ended (.error (.consuming err)))
    split at hreach
    · exact .lost _ attempt _ hreach rfl
    · exact .same _ hreach
  | sweep before =>
    cases hstep
    exact .same _ rfl

end Steps

end Model

end Chainloop.Login
