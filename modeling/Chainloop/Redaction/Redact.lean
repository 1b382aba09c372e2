import Chainloop.Redaction.Decode
import Chainloop.Redaction.Leaf

namespace Chainloop.Redaction

open Go Json

structure Finding where
  ruleID : Chars
  secret : Chars
deriving DecidableEq

-- A scanner is a function of the text, so one that is bound to a document finds the
-- same.
abbrev Scanner := Chars → Except GoError (List Finding)

abbrev OpaqueFilter := Chars → List (Chars × Value) → Chars → Bool

structure Redactor where
  scanner : Option Scanner
  pathFilter : Chars → Bool
  opaqueFilter : Option OpaqueFilter
  maxPasses : Nat
  placeholder : Chars → Chars
  isPlaceholder : Chars → Bool
  allowMarkers : Bool

-- What New builds without options.
def Redactor.new (scanner : Scanner) : Redactor where
  scanner := some scanner
  pathFilter := fun _ => true
  opaqueFilter := none
  maxPasses := 4
  placeholder := defaultPlaceholder
  isPlaceholder := isDefaultPlaceholder
  allowMarkers := false

structure Report where
  replacements : Nat
  byRule : Map Chars Nat
  unlocated : Map Chars Nat
  allowed : Map Chars Nat
  passes : Nat
deriving DecidableEq

def Report.empty : Report := ⟨0, .empty, .empty, .empty, 0⟩

-- The order of sort.Slice: longest first, then by text.
def SecretRule.before (a b : SecretRule) : Prop :=
  len b.secret < len a.secret ∨ len a.secret = len b.secret ∧ a.secret < b.secret

instance : DecidableRel SecretRule.before := fun a b =>
  inferInstanceAs (Decidable (len b.secret < len a.secret ∨
    len a.secret = len b.secret ∧ a.secret < b.secret))

-- The secrets of the findings that are still to be chased, each with the rule of
-- its first finding.
def chased (skip : List Chars) (isPlaceholder : Chars → Bool) (out : List SecretRule) (f : Finding) :
    List SecretRule :=
  let secret := trimPartialEscape f.secret
  if secret.isEmpty then out
  else if skip.contains secret then out
  else if isPlaceholder secret then out
  else if (out.map SecretRule.secret).contains secret then out
  else out ++ [⟨secret, f.ruleID⟩]

def pendingSecrets (findings : List Finding) (skip : List Chars) (isPlaceholder : Chars → Bool) :
    List SecretRule :=
  (findings.foldl (chased skip isPlaceholder) []).insertionSort SecretRule.before

-- The opaque string leaves are taken out of the tree. The filter sees the object as
-- it is when its turn comes, with the leaves before this one already taken out.
mutual

def detachOpaque (isOpaque : OpaqueFilter) : Value → Chars → Value
  | .obj ms, path => .obj (detachMembers isOpaque [] ms path)
  | .arr vs, path => .arr (detachItems isOpaque vs 0 path)
  | v, _ => v

def detachMembers (isOpaque : OpaqueFilter) (done : List (Chars × Value)) :
    List (Chars × Value) → Chars → List (Chars × Value)
  | [], _ => done
  | (k, .str s) :: ms, path =>
    let taken := !s.isEmpty && isOpaque path (blankMembers (done ++ (k, .str s) :: ms)) k
    detachMembers isOpaque (done ++ [(k, if taken then .detached s else .str s)]) ms path
  | (k, v) :: ms, path =>
    detachMembers isOpaque (done ++ [(k, detachOpaque isOpaque v (keyPath path k))]) ms path

def detachItems (isOpaque : OpaqueFilter) : List Value → Nat → Chars → List Value
  | [], _, _ => []
  | v :: vs, i, path => detachOpaque isOpaque v (indexPath path i) :: detachItems isOpaque vs (i + 1) path

end

-- A detached leaf is an empty string, in which nothing occurs.
mutual

def Rewriter.rewrite (w : Rewriter) : Value → Chars → Tally → Value × Tally
  | .obj ms, path, t =>
    let (ms, t) := w.rewriteMap ms path t
    (.obj ms, t)
  | .arr vs, path, t =>
    let (vs, t) := w.rewriteItems vs 0 path t
    (.arr vs, t)
  | .str s, path, t =>
    let (s, t) := w.redactLeaf s path t
    (.str s, t)
  | v, _, t => (v, t)

def Rewriter.rewriteMap (w : Rewriter) :
    List (Chars × Value) → Chars → Tally → List (Chars × Value) × Tally
  | [], _, t => ([], t)
  | (k, v) :: ms, path, t =>
    let (v, t) := w.rewrite v (keyPath path k) t
    let (ms, t) := w.rewriteMap ms path t
    ((k, v) :: ms, t)

def Rewriter.rewriteItems (w : Rewriter) : List Value → Nat → Chars → Tally → List Value × Tally
  | [], _, _, t => ([], t)
  | v :: vs, i, path, t =>
    let (v, t) := w.rewrite v (indexPath path i) t
    let (vs, t) := w.rewriteItems vs (i + 1) path t
    (v :: vs, t)

end

structure LoopState where
  root : Value
  skip : List Chars
  report : Report

def settle (w : Tally) (state : List Chars × Map Chars Nat) (s : SecretRule) : List Chars × Map Chars Nat :=
  let located := w.located.contains s.secret
  let kept := w.kept.contains s.secret
  if w.protectedIn.contains s.secret || (!located && !kept) then
    (state.1.insert s.secret, bump state.2 s.ruleID 1)
  else if kept then (state.1.insert s.secret, state.2)
  else state

def Redactor.rewriter (r : Redactor) (secrets : List SecretRule) : Rewriter :=
  ⟨r.pathFilter, r.placeholder, r.allowMarkers, secrets⟩

def addCounts (m counts : Map Chars Nat) : Map Chars Nat :=
  counts.entries.foldl (fun m e => bump m e.1 e.2) m

def Redactor.pending (r : Redactor) (scan : Scanner) (st : LoopState) :
    Except GoError (List SecretRule) := do
  let findings ← wrapErr "scanning for secrets" (scan (encode st.root true))
  return pendingSecrets findings st.skip r.isPlaceholder

-- The rewrite of a pass. It has converged when nothing could be rewritten.
def Redactor.chase (r : Redactor) (pass : Nat) (secrets : List SecretRule) (st : LoopState) :
    Bool × LoopState :=
  let (root, w) := (r.rewriter secrets).rewrite st.root [] .empty
  let (skip, unlocated) := secrets.foldl (settle w) (st.skip, st.report.unlocated)
  (w.count == 0,
    { root, skip
      report :=
        { replacements := st.report.replacements + w.count
          byRule := addCounts st.report.byRule w.byRule
          unlocated
          allowed := addCounts st.report.allowed w.allowed
          passes := pass } })

def Redactor.pass (r : Redactor) (scan : Scanner) (pass : Nat) (st : LoopState) :
    Except GoError (Bool × LoopState) := do
  let secrets ← r.pending scan st
  if secrets.isEmpty then return (true, { st with report := { st.report with passes := pass } })
  else return r.chase pass secrets st

def errNotConverged (maxPasses : Nat) : GoError :=
  ⟨"secret redaction did not converge after " ++ toString maxPasses ++
    " passes: a placeholder is likely being detected as a secret", [.notConverged]⟩

def Redactor.passes (r : Redactor) (scan : Scanner) : Nat → Nat → LoopState → Except GoError LoopState
  | 0, _, _ => .error (errNotConverged r.maxPasses)
  | left + 1, pass, st => do
    let (converged, st) ← r.pass scan pass st
    if converged then return st else r.passes scan left (pass + 1) st

def Redactor.start (r : Redactor) (root : Value) : LoopState where
  root := match r.opaqueFilter with
    | none => root
    | some isOpaque => detachOpaque isOpaque root []
  skip := []
  report := .empty

def Redactor.redact (r : Redactor) (doc : Chars) : Except GoError (Chars × Report) :=
  match r.scanner with
  | none => .error (.new "no scanner configured")
  | some scan => do
    let root ← decodeObject doc
    let st ← r.passes scan r.maxPasses 1 (r.start root)
    if st.report.replacements = 0 then return (doc, st.report)
    else return (encode (restore st.root) false, st.report)

-- Putting the opaque leaves back undoes taking them out.
mutual

theorem restore_detachOpaque (isOpaque : OpaqueFilter) :
    ∀ (v : Value) (path : Chars), restore (detachOpaque isOpaque v path) = restore v
  | .obj ms, path => congrArg Value.obj (restoreMembers_detachMembers isOpaque [] ms path)
  | .arr vs, path => congrArg Value.arr (restoreItems_detachItems isOpaque vs 0 path)
  | .str _, _ | .detached _, _ | .num _, _ | .bool _, _ | .null, _ => rfl

theorem restoreMembers_detachMembers (isOpaque : OpaqueFilter) :
    ∀ (done ms : List (Chars × Value)) (path : Chars),
      restoreMembers (detachMembers isOpaque done ms path) = restoreMembers done ++ restoreMembers ms
  | done, [], _ => by rw [detachMembers, restoreMembers, List.append_nil]
  | done, (k, v) :: ms, path => by
    have hv := restore_detachOpaque isOpaque v (keyPath path k)
    have hms := fun done => restoreMembers_detachMembers isOpaque done ms path
    have hstep : ∃ v', restore v' = restore v ∧ detachMembers isOpaque done ((k, v) :: ms) path
        = detachMembers isOpaque (done ++ [(k, v')]) ms path := by
      cases v with
      | str s =>
        refine ⟨_, ?_, rfl⟩
        by_cases htaken :
            (!s.isEmpty && isOpaque path (blankMembers (done ++ (k, .str s) :: ms)) k) = true
        · rw [if_pos htaken]
          rfl
        · rw [if_neg htaken]
      | _ => exact ⟨_, hv, rfl⟩
    obtain ⟨v', hv', hrun⟩ := hstep
    rw [hrun, hms, restoreMembers_append, restoreMembers, restoreMembers, restoreMembers, hv']
    simp

theorem restoreItems_detachItems (isOpaque : OpaqueFilter) :
    ∀ (vs : List Value) (i : Nat) (path : Chars),
      restoreItems (detachItems isOpaque vs i path) = restoreItems vs
  | [], _, _ => rfl
  | v :: vs, i, path => by
    rw [detachItems, restoreItems, restoreItems, restore_detachOpaque isOpaque v,
      restoreItems_detachItems isOpaque vs]

end

theorem restore_start (r : Redactor) (h : WellFormed root) : restore (r.start root).root = root := by
  unfold Redactor.start
  cases r.opaqueFilter with
  | none => exact h.restore_eq
  | some isOpaque => exact (restore_detachOpaque isOpaque root []).trans h.restore_eq

end Chainloop.Redaction
