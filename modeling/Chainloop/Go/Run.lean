import Chainloop.Go.Errors
import Chainloop.Go.Strings

namespace Chainloop.Go

inductive Failure where
  | error (e : GoError)
  | panic
deriving DecidableEq

abbrev Run (α : Type) := Except Failure α

namespace Run

variable {α : Type}

def ofExcept (r : Except GoError α) : Run α := r.mapError .error

-- fmt.Errorf("<context>: %w", err) around a call. A panic passes through.
def wrapErr (context : String) (r : Run α) : Run α :=
  r.mapError fun
    | .error e => .error (e.wrap context)
    | .panic => .panic

def index (l : List α) (i : Nat) : Run α :=
  match l[i]? with
  | some a => .ok a
  | none => .error .panic

@[simp] theorem ofExcept_ok (a : α) : ofExcept (.ok a) = .ok a := rfl

@[simp] theorem ofExcept_eq_ok (r : Except GoError α) (a : α) : ofExcept r = .ok a ↔ r = .ok a := by
  cases r <;> simp [ofExcept, Except.mapError]

@[simp] theorem wrapErr_ok (context : String) (a : α) : wrapErr context (.ok a) = .ok a := rfl

@[simp] theorem wrapErr_eq_ok (context : String) (r : Run α) (a : α) :
    wrapErr context r = .ok a ↔ r = .ok a := by
  cases r <;> simp [wrapErr, Except.mapError]

theorem foldlM_eq_panic_iff {β : Type} {f : β → α → Run β} (P : α → Prop) {l : List α}
    (hpanic : ∀ a ∈ l, ∀ b, P a → f b a = .error .panic)
    (hok : ∀ a ∈ l, ∀ b, ¬ P a → ∃ b', f b a = .ok b') (b : β) :
    l.foldlM f b = .error .panic ↔ ∃ a ∈ l, P a := by
  induction l generalizing b with
  | nil => simp [pure, Except.pure]
  | cons a rest ih =>
    rw [List.foldlM_cons]
    by_cases ha : P a
    · rw [hpanic a (by simp) b ha]
      simp [bind, Except.bind, ha]
    · obtain ⟨b', hb'⟩ := hok a (by simp) b ha
      have hrest := ih (fun a ha => hpanic a (by simp [ha])) (fun a ha => hok a (by simp [ha])) b'
      rw [hb']
      simpa [bind, Except.bind, ha] using hrest

theorem foldlM_exists_ok {β : Type} {f : β → α → Run β} {l : List α}
    (hok : ∀ a ∈ l, ∀ b, ∃ b', f b a = .ok b') (b : β) : ∃ r, l.foldlM f b = .ok r := by
  induction l generalizing b with
  | nil => exact ⟨b, rfl⟩
  | cons a rest ih =>
    obtain ⟨b', hb'⟩ := hok a (by simp) b
    obtain ⟨r, hr⟩ := ih (fun a ha => hok a (by simp [ha])) b'
    refine ⟨r, ?_⟩
    rw [List.foldlM_cons, hb']
    exact hr

end Run

end Chainloop.Go
