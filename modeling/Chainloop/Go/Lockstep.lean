import Chainloop.Go.Errors

namespace Chainloop.Go

variable {ε α β γ δ : Type}

-- Two computations that fail with the same error, or return related values.
inductive Lockstep (R : α → β → Prop) : Except ε α → Except ε β → Prop where
  | ok {a : α} {b : β} : R a b → Lockstep R (.ok a) (.ok b)
  | error (e : ε) : Lockstep R (.error e) (.error e)

namespace Lockstep

variable {R : α → β → Prop} {S : γ → δ → Prop}

theorem of_eq_ok (h : Lockstep R x y) (hx : x = .ok a) : ∃ b, y = .ok b ∧ R a b := by
  subst hx
  cases h with
  | ok hab => exact ⟨_, rfl, hab⟩

theorem of_eq_ok_right (h : Lockstep R x y) (hy : y = .ok b) : ∃ a, x = .ok a ∧ R a b := by
  subst hy
  cases h with
  | ok hab => exact ⟨_, rfl, hab⟩

theorem refl (x : Except ε α) : Lockstep Eq x x := by
  cases x with
  | error e => exact .error e
  | ok a => exact .ok rfl

theorem bind (h : Lockstep R x y) (hfg : ∀ a b, R a b → Lockstep S (f a) (g b)) :
    Lockstep S (x >>= f) (y >>= g) := by
  cases h with
  | ok hab => exact hfg _ _ hab
  | error e => exact .error e

theorem map (h : Lockstep R x y) (hfg : ∀ a b, R a b → S (f a) (g b)) :
    Lockstep S (f <$> x) (g <$> y) := by
  cases h with
  | ok hab => exact .ok (hfg _ _ hab)
  | error e => exact .error e

theorem wrapErr (context : String) (h : Lockstep R x y) :
    Lockstep R (Go.wrapErr context x) (Go.wrapErr context y) := by
  cases h with
  | ok hab => exact .ok hab
  | error e => exact .error _

theorem ite [Decidable p] (h : p → Lockstep R x y) (h' : ¬ p → Lockstep R x' y') :
    Lockstep R (if p then x else x') (if p then y else y') := by
  split_ifs with hp
  · exact h hp
  · exact h' hp

theorem foldlM (hstep : ∀ a b c, R a b → Lockstep R (f a c) (g b c)) :
    ∀ {l : List γ} {a : α} {b : β}, R a b → Lockstep R (l.foldlM f a) (l.foldlM g b)
  | [], _, _, h => .ok h
  | c :: rest, a, b, h => by
    rw [List.foldlM_cons, List.foldlM_cons]
    exact (hstep a b c h).bind fun _ _ h' => foldlM hstep h'

end Lockstep

end Chainloop.Go
