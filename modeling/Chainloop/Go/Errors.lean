import Mathlib.Data.List.Forall2

namespace Chainloop.Go

open List Option Except

-- The error values that callers look for with errors.Is or errors.As.
inductive ErrorKind where
  | policy
  | uploadAndCraft
  | stateConflict
  | validation
  | blockedTarget
  | notConverged
  | unauthorized
  | ambiguousReferrer
  | clientDisconnect
  | archiveTooLarge
  | noRecords
  | invalidReport
  | noReports
  | noBuildLog
deriving DecidableEq

-- An error with its text and the kinds found along its chain of wrapped errors.
structure GoError where
  message : String
  kinds : List ErrorKind
deriving DecidableEq

namespace GoError

def new (message : String) : GoError := ⟨message, []⟩

def wrap (context : String) (e : GoError) : GoError := ⟨context ++ ": " ++ e.message, e.kinds⟩

-- errors.Is and errors.As
def is (e : GoError) (kind : ErrorKind) : Bool := e.kinds.contains kind

-- The errors of pkg/biz.
def notFound (entity : String) : GoError := ⟨entity ++ " not found", []⟩

def validation (e : GoError) : GoError := ⟨"validation error: " ++ e.message, .validation :: e.kinds⟩

def validationStr (message : String) : GoError := validation (new message)

def unauthorizedStr (message : String) : GoError := ⟨"authorization error: " ++ message, [.unauthorized]⟩

end GoError

-- fmt.Errorf applied to the error of a call, the value passing through.
def wrapErr {α : Type} (context : String) (r : Except GoError α) : Except GoError α :=
  r.mapError (GoError.wrap context)

@[simp] theorem wrapErr_eq_ok {α : Type} (context : String) (r : Except GoError α) (a : α) :
    wrapErr context r = .ok a ↔ r = .ok a := by
  cases r <;> simp [wrapErr, Except.mapError]

section ExceptLemmas

variable {ε α β : Type} {x : Except ε α}

theorem bind_eq_ok : (x >>= f) = .ok b ↔ ∃ a, x = .ok a ∧ f a = .ok b := by
  cases x with
  | error e => simp [bind, Except.bind]
  | ok a => simp [bind, Except.bind]

theorem bind_eq_error : (x >>= f) = .error e ↔ x = .error e ∨ ∃ a, x = .ok a ∧ f a = .error e := by
  cases x with
  | error e' => simp [bind, Except.bind]
  | ok a => simp [bind, Except.bind]

theorem errors_of_bind {f : α → Except ε β} {P : ε → Prop}
    (hx : ∀ e, x = .error e → P e) (hf : ∀ a, x = .ok a → ∀ e, f a = .error e → P e) :
    ∀ e, (x >>= f) = .error e → P e := by
  intro e h
  rcases bind_eq_error.mp h with h | ⟨a, ha, h⟩
  · exact hx e h
  · exact hf a ha e h

theorem mapError_eq_ok {δ : Type} {f : ε → δ} {a : α} : x.mapError f = .ok a ↔ x = .ok a := by
  cases x <;> simp [Except.mapError]

theorem mapError_eq_error {δ : Type} {f : ε → δ} {d : δ} :
    x.mapError f = .error d ↔ ∃ e, x = .error e ∧ f e = d := by
  cases x <;> simp [Except.mapError]

theorem errors_of_mapError {δ : Type} {f : ε → δ} {P : δ → Prop}
    (h : ∀ e, P (f e)) : ∀ d, x.mapError f = .error d → P d := by
  intro d hd
  obtain ⟨e, _, rfl⟩ := mapError_eq_error.mp hd
  exact h e

theorem map_eq_ok : f <$> x = .ok b ↔ ∃ a, x = .ok a ∧ f a = b := by
  cases x <;> simp

theorem guard_eq_ok {p : Prop} [Decidable p] {e : ε} {a : α} :
    (if p then .error e else x) = .ok a ↔ ¬ p ∧ x = .ok a := by
  split
  · rename_i hp
    simp [hp]
  · rename_i hp
    simp [hp]

theorem eq_ok_of_toOption (h : x.toOption = some a) : x = .ok a := by
  cases x with
  | error e => cases h
  | ok b => exact congrArg ok (some.inj h)

theorem exists_ok_of_toOption (h : x.toOption.map f = some b) : ∃ a, x = .ok a ∧ f a = b := by
  cases x with
  | error e => cases h
  | ok a => exact ⟨a, rfl, some.inj h⟩

def errorOf : Except ε α → Option ε
  | .error e => some e
  | .ok _ => none

theorem eq_error_of_errorOf (h : errorOf x = some e) : x = .error e := by
  cases x with
  | error e' => exact congrArg error (some.inj h)
  | ok a => cases h

theorem foldlM_invariant {f : β → α → Except ε β} (I : List α → β → Prop)
    (hstep : ∀ done a b b', I done b → f b a = .ok b' → I (done ++ [a]) b') {rest : List α} :
    ∀ {done : List α} {b r : β}, I done b → rest.foldlM f b = .ok r → I (done ++ rest) r := by
  induction rest with intro done b r hb h
  | nil =>
    cases h
    simpa using hb
  | cons a rest ih =>
    obtain ⟨b', hb', h⟩ := bind_eq_ok.mp h
    simpa using ih (hstep done a b b' hb hb') h

theorem foldlM_keeps {f : β → α → Except ε β} (P : β → Prop)
    (hstep : ∀ a b b', P b → f b a = .ok b' → P b') {l : List α} (hb : P b)
    (h : l.foldlM f b = .ok r) : P r := by
  induction l generalizing b with
  | nil =>
    cases h
    exact hb
  | cons a rest ih =>
    obtain ⟨b', hb', h⟩ := bind_eq_ok.mp h
    exact ih (hstep a b b' hb hb') h

theorem foldlM_eq_error {f : β → α → Except ε β} {l : List α} (h : l.foldlM f b = .error e) :
    ∃ a ∈ l, ∃ b', f b' a = .error e := by
  induction l generalizing b with
  | nil => cases h
  | cons a rest ih =>
    rcases bind_eq_error.mp h with herror | ⟨b', _, h⟩
    · exact ⟨a, mem_cons_self, b, herror⟩
    · obtain ⟨a', hmem, herror⟩ := ih h
      exact ⟨a', mem_cons_of_mem _ hmem, herror⟩

theorem mapM_eq_ok_iff {f : α → Except ε β} {l : List α} :
    l.mapM f = .ok r ↔ List.Forall₂ (fun a b => f a = .ok b) l r := by
  induction l generalizing r with
  | nil =>
    rw [forall₂_nil_left_iff]
    exact ⟨fun h => by cases h; rfl, fun h => by rw [h]; rfl⟩
  | cons a rest ih =>
    rw [mapM_cons, bind_eq_ok, forall₂_cons_left_iff]
    constructor
    · rintro ⟨b, hb, h⟩
      obtain ⟨t, ht, he⟩ := bind_eq_ok.mp h
      cases he
      exact ⟨b, t, hb, ih.mp ht, rfl⟩
    · rintro ⟨b, t, hb, ht, rfl⟩
      refine ⟨b, hb, bind_eq_ok.mpr ⟨t, ih.mpr ht, rfl⟩⟩

theorem mapM_eq_error {f : α → Except ε β} {l : List α} (h : l.mapM f = .error e) :
    ∃ a ∈ l, f a = .error e := by
  induction l with
  | nil => cases h
  | cons a rest ih =>
    rw [mapM_cons] at h
    rcases bind_eq_error.mp h with herror | ⟨b, _, h⟩
    · exact ⟨a, mem_cons_self, herror⟩
    · rcases bind_eq_error.mp h with hrest | ⟨r, _, h⟩
      · obtain ⟨a', hmem, herror⟩ := ih hrest
        exact ⟨a', mem_cons_of_mem _ hmem, herror⟩
      · cases h

theorem exists_mapM_eq_ok {f : α → Except ε β} {l : List α} (h : ∀ a ∈ l, ∃ b, f a = .ok b) :
    ∃ r, l.mapM f = .ok r := by
  cases hr : l.mapM f with
  | ok r => exact ⟨r, rfl⟩
  | error e =>
    obtain ⟨a, ha, he⟩ := mapM_eq_error hr
    obtain ⟨b, hb⟩ := h a ha
    cases he.symm.trans hb

theorem mapM_related {γ : Type} {f : α → Except ε β} {g : α → Except ε γ} {R : γ → β → Prop}
    {l : List α} (h : l.mapM f = .ok r) (hg : ∀ a b, f a = .ok b → ∃ c, g a = .ok c ∧ R c b) :
    ∃ r', l.mapM g = .ok r' ∧ List.Forall₂ R r' r := by
  have hspec := mapM_eq_ok_iff.mp h
  clear h
  induction hspec with
  | nil => exact ⟨[], rfl, .nil⟩
  | cons hfirst _ ih =>
    obtain ⟨c, hc, hR⟩ := hg _ _ hfirst
    obtain ⟨r', hr', hrest⟩ := ih
    refine ⟨c :: r', ?_, .cons hR hrest⟩
    rw [mapM_cons]
    exact bind_eq_ok.mpr ⟨c, hc, bind_eq_ok.mpr ⟨r', hr', rfl⟩⟩

theorem mapM_eq_ok_nil_iff {f : α → Except ε β} {l : List α} : l.mapM f = .ok [] ↔ l = [] := by
  rw [mapM_eq_ok_iff, forall₂_nil_right_iff]

-- Dropping elements changes the list of results, unless none is dropped.
theorem mapM_filter_eq_ok_iff {f : α → Except ε β} {l : List α} (keep : α → Bool)
    (h : l.mapM f = .ok r) : (l.filter keep).mapM f = .ok r ↔ ∀ a ∈ l, keep a = true := by
  have hlen := (mapM_eq_ok_iff.mp h).length_eq
  constructor
  · intro hf
    have hlen' := (mapM_eq_ok_iff.mp hf).length_eq
    exact length_filter_eq_length_iff.mp (hlen'.trans hlen.symm)
  · intro hall
    rw [filter_eq_self.mpr hall]
    exact h

theorem forall₂_exists_of_mem_right (h : List.Forall₂ R l r) (hb : b ∈ r) : ∃ a ∈ l, R a b := by
  induction h with
  | nil => cases hb
  | @cons a' b' l' r' hab _ ih =>
    rcases mem_cons.mp hb with rfl | hb
    · exact ⟨a', mem_cons_self, hab⟩
    · obtain ⟨a, ha, hr⟩ := ih hb
      exact ⟨a, mem_cons_of_mem _ ha, hr⟩

theorem forall₂_exists_of_mem_left (h : List.Forall₂ R l r) (ha : a ∈ l) : ∃ b ∈ r, R a b := by
  obtain ⟨b, hb, hr⟩ := forall₂_exists_of_mem_right h.flip ha
  exact ⟨b, hb, hr⟩

theorem mapM_flatten_forall {f : α → Except ε (List β)} {l : List α} {r : List (List β)}
    (h : l.mapM f = .ok r) (Q : β → Prop) :
    (∀ b ∈ r.flatten, Q b) ↔ ∀ a ∈ l, ∀ part, f a = .ok part → ∀ b ∈ part, Q b := by
  have hall := mapM_eq_ok_iff.mp h
  constructor
  · intro hq a ha part hpart b hb
    obtain ⟨part', hmem, hpart'⟩ := forall₂_exists_of_mem_left hall ha
    rw [hpart] at hpart'
    cases hpart'
    exact hq b (mem_flatten.mpr ⟨part, hmem, hb⟩)
  · intro hq b hb
    obtain ⟨part, hmem, hb⟩ := mem_flatten.mp hb
    obtain ⟨a, ha, hpart⟩ := forall₂_exists_of_mem_right hall hmem
    exact hq a ha part hpart b hb

end ExceptLemmas

end Chainloop.Go
