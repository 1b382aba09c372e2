import Mathlib.Data.List.Basic

-- Systems that take one step after another, in whatever order the events come. An event
-- that is not enabled does not happen.
namespace Chainloop.Schedule

variable {σ ε : Type} {step : σ → ε → Option σ}

def run (step : σ → ε → Option σ) : σ → List ε → Option σ
  | s, [] => some s
  | s, e :: rest => (step s e).bind (run step · rest)

theorem run_cons :
    run step s (e :: rest) = some s' ↔ ∃ mid, step s e = some mid ∧ run step mid rest = some s' := by
  rw [run, Option.bind_eq_some_iff]

theorem run_append : run step s (before ++ after) = some s' ↔
      ∃ mid, run step s before = some mid ∧ run step mid after = some s' := by
  induction before generalizing s with
  | nil => simp [run]
  | cons e before ih =>
    rw [List.cons_append, run_cons]
    constructor
    · rintro ⟨next, hstep, hrest⟩
      obtain ⟨mid, hmid, hafter⟩ := ih.mp hrest
      exact ⟨mid, run_cons.mpr ⟨next, hstep, hmid⟩, hafter⟩
    · rintro ⟨mid, hmid, hafter⟩
      obtain ⟨next, hstep, hbefore⟩ := run_cons.mp hmid
      exact ⟨next, hstep, ih.mpr ⟨mid, hbefore, hafter⟩⟩

theorem run_single : run step s [e] = some s' ↔ step s e = some s' := by
  rw [run_cons]
  constructor
  · rintro ⟨mid, hstep, hmid⟩
    cases hmid
    exact hstep
  · intro hstep
    exact ⟨s', hstep, rfl⟩

theorem run_at (h : run step s (before ++ e :: after) = some s') :
    ∃ mid next, run step s before = some mid ∧ step mid e = some next ∧
      run step next after = some s' := by
  obtain ⟨mid, hbefore, hrest⟩ := run_append.mp h
  obtain ⟨next, hstep, hafter⟩ := run_cons.mp hrest
  exact ⟨mid, next, hbefore, hstep, hafter⟩

def Occurs (step : σ → ε → Option σ) (s : σ) (events : List ε) (mid : σ) (e : ε) (next : σ) : Prop :=
  ∃ before after, events = before ++ e :: after ∧ run step s before = some mid ∧ step mid e = some next

theorem run_concat (h : run step s events = some mid) (hstep : step mid e = some next) :
    run step s (events ++ [e]) = some next :=
  run_append.mpr ⟨mid, h, run_single.mpr hstep⟩

theorem Occurs.step_eq (h : Occurs step s events mid e next) : step mid e = some next := by
  obtain ⟨-, -, -, -, hstep⟩ := h
  exact hstep

theorem Occurs.extend (h : Occurs step s events mid e next) (more : List ε) :
    Occurs step s (events ++ more) mid e next := by
  obtain ⟨before, after, rfl, hbefore, hstep⟩ := h
  exact ⟨before, after ++ more, by rw [List.append_assoc, List.cons_append], hbefore, hstep⟩

theorem Occurs.reaches (h : Occurs step s events mid e next) :
    ∃ past rest, events = past ++ rest ∧ run step s past = some next := by
  obtain ⟨before, after, rfl, hbefore, hstep⟩ := h
  exact ⟨before ++ [e], after, by rw [List.append_assoc, List.singleton_append], run_concat hbefore hstep⟩

theorem run_invariant (I : List ε → σ → Prop) (hstart : I [] s)
    (hstep : ∀ past mid e next, I past mid → step mid e = some next → I (past ++ [e]) next)
    (h : run step s events = some s') : I events s' := by
  suffices hgen : ∀ past mid rest, I past mid → run step mid rest = some s' → I (past ++ rest) s' by
    simpa using hgen [] s events hstart h
  intro past mid rest hpast hrun
  induction rest generalizing past mid with
  | nil =>
    cases hrun
    simpa using hpast
  | cons e rest ih =>
    obtain ⟨next, hnext, hrest⟩ := run_cons.mp hrun
    simpa using ih (past ++ [e]) next (hstep past mid e next hpast hnext) hrest

theorem run_keeps (P : σ → Prop) (hstart : P s)
    (hstep : ∀ mid e next, P mid → step mid e = some next → P next)
    (h : run step s events = some s') : P s' :=
  run_invariant (fun _ mid => P mid) hstart (fun _ mid e next => hstep mid e next) h

theorem run_keeps_along (P : σ → Prop) (hstart : P s)
    (hstep : ∀ mid e next, Occurs step s events mid e next → P mid → P next)
    (h : run step s events = some s') : P s' := by
  have hpast : events <+: events → run step s events = some s' ∧ P s' := by
    refine run_invariant (fun past mid => past <+: events → run step s past = some mid ∧ P mid)
      (fun _ => ⟨rfl, hstart⟩) ?_ h
    intro past mid e next hmid hnext hprefix
    obtain ⟨hrun, hP⟩ := hmid ((List.prefix_append past [e]).trans hprefix)
    obtain ⟨after, hafter⟩ := hprefix
    refine ⟨run_concat hrun hnext, hstep mid e next ⟨past, after, ?_, hrun, hnext⟩ hP⟩
    rw [← hafter, List.append_assoc, List.singleton_append]
  exact (hpast (List.prefix_refl events)).2

theorem Occurs.keeps (P : σ → Prop) (hstart : P s)
    (hstep : ∀ mid e next, P mid → step mid e = some next → P next)
    (h : Occurs step s events mid e next) : P mid := by
  obtain ⟨before, after, -, hbefore, -⟩ := h
  exact run_keeps P hstart hstep hbefore

end Chainloop.Schedule
