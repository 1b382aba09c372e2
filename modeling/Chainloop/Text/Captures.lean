import Chainloop.Text.Regex

namespace Chainloop.Text.Regex

open List Option Bool

variable {c d : Cursor} {r : Regex}

def consumes : Regex → Bool
  | char _ => true
  | seq first second => first.consumes || second.consumes
  | alt first second => first.consumes && second.consumes
  | group _ body => body.consumes
  | _ => false

def sets (index : Nat) : Regex → Bool
  | seq first second => first.sets index || second.sets index
  | alt first second => first.sets index || second.sets index
  | star _ body => body.sets index
  | group i body => i = index || body.sets index
  | _ => false

-- Whether every match leaves a text in the group that is not empty.
def fills (index : Nat) : Regex → Bool
  | seq first second => second.fills index || (first.fills index && !second.sets index)
  | alt first second => first.fills index && second.fills index
  | group i body => if i = index then body.consumes else body.fills index
  | _ => false

theorem of_mem_iterate {P : Cursor → Prop} {step : Cursor → List Cursor} {greedy : Bool}
    (hstep : ∀ c, P c → ∀ d ∈ step c, P d) {fuel : Nat} (hc : P c)
    (h : d ∈ iterate step greedy fuel c) : P d := by
  induction fuel generalizing c with
  | zero =>
    rw [iterate, mem_singleton] at h
    exact h ▸ hc
  | succ fuel ih =>
    have hcases : d = c ∨ ∃ e ∈ step c, d ∈ iterate step greedy fuel e := by
      rw [iterate] at h
      cases greedy with
      | true =>
        simp only [if_true, mem_append, mem_flatMap, mem_filter, mem_singleton] at h
        obtain ⟨e, ⟨he, -⟩, hd⟩ | rfl := h
        · exact .inr ⟨e, he, hd⟩
        · exact .inl rfl
      | false =>
        simp only [false_eq_true, if_false, mem_cons, mem_flatMap, mem_filter] at h
        obtain rfl | ⟨e, ⟨he, -⟩, hd⟩ := h
        · exact .inl rfl
        · exact .inr ⟨e, he, hd⟩
    obtain rfl | ⟨e, he, hd⟩ := hcases
    · exact hc
    · exact ih (hstep c hc e he) hd

theorem mem_run_char {accepts : Char → Bool} (h : d ∈ (char accepts).run c) :
    ∃ x, accepts x = true ∧ c.after = x :: d.after ∧ d.captures = c.captures := by
  rw [run] at h
  cases hafter : c.after with
  | nil => simp [hafter] at h
  | cons x rest =>
    rw [hafter] at h
    dsimp only at h
    split_ifs at h with hx
    · obtain rfl := mem_singleton.mp h
      exact ⟨x, hx, rfl, rfl⟩
    · cases h

theorem mem_run_stay {p : Prop} [Decidable p] (h : d ∈ if p then [c] else []) : d = c := by
  split_ifs at h
  · exact mem_singleton.mp h
  · cases h

-- A run relates its ends as its characters and groups do, for a relation that can be chained.
theorem mem_run_rel {R : Cursor → Cursor → Prop} {K : Regex → Prop} (hrefl : ∀ c, R c c)
    (htrans : ∀ {c d e}, R c d → R d e → R c e)
    (hseq : ∀ {first second}, K (seq first second) → K first ∧ K second)
    (halt : ∀ {first second}, K (alt first second) → K first ∧ K second)
    (hstar : ∀ {greedy body}, K (star greedy body) → K body)
    (hchar : ∀ {accepts c d x}, K (char accepts) → accepts x = true → c.after = x :: d.after →
      d.captures = c.captures → R c d)
    (hgroup : ∀ {i body c e}, K (group i body) → e ∈ body.run c → (K body → R c e) →
      R c { e with captures := (i, c.after.take (c.after.length - e.after.length)) :: e.captures })
    (hr : K r) (h : d ∈ r.run c) : R c d := by
  induction r generalizing c d with
  | empty => exact (mem_singleton.mp h).symm ▸ hrefl c
  | char accepts =>
    obtain ⟨x, hx, hafter, hcaptures⟩ := mem_run_char h
    exact hchar hr hx hafter hcaptures
  | start => exact (mem_run_stay h).symm ▸ hrefl c
  | stop => exact (mem_run_stay h).symm ▸ hrefl c
  | wordBoundary =>
    rw [run] at h
    split_ifs at h
    · cases h
    · exact (mem_singleton.mp h).symm ▸ hrefl c
  | seq first second ihFirst ihSecond =>
    obtain ⟨e, he, hd⟩ := mem_flatMap.mp h
    exact htrans (ihFirst (hseq hr).1 he) (ihSecond (hseq hr).2 hd)
  | alt first second ihFirst ihSecond =>
    obtain h | h := mem_append.mp h
    · exact ihFirst (halt hr).1 h
    · exact ihSecond (halt hr).2 h
  | star greedy body ih =>
    exact of_mem_iterate (P := R c) (fun e he d hd => htrans he (ih (hstar hr) hd)) (hrefl c) h
  | group i body ih =>
    obtain ⟨e, he, rfl⟩ := mem_map.mp h
    exact hgroup hr he fun hbody => ih hbody he

theorem after_le_of_mem_run (h : d ∈ r.run c) : d.after.length ≤ c.after.length := by
  refine mem_run_rel (R := fun c d => d.after.length ≤ c.after.length) (K := fun _ => True)
    (fun _ => Nat.le_refl _) (fun hd he => Nat.le_trans he hd) (fun _ => ⟨trivial, trivial⟩)
    (fun _ => ⟨trivial, trivial⟩) (fun _ => trivial) ?_ (fun _ _ hbody => hbody trivial) trivial h
  intro _ c d x _ _ hafter _
  simp [hafter]

theorem after_lt_of_mem_run (hr : r.consumes = true)
    (h : d ∈ r.run c) : d.after.length < c.after.length := by
  induction r generalizing c d with
  | char accepts =>
    obtain ⟨x, -, hafter, -⟩ := mem_run_char h
    simp [hafter]
  | seq first second ihFirst ihSecond =>
    obtain ⟨e, he, hd⟩ := mem_flatMap.mp h
    obtain hr | hr := or_eq_true _ _ |>.mp hr
    · exact Nat.lt_of_le_of_lt (after_le_of_mem_run hd) (ihFirst hr he)
    · exact Nat.lt_of_lt_of_le (ihSecond hr hd) (after_le_of_mem_run he)
  | alt first second ihFirst ihSecond =>
    obtain ⟨hfirst, hsecond⟩ := and_eq_true _ _ |>.mp hr
    obtain h | h := mem_append.mp h
    · exact ihFirst hfirst h
    · exact ihSecond hsecond h
  | group index body ih =>
    obtain ⟨e, he, rfl⟩ := mem_map.mp h
    have hafter : e.after.length < c.after.length := ih hr he
    exact hafter
  | _ => cases hr

theorem lookup_of_mem_run {index : Nat} (hr : r.sets index = false)
    (h : d ∈ r.run c) : d.captures.lookup index = c.captures.lookup index := by
  refine mem_run_rel (R := fun c d => d.captures.lookup index = c.captures.lookup index)
    (K := fun r => r.sets index = false) (fun _ => rfl) (fun hd he => he.trans hd)
    or_eq_false_iff.mp or_eq_false_iff.mp (fun h => h) ?_ ?_ hr h
  · intro _ c d x _ _ _ hcaptures
    rw [hcaptures]
  · intro i body c e hr _ hbody
    obtain ⟨hi, hr⟩ := or_eq_false_iff.mp hr
    have hne : (index == i) = false := beq_false_of_ne (Ne.symm (of_decide_eq_false hi))
    rw [← hbody hr, lookup_cons, hne]

theorem lookup_ne_nil_of_mem_run (hr : r.fills index = true) (h : d ∈ r.run c) :
    ∃ text, d.captures.lookup index = some text ∧ text ≠ [] := by
  induction r generalizing c d with
  | seq first second ihFirst ihSecond =>
    obtain ⟨e, he, hd⟩ := mem_flatMap.mp h
    obtain hr | hr := or_eq_true _ _ |>.mp hr
    · exact ihSecond hr hd
    · obtain ⟨hfirst, hsecond⟩ := and_eq_true _ _ |>.mp hr
      obtain ⟨text, hlookup, htext⟩ := ihFirst hfirst he
      have hsame := lookup_of_mem_run (by simpa using hsecond) hd
      exact ⟨text, hsame.trans hlookup, htext⟩
  | alt first second ihFirst ihSecond =>
    obtain ⟨hfirst, hsecond⟩ := and_eq_true _ _ |>.mp hr
    obtain h | h := mem_append.mp h
    · exact ihFirst hfirst h
    · exact ihSecond hsecond h
  | group i body ih =>
    obtain ⟨e, he, rfl⟩ := mem_map.mp h
    by_cases hi : i = index
    · subst hi
      have hbody : body.consumes = true := by simpa [fills] using hr
      have hlt := after_lt_of_mem_run hbody he
      refine ⟨_, lookup_cons_self, ?_⟩
      rw [ne_eq, take_eq_nil_iff, ← length_eq_zero_iff]
      omega
    · have hbody : body.fills index = true := by simpa [fills, hi] using hr
      obtain ⟨text, hlookup, htext⟩ := ih hbody he
      have hne : (index == i) = false := beq_false_of_ne (Ne.symm hi)
      refine ⟨text, ?_, htext⟩
      rw [lookup_cons, hne, hlookup]
  | _ => cases hr

theorem mem_run_of_find (h : r.find before text = some m) : ∃ b t, m.2 ∈ r.run ⟨b, t, []⟩ := by
  induction text generalizing before with
  | nil =>
    rw [find, map_eq_some_iff] at h
    obtain ⟨c, hc, rfl⟩ := h
    exact ⟨before, [], mem_of_mem_head? hc⟩
  | cons x rest ih =>
    rw [find] at h
    split at h
    · rename_i c hc
      cases h
      exact ⟨before, x :: rest, mem_of_mem_head? hc⟩
    · exact ih h

theorem submatch_ne_empty (hr : r.fills index = true) (h : r.submatch s = some m) :
    m index ≠ "" := by
  obtain ⟨found, hfound, rfl⟩ := map_eq_some_iff.mp h
  obtain ⟨b, t, hrun⟩ := mem_run_of_find hfound
  obtain ⟨text, hlookup, htext⟩ := lookup_ne_nil_of_mem_run hr hrun
  intro hempty
  apply htext
  simpa [hlookup] using hempty

def Only (p : Char → Bool) : Regex → Prop
  | char accepts => ∀ x, accepts x = true → p x = true
  | seq first second => first.Only p ∧ second.Only p
  | alt first second => first.Only p ∧ second.Only p
  | star _ body => body.Only p
  | group _ body => body.Only p
  | _ => True

def GroupOnly (index : Nat) (p : Char → Bool) : Regex → Prop
  | seq first second => first.GroupOnly index p ∧ second.GroupOnly index p
  | alt first second => first.GroupOnly index p ∧ second.GroupOnly index p
  | star _ body => body.GroupOnly index p
  | group i body => (i = index → body.Only p) ∧ body.GroupOnly index p
  | _ => True

theorem groupOnly_of_not_sets (p : Char → Bool) (h : r.sets index = false) :
    r.GroupOnly index p := by
  induction r with
  | seq first second ihFirst ihSecond =>
    obtain ⟨hfirst, hsecond⟩ := or_eq_false_iff.mp h
    exact ⟨ihFirst hfirst, ihSecond hsecond⟩
  | alt first second ihFirst ihSecond =>
    obtain ⟨hfirst, hsecond⟩ := or_eq_false_iff.mp h
    exact ⟨ihFirst hfirst, ihSecond hsecond⟩
  | star greedy body ih => exact ih h
  | group i body ih =>
    obtain ⟨hi, hbody⟩ := or_eq_false_iff.mp h
    exact ⟨fun heq => absurd heq (of_decide_eq_false hi), ih hbody⟩
  | _ => trivial

-- The text between two places has characters that pass the test only.
def Between (p : Char → Bool) (c d : Cursor) : Prop :=
  ∃ w, c.after = w ++ d.after ∧ ∀ x ∈ w, p x = true

theorem Between.refl (p : Char → Bool) (c : Cursor) : Between p c c :=
  ⟨[], rfl, fun _ hx => nomatch hx⟩

theorem Between.trans (hcd : Between p c d) (hde : Between p d e) : Between p c e := by
  obtain ⟨v, hv, hvp⟩ := hcd
  obtain ⟨w, hw, hwp⟩ := hde
  refine ⟨v ++ w, by rw [hv, hw, append_assoc], fun x hx => ?_⟩
  obtain hx | hx := mem_append.mp hx
  · exact hvp x hx
  · exact hwp x hx

theorem between_of_mem_run (hr : r.Only p) (h : d ∈ r.run c) : Between p c d := by
  refine mem_run_rel (K := Only p) (.refl p) .trans (fun h => h) (fun h => h) (fun h => h) ?_
    (fun hr _ hbody => hbody hr) hr h
  intro _ c d x hr hx hafter _
  exact ⟨[x], hafter, fun y hy => (mem_singleton.mp hy).symm ▸ hr x hx⟩

def CaptureOnly (index : Nat) (p : Char → Bool) (c : Cursor) : Prop :=
  ∀ text, c.captures.lookup index = some text → ∀ x ∈ text, p x = true

theorem captureOnly_of_mem_run (hr : r.GroupOnly index p) (hc : CaptureOnly index p c)
    (h : d ∈ r.run c) :
    CaptureOnly index p d := by
  refine mem_run_rel (R := fun c d => CaptureOnly index p c → CaptureOnly index p d)
    (K := GroupOnly index p) (fun _ hc => hc) (fun hd he hc => he (hd hc)) (fun h => h)
    (fun h => h) (fun h => h) ?_ ?_ hr h hc
  · intro _ c d x _ _ _ hcaptures hc
    rwa [CaptureOnly, hcaptures]
  · intro i body c e hr he hbody hc text hlookup
    rw [lookup_cons] at hlookup
    by_cases hi : index = i
    · subst hi
      obtain ⟨w, hw, hwp⟩ := between_of_mem_run (hr.1 rfl) he
      have htext : c.after.take (c.after.length - e.after.length) = w := by
        simp [hw]
      rw [beq_self_eq_true, htext] at hlookup
      cases hlookup
      exact hwp
    · rw [beq_false_of_ne hi] at hlookup
      exact hbody hr.2 hc text hlookup

theorem submatch_only (hr : r.GroupOnly index p) (h : r.submatch s = some m) :
    ∀ x ∈ (m index).toList, p x = true := by
  obtain ⟨found, hfound, rfl⟩ := map_eq_some_iff.mp h
  obtain ⟨b, t, hrun⟩ := mem_run_of_find hfound
  have honly : CaptureOnly index p found.2 :=
    captureOnly_of_mem_run hr (fun text hlookup => by cases hlookup) hrun
  cases hlookup : found.2.captures.lookup index with
  | none => simp [hlookup]
  | some text => simpa [hlookup] using honly text hlookup

end Chainloop.Text.Regex
