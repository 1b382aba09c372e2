import Chainloop.Policies.Arguments

namespace Chainloop.Policies

open Go List Option Map Except

section Laws

variable (render : String → Map String String → Except GoError String)
  (inputs : List PolicyInput) (args bindings : Map String String)

def EmptyArgument (name : String) : Prop :=
  args.get? name = none ∨ applyBinding render (args.getD name "") bindings = .ok ""

def lastDefault (name : String) : Option String :=
  (inputs.filter fun i => i.name = name ∧ i.defaultValue ≠ "").getLast?.map PolicyInput.defaultValue

def HasBound (text : String) (value : Option String) : Prop :=
  ∃ v, applyBinding render text bindings = .ok v ∧ value = some v

structure ArgumentLaws (result : Map String String) : Prop where
  required : ∀ i ∈ inputs, i.required = true → ∃ v, result.get? i.name = some v ∧ v ≠ ""
  defaults : ∀ i ∈ inputs, EmptyArgument render args bindings i.name →
    ∀ d, lastDefault inputs i.name = some d → HasBound render bindings d (result.get? i.name)
  provided : ∀ i ∈ inputs, ¬ EmptyArgument render args bindings i.name →
    ∀ text, args.get? i.name = some text → HasBound render bindings text (result.get? i.name)
  declared : ∀ name ∈ result.keys, ∃ i ∈ inputs, i.name = name

-- A provided value that is empty with the bindings is for an input without a default, or with
-- one that is empty too.
def EmptyOverNoDefault : Prop :=
  ∀ i ∈ inputs, ∀ text, args.get? i.name = some text → applyBinding render text bindings = .ok "" →
    ∀ d, lastDefault inputs i.name = some d → applyBinding render d bindings = .ok ""

structure Checked (done : List PolicyInput) (result : Map String String) : Prop where
  required : ∀ i ∈ done, i.required = true → ∃ text v, args.get? i.name = some text ∧
    applyBinding render text bindings = .ok v ∧ v ≠ ""
  defaults : ∀ name, EmptyArgument render args bindings name →
    ∀ d, lastDefault done name = some d → HasBound render bindings d (result.get? name)
  declared : ∀ name ∈ result.keys, ∃ i ∈ done, i.name = name

structure Provided (start : Map String String) (done : List (String × String))
    (result : Map String String) : Prop where
  bound : ∀ e ∈ done, (∃ i ∈ inputs, i.name = e.1) → HasBound render bindings e.2 (result.get? e.1)
  others : ∀ name, (∀ e ∈ done, e.1 ≠ name) → result.get? name = start.get? name
  declared : ∀ name ∈ result.keys, name ∈ start.keys ∨ ∃ i ∈ inputs, i.name = name

variable {render inputs args bindings} {next : Map String String}

theorem lastDefault_append (i : PolicyInput) (name : String) : lastDefault (inputs ++ [i]) name =
      if i.name = name ∧ i.defaultValue ≠ "" then some i.defaultValue else lastDefault inputs name := by
  unfold lastDefault
  by_cases h : i.name = name ∧ i.defaultValue ≠ "" <;> simp [h]

variable {result : Map String String}

theorem checkInput_inv {i : PolicyInput}
    (h : checkInput render args bindings result i = .ok next) :
    (i.required = true → ∃ text v, args.get? i.name = some text ∧
      applyBinding render text bindings = .ok v ∧ v ≠ "") ∧
    ((EmptyArgument render args bindings i.name ∧ i.defaultValue ≠ "" ∧
        ∃ v, applyBinding render i.defaultValue bindings = .ok v ∧ next = result.set i.name v) ∨
      ((¬ EmptyArgument render args bindings i.name ∨ i.defaultValue = "") ∧ next = result)) := by
  obtain ⟨hlegal, h⟩ := guard_eq_ok.mp h
  obtain ⟨value, hvalue, h⟩ := bind_eq_ok.mp h
  have hempty : ((args.get? i.name).isNone = true ∨ value = "") ↔
      EmptyArgument render args bindings i.name := by
    unfold EmptyArgument
    rw [hvalue]
    simp
  split_ifs at h with hargument hrequired hdefault
  · obtain ⟨v, hv, h⟩ := bind_eq_ok.mp h
    cases h
    exact ⟨fun hr => absurd hr hrequired, .inl ⟨hempty.mp hargument, hdefault.2, v, hv, rfl⟩⟩
  · cases h
    have hnone : (args.get? i.name).isNone = true → value = "" := by
      intro hnone
      rw [Map.getD, isNone_iff_eq_none.mp hnone] at hvalue
      exact (ok.inj hvalue).symm
    have hvalue : value = "" := hargument.elim hnone id
    refine ⟨fun hr => absurd hr hrequired, .inr ⟨.inr ?_, rfl⟩⟩
    by_contra hne
    exact hdefault ⟨hvalue, hne⟩
  · cases h
    refine ⟨fun _ => ?_, .inr ⟨.inl fun he => hargument (hempty.mpr he), rfl⟩⟩
    obtain ⟨hsome, hne⟩ := not_or.mp hargument
    obtain ⟨text, htext⟩ := ne_none_iff_exists'.mp (by simpa using hsome)
    refine ⟨text, value, htext, ?_, hne⟩
    simpa [Map.getD, htext] using hvalue

theorem Checked.step (h : Checked render args bindings done result)
    (hstep : checkInput render args bindings result i = .ok next) :
    Checked render args bindings (done ++ [i]) next := by
  obtain ⟨hrequired, hcases⟩ := checkInput_inv hstep
  refine ⟨?_, ?_, ?_⟩
  · intro j hj hr
    obtain hj | hj := mem_append.mp hj
    · exact h.required j hj hr
    · obtain rfl := mem_singleton.mp hj
      exact hrequired hr
  · intro name hempty d hd
    rw [lastDefault_append] at hd
    obtain ⟨-, hdefault, v, hv, rfl⟩ | ⟨hno, rfl⟩ := hcases
    · by_cases hname : i.name = name
      · rw [if_pos ⟨hname, hdefault⟩] at hd
        cases hd
        exact ⟨v, hv, by rw [hname, get?_set_self]⟩
      · rw [if_neg fun hc => hname hc.1] at hd
        rw [get?_set_ne _ _ (Ne.symm hname)]
        exact h.defaults name hempty d hd
    · have hother : ¬ (i.name = name ∧ i.defaultValue ≠ "") := by
        rintro ⟨rfl, hdefault⟩
        exact hno.elim (· hempty) hdefault
      rw [if_neg hother] at hd
      exact h.defaults name hempty d hd
  · intro name hname
    obtain ⟨-, -, v, -, rfl⟩ | ⟨-, rfl⟩ := hcases
    · obtain rfl | hname := (mem_keys_set _ _ _ _).mp hname
      · exact ⟨i, mem_append_right _ (mem_singleton_self i), rfl⟩
      · obtain ⟨j, hj, hjname⟩ := h.declared name hname
        exact ⟨j, mem_append_left _ hj, hjname⟩
    · obtain ⟨j, hj, hjname⟩ := h.declared name hname
      exact ⟨j, mem_append_left _ hj, hjname⟩

theorem addArgument_inv
    (h : addArgument render inputs bindings result e = .ok next) :
    ((∃ i ∈ inputs, i.name = e.1) ∧
        ∃ v, applyBinding render e.2 bindings = .ok v ∧ next = result.set e.1 v) ∨
      ((¬ ∃ i ∈ inputs, i.name = e.1) ∧ next = result) := by
  have hdeclared : (inputs.any fun i => i.name == e.1) = true ↔ ∃ i ∈ inputs, i.name = e.1 := by
    simp
  unfold addArgument at h
  split_ifs at h with hany
  · obtain ⟨v, hv, h⟩ := bind_eq_ok.mp h
    cases h
    exact .inl ⟨hdeclared.mp hany, v, hv, rfl⟩
  · cases h
    exact .inr ⟨fun hd => hany (hdeclared.mpr hd), rfl⟩

theorem Provided.step (h : Provided render inputs bindings start done result)
    (hfresh : ∀ f ∈ done, f.1 ≠ e.1)
    (hstep : addArgument render inputs bindings result e = .ok next) :
    Provided render inputs bindings start (done ++ [e]) next := by
  obtain ⟨hdeclared, v, hv, rfl⟩ | ⟨hundeclared, rfl⟩ := addArgument_inv hstep
  · refine ⟨?_, ?_, ?_⟩
    · intro f hf hfdeclared
      obtain hf | hf := mem_append.mp hf
      · rw [get?_set_ne _ _ (hfresh f hf)]
        exact h.bound f hf hfdeclared
      · obtain rfl := mem_singleton.mp hf
        exact ⟨v, hv, get?_set_self _ _ _⟩
    · intro name hname
      have hne : e.1 ≠ name := hname e (mem_append_right _ (mem_singleton_self e))
      rw [get?_set_ne _ _ hne.symm]
      exact h.others name fun f hf => hname f (mem_append_left _ hf)
    · intro name hname
      obtain rfl | hname := (mem_keys_set _ _ _ _).mp hname
      · exact .inr hdeclared
      · exact h.declared name hname
  · refine ⟨?_, ?_, h.declared⟩
    · intro f hf hfdeclared
      obtain hf | hf := mem_append.mp hf
      · exact h.bound f hf hfdeclared
      · obtain rfl := mem_singleton.mp hf
        exact absurd hfdeclared hundeclared
    · exact fun name hname => h.others name fun f hf => hname f (mem_append_left _ hf)

-- Go visits the arguments in any order. They have different names.
theorem provided_of_foldlM {entries : List (String × String)}
    (hnodup : (entries.map Prod.fst).Nodup)
    (h : entries.foldlM (addArgument render inputs bindings) start = .ok result) :
    Provided render inputs bindings start entries result := by
  have hstart : Provided render inputs bindings start [] start :=
    ⟨fun e he => (not_mem_nil he).elim, fun _ _ => rfl, fun _ hname => .inl hname⟩
  refine foldlM_invariant (fun done result => (done.map Prod.fst).Nodup →
    Provided render inputs bindings start done result) ?_ (fun _ => hstart) h hnodup
  intro done e result next hdone hstep hnodup
  rw [map_append, nodup_append] at hnodup
  refine (hdone hnodup.1).step ?_ hstep
  exact fun f hf => hnodup.2.2 f.1 (mem_map_of_mem hf) e.1 (by simp)

theorem checked_of_foldlM (h : inputs.foldlM (checkInput render args bindings) .empty = .ok result) :
    Checked render args bindings inputs result := by
  have hstart : Checked render args bindings [] .empty :=
    ⟨fun i hi => (not_mem_nil hi).elim, fun _ _ d hd => (nomatch hd),
      fun name hname => (not_mem_nil hname).elim⟩
  exact foldlM_invariant (Checked render args bindings)
    (fun done i result next hdone hstep => hdone.step hstep) hstart h

theorem computeArguments_inv (hinputs : inputs ≠ [])
    (h : computeArguments render inputs args bindings = .ok result) :
    ∃ checked, Checked render args bindings inputs checked ∧
      Provided render inputs bindings checked args.entries result := by
  unfold computeArguments at h
  rw [if_neg (by simpa using hinputs)] at h
  obtain ⟨checked, hchecked, h⟩ := bind_eq_ok.mp h
  exact ⟨checked, checked_of_foldlM hchecked, provided_of_foldlM args.nodup h⟩

-- A provided value always replaces the default, also when it is empty.
theorem argumentLaws_iff {result : Map String String} (hinputs : inputs ≠ [])
    (h : computeArguments render inputs args bindings = .ok result) :
    ArgumentLaws render inputs args bindings result ↔
      EmptyOverNoDefault render inputs args bindings := by
  obtain ⟨checked, hchecked, hprovided⟩ := computeArguments_inv hinputs h
  have hbound : ∀ i ∈ inputs, ∀ text, args.get? i.name = some text →
      HasBound render bindings text (result.get? i.name) := by
    intro i hi text htext
    exact hprovided.bound (i.name, text) ((get?_eq_some_iff _ _ _).mp htext) ⟨i, hi, rfl⟩
  constructor
  · intro hlaws i hi text htext hempty d hd
    have hvalue : args.getD i.name "" = text := by rw [Map.getD, htext, getD_some]
    obtain ⟨v, hv, hresult⟩ := hlaws.defaults i hi (.inr (hvalue ▸ hempty)) d hd
    obtain ⟨w, hw, hresult'⟩ := hbound i hi text htext
    rw [hempty] at hw
    cases hw
    rw [hresult] at hresult'
    cases hresult'
    exact hv
  · intro hdefaults
    refine ⟨?_, ?_, ?_, ?_⟩
    · intro i hi hrequired
      obtain ⟨text, v, htext, hv, hne⟩ := hchecked.required i hi hrequired
      obtain ⟨w, hw, hresult⟩ := hbound i hi text htext
      rw [hv] at hw
      cases hw
      exact ⟨v, hresult, hne⟩
    · intro i hi hempty d hd
      cases htext : args.get? i.name with
      | none =>
        have hsame : result.get? i.name = checked.get? i.name := by
          apply hprovided.others
          intro e he hname
          rw [← hname] at htext
          exact (get?_eq_none_iff _ _).mp htext (mem_map_of_mem he)
        rw [hsame]
        exact hchecked.defaults i.name hempty d hd
      | some text =>
        have hvalue : args.getD i.name "" = text := by rw [Map.getD, htext, getD_some]
        have hblank : applyBinding render text bindings = .ok "" := by
          obtain hnone | hblank := hempty
          · rw [htext] at hnone
            cases hnone
          · exact hvalue ▸ hblank
        obtain ⟨v, hv, hresult⟩ := hbound i hi text htext
        rw [hblank] at hv
        cases hv
        exact ⟨"", hdefaults i hi text htext hblank d hd, hresult⟩
    · exact fun i hi _ text htext => hbound i hi text htext
    · intro name hname
      obtain hname | hdeclared := hprovided.declared name hname
      · exact hchecked.declared name hname
      · exact hdeclared

end Laws

def renderPlain (text : String) (_ : Map String String) : Except GoError String := .ok text

def levelInput : PolicyInput := ⟨"level", false, "high"⟩

theorem argumentLaws_for_provided_level :
    ∃ result, computeArguments renderPlain [levelInput] (ofList [("level", "low")]) .empty =
        .ok result ∧
      ArgumentLaws renderPlain [levelInput] (ofList [("level", "low")]) .empty result := by
  refine ⟨_, rfl, (argumentLaws_iff (by simp) rfl).mpr ?_⟩
  intro i hi text htext hempty
  obtain rfl := mem_singleton.mp hi
  cases htext
  exact absurd (ok.inj hempty) (by decide)

theorem empty_value_replaces_default :
    ∃ result, computeArguments renderPlain [levelInput] (ofList [("level", "")]) .empty =
        .ok result ∧ result.get? "level" = some "" ∧
      ¬ ArgumentLaws renderPlain [levelInput] (ofList [("level", "")]) .empty result := by
  refine ⟨_, rfl, rfl, fun hlaws => ?_⟩
  obtain ⟨v, hv, hresult⟩ := hlaws.defaults levelInput (mem_singleton_self _) (.inr rfl) "high" rfl
  have hhigh : "high" = v := ok.inj hv
  have hempty : "" = v := some.inj hresult
  exact absurd (hhigh.trans hempty.symm) (by decide)

end Chainloop.Policies
