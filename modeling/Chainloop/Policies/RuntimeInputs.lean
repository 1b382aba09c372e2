import Mathlib.Data.List.ReduceOption
import Chainloop.Go.Heap
import Chainloop.Policies.Arguments

namespace Chainloop.Policies

open Go List Option Map Nat

-- The value of MergeRuntimeInputs for a key that both sides have.
def appendValue (existing v : String) : String :=
  if existing ≠ "" then existing ++ "\n" ++ v else v

-- The values on lines of their own, without those at the front that are empty.
def joined (values : List String) : String := "\n".intercalate (values.dropWhile (· = ""))

section Joined

theorem joined_cons_empty (values : List String) : joined ("" :: values) = joined values := by
  simp [joined]

theorem joined_cons {v : String} (hv : v ≠ "") (values : List String) :
    joined (v :: values) = "\n".intercalate (v :: values) := by
  simp [joined, hv]

theorem joined_appendValue (existing v : String) (values : List String) :
    joined (appendValue existing v :: values) = joined (existing :: v :: values) := by
  unfold appendValue
  by_cases hempty : existing = ""
  · rw [if_neg (not_not.mpr hempty), hempty, joined_cons_empty]
  · have hne : existing ++ "\n" ++ v ≠ "" := by
      intro h
      have hlist := congrArg String.toList h
      simp at hlist
    rw [if_pos hempty, joined_cons hne, joined_cons hempty, String.intercalate_cons_append,
      String.intercalate_cons_cons]

theorem joined_singleton (v : String) : joined [v] = v := by
  by_cases hv : v = "" <;> simp [joined, hv]

-- What becomes of a key's value when a map is merged into the one that holds it.
def appendOption (existing : Option String) : Option String → Option String
  | none => existing
  | some v => some (appendValue (existing.getD "") v)

def collected : List String → Option String
  | [] => none
  | values => some (joined values)

theorem foldl_appendOption (l : List (Option String)) (existing : Option String) :
    l.foldl appendOption existing = collected (existing.toList ++ l.reduceOption) := by
  induction l generalizing existing with
  | nil =>
    cases existing with
    | none => rfl
    | some v => exact congrArg some (joined_singleton v).symm
  | cons o rest ih =>
    rw [foldl_cons, ih]
    cases o with
    | none => rfl
    | some v =>
      have hhead : collected (appendValue (existing.getD "") v :: rest.reduceOption) =
          collected (existing.toList ++ v :: rest.reduceOption) := by
        refine (congrArg some (joined_appendValue _ v rest.reduceOption)).trans ?_
        cases existing with
        | none => exact congrArg some (joined_cons_empty _)
        | some w => rfl
      exact hhead

theorem appendOption_collected (existing : Option String) {values : List String}
    (hvalues : values ≠ []) :
    appendOption existing (collected values) =
      some (joined (existing.toList ++ [joined values])) := by
  obtain ⟨v, rest, rfl⟩ := exists_cons_of_ne_nil hvalues
  have hfold := foldl_appendOption [some (joined (v :: rest))] existing
  cases existing <;> exact hfold

theorem foldl_or (l : List (Option String)) (existing : Option String) :
    l.foldl (fun acc o => o.or acc) existing = l.reduceOption.getLast?.or existing := by
  induction l generalizing existing with
  | nil => rfl
  | cons o rest ih =>
    rw [foldl_cons, ih]
    cases o with
    | none => rfl
    | some v =>
      rw [reduceOption_cons_of_some, getLast?_cons]
      cases rest.reduceOption.getLast? <;> rfl

end Joined

section Maps

theorem mergeRuntimeInputs_eq (args inputs : Map String String) :
    mergeRuntimeInputs args inputs = inputs.entries.foldl (fun merged e =>
      merged.set e.1 (appendValue ((merged.get? e.1).getD "") e.2)) args := rfl

theorem get?_mergeRuntimeInputs (args inputs : Map String String) (k : String) :
    (mergeRuntimeInputs args inputs).get? k = appendOption (args.get? k) (inputs.get? k) := by
  rw [mergeRuntimeInputs_eq,
    get?_foldl_combine (fun existing v => appendValue (existing.getD "") v)]
  cases inputs.get? k <;> rfl

theorem get?_overrideRuntimeInputs (args overrides : Map String String) (k : String) :
    (overrideRuntimeInputs args overrides).get? k = (overrides.get? k).or (args.get? k) :=
  get?_copy args overrides k

theorem get?_foldl_pointwise {α : Type}
    {op : Map String String → Map String String → Map String String}
    {value : Option String → Option String → Option String}
    (hop : ∀ m n k, (op m n).get? k = value (m.get? k) (n.get? k)) (f : α → Map String String)
    (l : List α) (m : Map String String) (k : String) :
    (l.foldl (fun acc x => op acc (f x)) m).get? k =
      (l.map fun x => (f x).get? k).foldl value (m.get? k) := by
  induction l generalizing m with
  | nil => rfl
  | cons x rest ih => rw [foldl_cons, ih, hop, map_cons, foldl_cons]

end Maps

section Scopes

theorem scopeBefore_trans {a b c : String} (hab : scopeBefore a b) (hbc : scopeBefore b c) :
    scopeBefore a c := by
  rcases hab with hab | ⟨hab, hle⟩
  · rcases hbc with hbc | ⟨hbc, _⟩
    · exact .inl (lt_trans hab hbc)
    · exact .inl (lt_of_lt_of_eq hab hbc)
  · rcases hbc with hbc | ⟨hbc, hle'⟩
    · exact .inl (lt_of_le_of_lt (le_of_eq hab) hbc)
    · rw [String.not_lt] at hle hle'
      exact .inr ⟨Eq.trans hab hbc, String.not_lt.mpr (String.le_trans hle hle')⟩

theorem scopeBefore_total (a b : String) : scopeBefore a b ∨ scopeBefore b a := by
  rcases lt_trichotomy (scopeSpecificity a) (scopeSpecificity b) with h | h | h
  · exact .inl (.inl h)
  · rcases String.le_total a b with hle | hle
    · exact .inl (.inr ⟨h, String.not_lt.mpr hle⟩)
    · exact .inr (.inr ⟨h.symm, String.not_lt.mpr hle⟩)
  · exact .inr (.inl h)

theorem scopeBefore_refl (a : String) : scopeBefore a a := (scopeBefore_total a a).elim id id

instance : IsTrans String scopeBefore := ⟨fun _ _ _ => scopeBefore_trans⟩

instance : Std.Total scopeBefore := ⟨scopeBefore_total⟩

variable {ν : Type} (scopes : Map String ν) (name ref : String)

theorem pairwise_matchingScopes : (matchingScopes scopes name ref).Pairwise scopeBefore :=
  pairwise_insertionSort scopeBefore _

theorem nodup_matchingScopes : (matchingScopes scopes name ref).Nodup :=
  (perm_insertionSort scopeBefore _).nodup_iff.mpr (scopes.nodup.filter _)

theorem mem_matchingScopes (scope : String) : scope ∈ matchingScopes scopes name ref ↔
      policyScopeMatches scope name ref = true ∧ scope ∈ scopes.keys := by
  unfold matchingScopes
  rw [(perm_insertionSort scopeBefore _).mem_iff, mem_filter]
  exact and_comm

end Scopes

section Resolution

def Sets (scopes : Map String (Map String String)) (name ref k scope v : String) : Prop :=
  policyScopeMatches scope name ref = true ∧
    ∃ inputs, scopes.get? scope = some inputs ∧ inputs.get? k = some v

-- The value of the scope that no other one which sets the key comes after.
def MostSpecific (scopes : Map String (Map String String)) (name ref k v : String) : Prop :=
  ∃ scope, Sets scopes name ref k scope v ∧
    ∀ other w, Sets scopes name ref k other w → scopeBefore other scope

-- The values that the scopes give the key, the least specific scope first.
def Ordered (scopes : Map String (Map String String)) (name ref k : String)
    (values : List String) : Prop :=
  ∃ settings : List (String × String),
    (settings.map Prod.fst).Nodup ∧ (settings.map Prod.fst).Pairwise scopeBefore ∧
      (∀ scope v, (scope, v) ∈ settings ↔ Sets scopes name ref k scope v) ∧
        values = settings.map Prod.snd

-- The effective value of a key. How the appended values are laid on the contract's is left open.
inductive Resolves (lay : Option String → List String → String) (ri : RuntimeInputs)
    (name ref k : String) (contract : Option String) : Option String → Prop
  | scopedReplace {v : String} :
      MostSpecific ri.scopedOverride name ref k v → Resolves lay ri name ref k contract (some v)
  | globalReplace {v : String} : (∀ scope w, ¬ Sets ri.scopedOverride name ref k scope w) →
      ri.globalOverride.get? k = some v → Resolves lay ri name ref k contract (some v)
  | appended {values : List String} : (∀ scope w, ¬ Sets ri.scopedOverride name ref k scope w) →
      ri.globalOverride.get? k = none → Ordered ri.scopedInputs name ref k values →
      (ri.global.get? k).toList ++ values ≠ [] →
      Resolves lay ri name ref k contract
        (some (lay contract ((ri.global.get? k).toList ++ values)))
  | unchanged : (∀ scope w, ¬ Sets ri.scopedOverride name ref k scope w) →
      ri.globalOverride.get? k = none → ri.global.get? k = none →
      (∀ scope w, ¬ Sets ri.scopedInputs name ref k scope w) →
      Resolves lay ri name ref k contract contract

-- The appended values are joined first, and then laid on the contract's value.
def layered (contract : Option String) (values : List String) : String :=
  joined (contract.toList ++ [joined values])

-- The contract's value and the appended ones as one list of lines.
def flat (contract : Option String) (values : List String) : String :=
  joined (contract.toList ++ values)

variable (scopes : Map String (Map String String)) (name ref k : String)

def settings : List (String × String) :=
  (matchingScopes scopes name ref).filterMap fun scope =>
    ((scopes.getD scope .empty).get? k).map (scope, ·)

theorem mem_settings (scope v : String) :
    (scope, v) ∈ settings scopes name ref k ↔ Sets scopes name ref k scope v := by
  unfold settings Sets
  rw [mem_filterMap]
  constructor
  · rintro ⟨s, hs, hset⟩
    obtain ⟨hmatches, hkey⟩ := (mem_matchingScopes scopes name ref s).mp hs
    obtain ⟨w, hw, hpair⟩ := map_eq_some_iff.mp hset
    cases hpair
    obtain ⟨inputs, hinputs⟩ :=
      isSome_iff_exists.mp ((scopes.mem_keys_iff_isSome scope).mp hkey)
    refine ⟨hmatches, inputs, hinputs, ?_⟩
    rw [Map.getD, hinputs] at hw
    exact hw
  · rintro ⟨hmatches, inputs, hinputs, hv⟩
    have hkey : scope ∈ scopes.keys := by
      rw [scopes.mem_keys_iff_isSome, hinputs]
      rfl
    refine ⟨scope, (mem_matchingScopes scopes name ref scope).mpr ⟨hmatches, hkey⟩, ?_⟩
    rw [Map.getD, hinputs]
    exact map_eq_some_iff.mpr ⟨v, hv, rfl⟩

theorem settings_scopes_sublist :
    ((settings scopes name ref k).map Prod.fst).Sublist (matchingScopes scopes name ref) := by
  unfold settings
  rw [map_filterMap]
  have hscopes (l : List String) : (l.filterMap fun scope =>
      (((scopes.getD scope .empty).get? k).map (scope, ·)).map Prod.fst).Sublist l := by
    induction l with
    | nil => exact List.Sublist.slnil
    | cons scope rest ih =>
      cases hvalue : (scopes.getD scope .empty).get? k with
      | none =>
        rw [filterMap_cons_none (by rw [hvalue]; rfl)]
        exact ih.cons scope
      | some v =>
        rw [filterMap_cons_some (by rw [hvalue]; rfl)]
        exact ih.cons_cons scope
  exact hscopes _

theorem settings_values : (settings scopes name ref k).map Prod.snd =
      ((matchingScopes scopes name ref).map fun scope =>
        (scopes.getD scope .empty).get? k).reduceOption := by
  unfold settings reduceOption
  rw [map_filterMap, filterMap_map]
  apply filterMap_congr
  intro scope _
  cases hvalue : (scopes.getD scope .empty).get? k with
  | none => simp [hvalue]
  | some v => simp [hvalue]

theorem ordered_settings :
    Ordered scopes name ref k ((settings scopes name ref k).map Prod.snd) := by
  have hsub := settings_scopes_sublist scopes name ref k
  exact ⟨_, hsub.nodup (nodup_matchingScopes scopes name ref),
    (pairwise_matchingScopes scopes name ref).sublist hsub, mem_settings scopes name ref k, rfl⟩

theorem mostSpecific_of_getLast {v : String}
    (hlast : ((settings scopes name ref k).map Prod.snd).getLast? = some v) :
    MostSpecific scopes name ref k v := by
  rw [getLast?_map] at hlast
  obtain ⟨⟨scope, w⟩, hscope, rfl⟩ := map_eq_some_iff.mp hlast
  have hsorted : ((settings scopes name ref k).map Prod.fst).Pairwise scopeBefore :=
    (pairwise_matchingScopes scopes name ref).sublist (settings_scopes_sublist scopes name ref k)
  obtain ⟨before, hbefore⟩ := getLast?_eq_some_iff.mp hscope
  refine ⟨scope, (mem_settings scopes name ref k scope w).mp ?_, fun other w' hother => ?_⟩
  · rw [hbefore]
    exact mem_append_right _ mem_cons_self
  · rw [← mem_settings, hbefore] at hother
    rw [hbefore, map_append, pairwise_append] at hsorted
    rcases mem_append.mp hother with h | h
    · exact hsorted.2.2 other (mem_map_of_mem h) scope mem_cons_self
    · cases mem_singleton.mp h
      exact scopeBefore_refl scope

theorem not_sets_of_getLast
    (hlast : ((settings scopes name ref k).map Prod.snd).getLast? = none) (scope w : String) :
    ¬ Sets scopes name ref k scope w := by
  have hnil : settings scopes name ref k = [] :=
    map_eq_nil_iff.mp (getLast?_eq_none_iff.mp hlast)
  rw [← mem_settings, hnil]
  exact not_mem_nil

end Resolution

section Effective

variable (ri : RuntimeInputs) (name ref k : String)

theorem get?_forPolicy_append : (RuntimeInputs.forPolicy (some ri) name ref).1.get? k =
      collected ((ri.global.get? k).toList ++
        (settings ri.scopedInputs name ref k).map Prod.snd) := by
  rw [settings_values, ← foldl_appendOption]
  exact get?_foldl_pointwise get?_mergeRuntimeInputs _ _ ri.global k

theorem get?_forPolicy_replace : (RuntimeInputs.forPolicy (some ri) name ref).2.get? k =
      ((settings ri.scopedOverride name ref k).map Prod.snd).getLast?.or
        (ri.globalOverride.get? k) := by
  rw [settings_values, ← foldl_or]
  exact get?_foldl_pointwise get?_overrideRuntimeInputs _ _ ri.globalOverride k

def effectiveInputs (inputs : Option RuntimeInputs) (contract : Map String String) :
    Map String String :=
  let (appendRuntime, replaceRuntime) := RuntimeInputs.forPolicy inputs name ref
  overrideRuntimeInputs (mergeRuntimeInputs contract appendRuntime) replaceRuntime

theorem get?_effectiveInputs (contract : Map String String) :
    (effectiveInputs name ref (some ri) contract).get? k =
      ((RuntimeInputs.forPolicy (some ri) name ref).2.get? k).or
        (appendOption (contract.get? k) ((RuntimeInputs.forPolicy (some ri) name ref).1.get? k)) := by
  unfold effectiveInputs
  rw [get?_overrideRuntimeInputs, get?_mergeRuntimeInputs]

theorem resolves_effectiveInputs (contract : Map String String) :
    Resolves layered ri name ref k (contract.get? k)
      ((effectiveInputs name ref (some ri) contract).get? k) := by
  rw [get?_effectiveInputs, get?_forPolicy_replace, get?_forPolicy_append]
  cases hlast : ((settings ri.scopedOverride name ref k).map Prod.snd).getLast? with
  | some v => exact .scopedReplace (mostSpecific_of_getLast _ _ _ _ hlast)
  | none =>
    have hscoped := not_sets_of_getLast _ _ _ _ hlast
    cases hglobal : ri.globalOverride.get? k with
    | some v => exact .globalReplace hscoped hglobal
    | none =>
      by_cases hvalues : (ri.global.get? k).toList ++
          (settings ri.scopedInputs name ref k).map Prod.snd = []
      · obtain ⟨hnone, hsettings⟩ := append_eq_nil_iff.mp hvalues
        rw [hvalues]
        refine .unchanged hscoped hglobal (toList_eq_nil_iff.mp hnone) ?_
        exact not_sets_of_getLast _ _ _ _ (by rw [hsettings]; rfl)
      · have happended := appendOption_collected (contract.get? k) hvalues
        rw [happended]
        exact .appended hscoped hglobal (ordered_settings _ _ _ _) hvalues

end Effective

end Chainloop.Policies
