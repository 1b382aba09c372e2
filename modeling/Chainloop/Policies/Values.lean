import Chainloop.Policies.RuntimeInputs

namespace Chainloop.Policies

open Go List Option Map

-- A single value reads as a list of one, and no value as the empty list.
def valueList : Option ArgValue → List String
  | none => []
  | some (.scalar value) => [value]
  | some (.list values) => values

def inputValue (v : String) : Option ArgValue :=
  getValue ((splitString "\n" (trimRight (· == '\n') v)).flatMap splitArgs)

theorem getInputArguments_eq (inputs : Map String String) :
    getInputArguments inputs = inputs.entries.foldl (fun args e => match inputValue e.2 with
      | none => args
      | some value => args.set e.1 value) .empty := by
  refine foldl_ext _ _ _ fun args e _ => ?_
  unfold inputValue
  cases getValue ((splitString "\n" (trimRight (· == '\n') e.2)).flatMap splitArgs) <;> rfl

theorem get?_getInputArguments (inputs : Map String String) (k : String) :
    (getInputArguments inputs).get? k = (inputs.get? k).bind inputValue := by
  have hloop : ∀ (l : List (String × String)) (args : Map String ArgValue), (l.map Prod.fst).Nodup →
      (l.foldl (fun args e => match inputValue e.2 with
        | none => args
        | some value => args.set e.1 value) args).get? k =
        ((l.lookup k).bind inputValue).or (args.get? k) := by
    intro l
    induction l with
    | nil => exact fun args _ => rfl
    | cons e rest ih =>
      intro args hnodup
      obtain ⟨hkey, hnodup⟩ := nodup_cons.mp hnodup
      rw [foldl_cons, ih _ hnodup, lookup_cons]
      by_cases hk : k = e.1
      · have hlater : rest.lookup k = none := by
          refine lookup_eq_none_iff.mpr fun p hp => ?_
          have hne : k ≠ p.1 := fun heq => hkey (mem_map.mpr ⟨p, hp, heq.symm.trans hk⟩)
          exact bne_iff_ne.mpr hne
        rw [hlater]
        cases hvalue : inputValue e.2 <;> simp [hvalue, hk]
      · rw [beq_eq_false_iff_ne.mpr hk]
        cases inputValue e.2 <;> simp [get?_set_ne _ _ hk]
  rw [getInputArguments_eq, hloop inputs.entries .empty inputs.nodup, get?_empty, or_none,
    get?]

theorem valueList_getValue (values : List String) :
    valueList (getValue values) = (values.map trimSpace).filter (· ≠ "") := by
  unfold getValue
  generalize (values.map trimSpace).filter (· ≠ "") = lines
  match lines with
  | [] => rfl
  | [line] => rfl
  | first :: second :: rest => rfl

theorem splitString_newline_append (a b : String) :
    splitString "\n" (a ++ "\n" ++ b) = splitString "\n" a ++ splitString "\n" b := by
  have hlist : (a ++ "\n" ++ b).toList = a.toList ++ '\n' :: b.toList := by simp
  rw [splitString, hlist, show "\n".toList = ['\n'] from rfl, Text.split_append, map_append]
  rfl

-- Blank lines have no values, so that the trimming of those at the end makes no difference.
theorem flatMap_splitArgs_trimRight (v : String) :
    (splitString "\n" (trimRight (· == '\n') v)).flatMap splitArgs =
      (splitString "\n" v).flatMap splitArgs := by
  have hblank : splitArgs "" = [] := by decide
  have hlast (l : List Char) : (splitString "\n" (trimRight (· == '\n') (String.ofList l))).flatMap
      splitArgs = (splitString "\n" (String.ofList l)).flatMap splitArgs := by
    induction l using reverseRecOn with
    | nil => rfl
    | append_singleton l c ih =>
      by_cases hc : c = '\n'
      · have hline : String.ofList (l ++ [c]) = String.ofList l ++ "\n" ++ "" := by simp [hc]
        have htrim : trimRight (· == '\n') (String.ofList (l ++ [c])) =
            trimRight (· == '\n') (String.ofList l) := by
          simp [trimRight, hc]
        rw [htrim, ih, hline, splitString_newline_append, flatMap_append]
        rw [show splitString "\n" "" = [""] from rfl, flatMap_singleton, hblank, append_nil]
      · have htrim : trimRight (· == '\n') (String.ofList (l ++ [c])) = String.ofList (l ++ [c]) := by
          simp [trimRight, hc]
        rw [htrim]
  have hv := hlast v.toList
  rw [String.ofList_toList] at hv
  exact hv

theorem valueList_inputValue (v : String) : valueList (inputValue v) =
      (((splitString "\n" v).flatMap splitArgs).map trimSpace).filter (· ≠ "") := by
  rw [inputValue, valueList_getValue, flatMap_splitArgs_trimRight]

theorem valueList_empty : valueList (inputValue "") = [] := by decide

theorem valueList_appendValue (a b : String) : valueList (inputValue (appendValue a b)) =
      valueList (inputValue a) ++ valueList (inputValue b) := by
  unfold appendValue
  by_cases ha : a = ""
  · rw [if_neg (not_not.mpr ha), ha, valueList_empty, nil_append]
  · rw [if_pos ha, valueList_inputValue, valueList_inputValue, valueList_inputValue,
      splitString_newline_append, flatMap_append, map_append, filter_append]

theorem getInputArguments_merge (contract runtime : Map String String) (k : String) :
    valueList ((getInputArguments (mergeRuntimeInputs contract runtime)).get? k) =
      valueList ((getInputArguments contract).get? k) ++
        valueList ((getInputArguments runtime).get? k) := by
  rw [get?_getInputArguments, get?_getInputArguments, get?_getInputArguments,
    get?_mergeRuntimeInputs]
  cases runtime.get? k with
  | none => simp [appendOption, valueList]
  | some b =>
    rw [appendOption, bind_some, bind_some, valueList_appendValue]
    cases contract.get? k with
    | none => rw [getD_none, bind_none, valueList_empty, valueList]
    | some a => rw [getD_some, bind_some]

end Chainloop.Policies
