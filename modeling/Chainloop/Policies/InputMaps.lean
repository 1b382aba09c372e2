import Chainloop.Policies.RuntimeInputs

namespace Chainloop.Policies

open Go List Map

section References

variable (order : RangeOrder String String)

def mergeRuntimeInputsRef (h : MapHeap String String) (args inputs : MapRef) :
    MapHeap String String × MapRef :=
  if (h.load inputs).size = 0 then (h, args)
  else
    let (made, merged) := h.make
    let copied := made.copyTo order merged args
    ((order.entries copied (copied.load inputs)).foldl (fun g e =>
        let existing := (g.load (some merged)).getD e.1 ""
        g.store merged e.1 (if existing ≠ "" then existing ++ "\n" ++ e.2 else e.2)) copied,
      some merged)

def overrideRuntimeInputsRef (h : MapHeap String String) (args overrides : MapRef) :
    MapHeap String String × MapRef :=
  if (h.load overrides).size = 0 then (h, args)
  else
    let (made, merged) := h.make
    ((made.copyTo order merged args).copyTo order merged overrides, some merged)

structure InputRefs (h : MapHeap String String) where
  global : MapRef
  scopedInputs : Map String MapRef
  globalOverride : MapRef
  scopedOverride : Map String MapRef
  global_allocated : h.Allocated global
  scoped_allocated : ∀ scope, h.Allocated (scopedInputs.getD scope none)
  globalOverride_allocated : h.Allocated globalOverride
  scopedOverride_allocated : ∀ scope, h.Allocated (scopedOverride.getD scope none)

namespace InputRefs

variable {h : MapHeap String String}

def values (ri : InputRefs h) : RuntimeInputs where
  global := h.load ri.global
  scopedInputs := ri.scopedInputs.map h.load
  globalOverride := h.load ri.globalOverride
  scopedOverride := ri.scopedOverride.map h.load

def valuesOf : Option (InputRefs h) → RuntimeInputs
  | none => ⟨.empty, .empty, .empty, .empty⟩
  | some ri => ri.values

def empty : Option (InputRefs h) → Bool
  | none => true
  | some ri => (h.load ri.global).size == 0 && ri.scopedInputs.size == 0 &&
      (h.load ri.globalOverride).size == 0 && ri.scopedOverride.size == 0

end InputRefs

def markMatch (matched : List String) (scope : String) : List String :=
  if scope ∈ matched then matched else matched ++ [scope]

def applyScopes (op : MapHeap String String → MapRef → MapRef → MapHeap String String × MapRef)
    (scopes : Map String MapRef) (name ref : String) (h : MapHeap String String)
    (start : MapRef) (matched : List String) : (MapHeap String String × MapRef) × List String :=
  (matchingScopes scopes name ref).foldl (fun state scope =>
    (op state.1.1 state.1.2 (scopes.getD scope none), markMatch state.2 scope))
    ((h, start), matched)

structure PolicyInputs where
  heap : MapHeap String String
  appendInputs : MapRef
  replaceInputs : MapRef
  matched : List String

def forPolicyRef {h : MapHeap String String} (inputs : Option (InputRefs h)) (name ref : String) :
    PolicyInputs :=
  match inputs with
  | none => ⟨h, none, none, []⟩
  | some ri =>
    if InputRefs.empty (some ri) then ⟨h, none, none, []⟩
    else
      let ((g, appendInputs), matched) :=
        applyScopes (mergeRuntimeInputsRef order) ri.scopedInputs name ref h ri.global []
      let ((g, replaceInputs), matched) :=
        applyScopes (overrideRuntimeInputsRef order) ri.scopedOverride name ref g
          ri.globalOverride matched
      ⟨g, appendInputs, replaceInputs, matched⟩

structure AttachmentInputs where
  heap : MapHeap String String
  withArgs : MapRef
  matched : List String

def resolveInputs {h : MapHeap String String} (inputs : Option (InputRefs h))
    (contract : MapRef) (name ref : String) : AttachmentInputs :=
  let runtime := forPolicyRef order inputs name ref
  let (g, withArgs) := mergeRuntimeInputsRef order runtime.heap contract runtime.appendInputs
  let (g, withArgs) := overrideRuntimeInputsRef order g withArgs runtime.replaceInputs
  ⟨g, withArgs, runtime.matched⟩

variable {h : MapHeap String String}

theorem get?_of_size {m : Map String String} (hsize : m.size = 0) (k : String) :
    m.get? k = none := by
  rw [get?, length_eq_zero_iff.mp hsize]
  rfl

-- Each of the two operations computes what its counterpart does with the maps themselves, for
-- maps that agree with those on the heap.
def Refines (op : MapHeap String String → MapRef → MapRef → MapHeap String String × MapRef)
    (value : Option String → Option String → Option String) : Prop :=
  ∀ (h : MapHeap String String) (args inputs : MapRef), h.Allocated args → h.Allocated inputs →
    ∀ m : Map String String,
      (∀ k, m.get? k = value ((h.load args).get? k) ((h.load inputs).get? k)) →
        h.Computes (op h args inputs) m

theorem mergeRuntimeInputsRef_refines : Refines (mergeRuntimeInputsRef order) appendOption := by
  intro h args inputs hargs hinputs m hm
  unfold mergeRuntimeInputsRef
  split
  · rename_i hsize
    refine ⟨.refl h, hargs, fun k => ?_⟩
    rw [hm, get?_of_size hsize]
    rfl
  · obtain ⟨copied, hcopied, hcopy⟩ := MapHeap.exists_copyTo_push order h .empty hargs
    have hload : (h.push copied).load inputs = h.load inputs := (h.extends_push copied).load hinputs
    obtain ⟨merged, hmerged, hmerge⟩ := MapHeap.exists_foldl_range_push order
      (fun existing v => appendValue (existing.getD "") v) h (h.push copied) copied (h.load inputs)
    have hget (k) : merged.get? k = m.get? k := by
      rw [hmerge, hm, hcopy, get?_empty, Option.or_none]
      cases (h.load inputs).get? k <;> rfl
    simp only [MapHeap.make, hcopied, hload]
    exact hmerged ▸ MapHeap.Computes.of_push h hget

theorem overrideRuntimeInputsRef_refines :
    Refines (overrideRuntimeInputsRef order) fun existing v => v.or existing := by
  intro h args overrides hargs hoverrides m hm
  unfold overrideRuntimeInputsRef
  split
  · rename_i hsize
    refine ⟨.refl h, hargs, fun k => ?_⟩
    rw [hm, get?_of_size hsize]
    rfl
  · obtain ⟨copied, hcopied, hcopy⟩ := MapHeap.exists_copyTo_push order h .empty hargs
    obtain ⟨merged, hmerged, hmerge⟩ := MapHeap.exists_copyTo_push order h copied hoverrides
    have hget (k) : merged.get? k = m.get? k := by
      rw [hmerge, hm, hcopy, get?_empty, Option.or_none]
    simp only [MapHeap.make, hcopied, hmerged]
    exact MapHeap.Computes.of_push h hget

theorem matchingScopes_map (scopes : Map String MapRef) (name ref : String) :
    matchingScopes (scopes.map h.load) name ref = matchingScopes scopes name ref := by
  rw [matchingScopes, keys_map, matchingScopes]

theorem getD_map_load (scopes : Map String MapRef) (scope : String) :
    (scopes.map h.load).getD scope .empty = h.load (scopes.getD scope none) := by
  rw [Map.getD, Map.get?_map, Map.getD]
  cases scopes.get? scope <;> rfl

theorem applyScopes_spec {value : Option String → Option String → Option String}
    {pure : Map String String → Map String String → Map String String} (hop : Refines op value)
    (hpure : ∀ m n k, (pure m n).get? k = value (m.get? k) (n.get? k)) (name ref : String)
    {g : MapHeap String String} (hext : h.Extends g) {scopes : Map String MapRef}
    (hscopes : ∀ scope, h.Allocated (scopes.getD scope none)) (hstart : h.Allocated start)
    (matched : List String) :
    g.Computes (applyScopes op scopes name ref g start matched).1
        ((matchingScopes (scopes.map h.load) name ref).foldl
          (fun acc scope => pure acc ((scopes.map h.load).getD scope .empty)) (h.load start)) ∧
      (applyScopes op scopes name ref g start matched).2 =
        (matchingScopes (scopes.map h.load) name ref).foldl markMatch matched := by
  -- by the scopes: each one adds to a heap that holds the maps of `h`
  have hloop : ∀ (l : List String) (g : MapHeap String String) (acc : MapRef) (m : Map String String)
      (matched : List String), h.Extends g → g.Allocated acc →
      (∀ k, (g.load acc).get? k = m.get? k) →
      let out := l.foldl (fun state scope => (op state.1.1 state.1.2 (scopes.getD scope none),
        markMatch state.2 scope)) ((g, acc), matched)
      g.Computes out.1 (l.foldl (fun acc scope => pure acc (h.load (scopes.getD scope none))) m) ∧
        out.2 = l.foldl markMatch matched := by
    intro l
    induction l with
    | nil => exact fun g acc m matched _ hacc hm => ⟨⟨.refl g, hacc, hm⟩, rfl⟩
    | cons scope rest ih =>
      intro g acc m matched hext hacc hm
      have hstep := hop g acc (scopes.getD scope none) hacc (hext.allocated (hscopes scope))
        (pure m (h.load (scopes.getD scope none)))
        (fun k => by rw [hpure, hext.load (hscopes scope), hm])
      obtain ⟨hrest, hmatched⟩ := ih (op g acc (scopes.getD scope none)).1
        (op g acc (scopes.getD scope none)).2 _ (markMatch matched scope)
        (hext.trans hstep.unmodified) hstep.allocated hstep.get?
      exact ⟨⟨hstep.unmodified.trans hrest.unmodified, hrest.allocated, hrest.get?⟩, hmatched⟩
  simp only [matchingScopes_map, getD_map_load]
  refine hloop _ g start _ matched hext (hext.allocated hstart) fun k => ?_
  rw [hext.load hstart]

structure ForPolicy (inputs : Option (InputRefs h)) (name ref : String) (out : PolicyInputs) :
    Prop where
  unmodified : h.Extends out.heap
  append_allocated : out.heap.Allocated out.appendInputs
  replace_allocated : out.heap.Allocated out.replaceInputs
  append : ∀ k, (out.heap.load out.appendInputs).get? k =
    (RuntimeInputs.forPolicy (some (InputRefs.valuesOf inputs)) name ref).1.get? k
  replace : ∀ k, (out.heap.load out.replaceInputs).get? k =
    (RuntimeInputs.forPolicy (some (InputRefs.valuesOf inputs)) name ref).2.get? k
  matched : out.matched = (matchingScopes (InputRefs.valuesOf inputs).scopedInputs name ref ++
    matchingScopes (InputRefs.valuesOf inputs).scopedOverride name ref).foldl markMatch []

theorem forPolicyRef_none (name ref : String) :
    ForPolicy (none : Option (InputRefs h)) name ref ⟨h, none, none, []⟩ :=
  ⟨.refl h, nofun, nofun, fun _ => rfl, fun _ => rfl, rfl⟩

theorem forPolicyRef_empty (ri : InputRefs h) (hempty : InputRefs.empty (some ri) = true)
    (name ref : String) : ForPolicy (some ri) name ref ⟨h, none, none, []⟩ := by
  simp only [InputRefs.empty, Bool.and_eq_true, beq_iff_eq] at hempty
  obtain ⟨⟨⟨hglobal, hscoped⟩, hoverride⟩, hscopedOverride⟩ := hempty
  have hnone (scopes : Map String MapRef) : scopes.size = 0 →
      matchingScopes (scopes.map h.load) name ref = [] := by
    intro hsize
    rw [matchingScopes_map, matchingScopes, Map.keys, length_eq_zero_iff.mp hsize]
    rfl
  refine ⟨.refl h, fun i hi => ?_, fun i hi => ?_, fun k => ?_, fun k => ?_, ?_⟩
  · cases hi
  · cases hi
  · simp only [RuntimeInputs.forPolicy, InputRefs.valuesOf, InputRefs.values, hnone _ hscoped]
    exact (get?_of_size hglobal k).symm
  · simp only [RuntimeInputs.forPolicy, InputRefs.valuesOf, InputRefs.values, hnone _ hscopedOverride]
    exact (get?_of_size hoverride k).symm
  · simp only [InputRefs.valuesOf, InputRefs.values, hnone _ hscoped, hnone _ hscopedOverride]
    rfl

theorem forPolicyRef_spec (inputs : Option (InputRefs h)) (name ref : String) :
    ForPolicy inputs name ref (forPolicyRef order inputs name ref) := by
  cases inputs with
  | none => exact forPolicyRef_none name ref
  | some ri =>
    unfold forPolicyRef
    dsimp only
    split_ifs with hempty
    · exact forPolicyRef_empty ri hempty name ref
    · obtain ⟨happend, hmatched⟩ := applyScopes_spec (mergeRuntimeInputsRef_refines order)
        get?_mergeRuntimeInputs name ref (.refl h) ri.scoped_allocated ri.global_allocated []
      obtain ⟨hreplace, hmatched'⟩ := applyScopes_spec (overrideRuntimeInputsRef_refines order)
        get?_overrideRuntimeInputs name ref happend.unmodified ri.scopedOverride_allocated
        ri.globalOverride_allocated
        (applyScopes (mergeRuntimeInputsRef order) ri.scopedInputs name ref h ri.global []).2
      refine ⟨happend.unmodified.trans hreplace.unmodified,
        hreplace.unmodified.allocated happend.allocated, hreplace.allocated, fun k => ?_,
        hreplace.get?, ?_⟩
      · exact (congrArg (get? · k) (hreplace.unmodified.load happend.allocated)).trans
          (happend.get? k)
      · exact hmatched'.trans (by rw [hmatched, foldl_append]; rfl)

theorem mem_foldl_markMatch (l matched : List String) (scope : String) :
    scope ∈ l.foldl markMatch matched ↔ scope ∈ matched ∨ scope ∈ l := by
  induction l generalizing matched with
  | nil => simp
  | cons x rest ih =>
    rw [foldl_cons, ih, markMatch]
    split_ifs with hx
    · rw [mem_cons]
      constructor
      · exact fun hscope => hscope.imp_right .inr
      · rintro (hscope | rfl | hscope)
        · exact .inl hscope
        · exact .inl hx
        · exact .inr hscope
    · rw [mem_append, mem_singleton, or_assoc, mem_cons]

theorem nodup_foldl_markMatch (l : List String) {matched : List String} (hmatched : matched.Nodup) :
    (l.foldl markMatch matched).Nodup := by
  induction l generalizing matched with
  | nil => exact hmatched
  | cons x rest ih =>
    refine ih ?_
    unfold markMatch
    split_ifs with hx
    · exact hmatched
    · exact nodup_append.mpr ⟨hmatched, nodup_singleton x, by
        rintro y hy z hz rfl
        exact hx (mem_singleton.mp hz ▸ hy)⟩

structure ResolvesInputs (lay : Option String → List String → String)
    (inputs : Option (InputRefs h)) (contract : MapRef) (name ref : String)
    (out : AttachmentInputs) : Prop where
  values : ∀ k, Resolves lay (InputRefs.valuesOf inputs) name ref k ((h.load contract).get? k)
    ((out.heap.load out.withArgs).get? k)
  unmodified : h.Extends out.heap
  matched_nodup : out.matched.Nodup
  mem_matched : ∀ scope, scope ∈ out.matched ↔ policyScopeMatches scope name ref = true ∧
    (scope ∈ (InputRefs.valuesOf inputs).scopedInputs.keys ∨
      scope ∈ (InputRefs.valuesOf inputs).scopedOverride.keys)

theorem resolveInputs_layered (h : MapHeap String String) (inputs : Option (InputRefs h))
    (contract : { r : MapRef // h.Allocated r }) (name ref : String) :
    ResolvesInputs layered inputs contract.1 name ref
      (resolveInputs order inputs contract.1 name ref) := by
  have hpolicy := forPolicyRef_spec order inputs name ref
  obtain ⟨contract, hcontract⟩ := contract
  have hmerge := mergeRuntimeInputsRef_refines order _ contract _
    (hpolicy.unmodified.allocated hcontract) hpolicy.append_allocated
    (mergeRuntimeInputs (h.load contract)
      (RuntimeInputs.forPolicy (some (InputRefs.valuesOf inputs)) name ref).1)
    (fun k => by rw [get?_mergeRuntimeInputs, hpolicy.append, hpolicy.unmodified.load hcontract])
  have hoverride := overrideRuntimeInputsRef_refines order _ _ _ hmerge.allocated
    (hmerge.unmodified.allocated hpolicy.replace_allocated)
    (effectiveInputs name ref (some (InputRefs.valuesOf inputs)) (h.load contract))
    (fun k => by
      rw [hmerge.get?, hmerge.unmodified.load hpolicy.replace_allocated, hpolicy.replace]
      exact get?_overrideRuntimeInputs _ _ k)
  have hmatched : (resolveInputs order inputs contract name ref).matched = _ := hpolicy.matched
  refine ⟨fun k => ?_, hpolicy.unmodified.trans (hmerge.unmodified.trans hoverride.unmodified),
    ?_, fun scope => ?_⟩
  · have hresolves := resolves_effectiveInputs (InputRefs.valuesOf inputs) name ref k (h.load contract)
    rw [← hoverride.get?] at hresolves
    exact hresolves
  · rw [hmatched]
    exact nodup_foldl_markMatch _ nodup_nil
  · rw [hmatched, mem_foldl_markMatch, mem_append, mem_matchingScopes, mem_matchingScopes,
      ← and_or_left]
    simp

end References

section Flat

def inEntryOrder : RangeOrder String String := ⟨fun _ m => m.entries, fun _ _ => .refl _⟩

def threeMaps : MapHeap String String :=
  ⟨[.ofList [("k", "a")], .ofList [("k", "")], .ofList [("k", "x")]]⟩

def emptyGlobal : InputRefs threeMaps where
  global := some 1
  scopedInputs := .ofList [("p", some 2)]
  globalOverride := none
  scopedOverride := .empty
  global_allocated := by rintro _ ⟨⟩; decide
  scoped_allocated scope := by
    rw [Map.getD, Map.get?]
    by_cases hscope : scope = "p"
    · rw [hscope]
      rintro _ ⟨⟩
      decide
    · rw [show (ofList [("p", some 2)] : Map String MapRef).entries = [("p", some 2)] from rfl,
        List.lookup_cons, beq_eq_false_iff_ne.mpr hscope]
      exact nofun
  globalOverride_allocated := nofun
  scopedOverride_allocated _ := nofun

theorem flat_after_empty (values : List String) : flat (some "a") ("" :: values) ≠ "a\nx" := by
  intro heq
  have hlist := congrArg String.toList heq
  rw [flat, Option.toList_some, singleton_append, joined_cons (by decide)] at hlist
  cases values <;> simp at hlist

theorem empty_global_left_out : ¬ ∀ (order : RangeOrder String String) (h : MapHeap String String)
      (inputs : Option (InputRefs h)) (contract : { r : MapRef // h.Allocated r })
      (name ref : String), ResolvesInputs flat inputs contract.1 name ref
        (resolveInputs order inputs contract.1 name ref) := by
  intro hall
  have hresolves := (hall inEntryOrder threeMaps (some emptyGlobal)
    ⟨some 0, by rintro _ ⟨⟩; decide⟩ "p" "").values "k"
  have hvalue : ((resolveInputs inEntryOrder (some emptyGlobal) (some 0) "p" "").heap.load
      (resolveInputs inEntryOrder (some emptyGlobal) (some 0) "p" "").withArgs).get? "k" =
        some "a\nx" := by decide
  rw [hvalue] at hresolves
  generalize hout : some "a\nx" = out at hresolves
  cases hresolves with
  | scopedReplace hspecific =>
    obtain ⟨scope, ⟨_, inputs, hinputs, _⟩, _⟩ := hspecific
    cases hinputs
  | globalReplace _ hglobal => cases hglobal
  | appended => exact flat_after_empty _ (Option.some.inj hout).symm
  | unchanged _ _ hglobal _ => cases hglobal

end Flat

end Chainloop.Policies
