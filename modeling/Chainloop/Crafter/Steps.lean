import Chainloop.Crafter.Merge
import Chainloop.Crafter.Stage

namespace Chainloop.Crafting

open Go Policies Materials Option

structure AddCall where
  env : AddEnv
  material : SchemaMaterial
  value : String
  annotations : Map String String
  opts : AddOpts

def Op.addCall? (st : CraftingState) : Op → Option AddCall
  | .addContractFree env kind name value annotations opts =>
    (MaterialType.value? kind).map fun type =>
      let name := if name = "" then "material-" ++ env.unixNano.repr else name
      ⟨env, freeMaterial type name, value, annotations, opts⟩
  | .addFromContract env key value annotations opts =>
    (Contract.lookup st.contract key).map fun m => ⟨env, m, value, annotations, opts⟩
  | .addArchive .. => none
  | .evaluate .. => none

def AddCall.Staged (call : AddCall) (st : CraftingState) (l : List PolicyEvaluation)
    (outcome : Outcome Material) (st' : CraftingState) : Prop :=
  Crafting.Staged call.env.stage st call.material call.value call.annotations call.opts l outcome st'

-- A single add fails before or while staging, or at the write with the material
-- staged, or it is written.
inductive Added (call : AddCall) (c : Crafter) (l : List PolicyEvaluation) :
    Outcome Unit → Crafter → Prop
  | stopped (e : GoError) (st : CraftingState) (hst : call.Staged c.state l (.failed e) st) :
      Added call c l (.failed e) { c with state := st }
  | notWritten (e : GoError) (st : CraftingState) (mt : Material)
      (hst : call.Staged c.state l (.ok mt) st) (hwrite : ∃ err, call.env.write = .error err) :
      Added call c l (.failed e) { c with state := st }
  | written (st : CraftingState) (mt : Material) (hst : call.Staged c.state l (.ok mt) st)
      (hwrite : call.env.write = .ok ()) :
      Added call c l (.ok ()) ⟨st, c.written ++ [st.snapshot]⟩

theorem Added.written_or {c c' : Crafter} (h : Added call c l outcome c') :
    c'.written = c.written ∨ c'.written = c.written ++ [c'.state.snapshot] := by
  cases h with
  | stopped | notWritten => exact .inl rfl
  | written => exact .inr rfl

theorem addMaterial_added (call : AddCall) (c : Crafter) (l : List PolicyEvaluation)
    (hl : c.state.policyEvaluations.Holds l) :
    let result := addMaterial call.env c call.material call.value call.annotations call.opts
    Added call c l result.1.discard result.2 := by
  have hstage := stageMaterial_staged call.env.stage c.state call.material call.value
    call.annotations call.opts l hl
  simp only [addMaterial] at hstage ⊢
  generalize stageMaterial call.env.stage c.state call.material call.value call.annotations
    call.opts = staged at hstage ⊢
  obtain ⟨outcome, st⟩ := staged
  cases outcome with
  | failed e => exact .stopped e st hstage
  | panicked => exact absurd rfl hstage.not_panicked
  | ok mt =>
    cases hw : call.env.write with
    | error err => exact .notWritten _ st mt hstage ⟨err, hw⟩
    | ok _ => exact .written st mt hstage hw

theorem apply_of_addCall? {op : Op} {c : Crafter} (h : op.addCall? c.state = some call)
    (hl : c.state.policyEvaluations.Holds l) :
    Added call c l (op.apply c).1 (op.apply c).2 := by
  cases op with
  | addContractFree env kind name value annotations opts =>
    obtain ⟨type, htype, rfl⟩ := map_eq_some_iff.mp h
    have hadd := addMaterial_added ⟨env, freeMaterial type
      (if name = "" then "material-" ++ env.unixNano.repr else name), value, annotations, opts⟩ c l hl
    simpa only [Op.apply, addMaterialContractFree, htype] using hadd
  | addFromContract env key value annotations opts =>
    obtain ⟨m, hm, rfl⟩ := map_eq_some_iff.mp h
    have hadd := addMaterial_added ⟨env, m, value, annotations, opts⟩ c l hl
    simpa only [Op.apply, addMaterialFromContract, hm] using hadd
  | addArchive => cases h
  | evaluate => cases h

inductive Evaluates (env : EvaluateEnv) (statement : Statement) (phase : EvalPhase) (c : Crafter)
    (l : List PolicyEvaluation) : Outcome Unit → Crafter → Prop
  | stopped (e : GoError) : Evaluates env statement phase c l (.failed e) c
  | notWritten (e : GoError) (news : List PolicyEvaluation) (evs : Slice PolicyEvaluation)
      (hnews : statementEvaluations env c.state statement phase = .ok news)
      (hevs : evs.Holds (mergeEvaluations news l)) :
      Evaluates env statement phase c l (.failed e)
        { c with state := { c.state with policyEvaluations := evs } }
  | written (news : List PolicyEvaluation) (evs : Slice PolicyEvaluation)
      (hnews : statementEvaluations env c.state statement phase = .ok news)
      (hevs : evs.Holds (mergeEvaluations news l)) :
      Evaluates env statement phase c l (.ok ()) ⟨{ c.state with policyEvaluations := evs },
          c.written ++ [{ c.state with policyEvaluations := evs }.snapshot]⟩

theorem Evaluates.written_or {c c' : Crafter} (h : Evaluates env statement phase c l outcome c') :
    c'.written = c.written ∨ c'.written = c.written ++ [c'.state.snapshot] := by
  cases h with
  | stopped | notWritten => exact .inl rfl
  | written => exact .inr rfl

theorem evaluateAttestationPolicies_evaluates (env : EvaluateEnv) (c : Crafter)
    (statement : Statement) (phase : EvalPhase) (l : List PolicyEvaluation)
    (hl : c.state.policyEvaluations.Holds l) :
    Evaluates env statement phase c l (evaluateAttestationPolicies env c statement phase).1
      (evaluateAttestationPolicies env c statement phase).2 := by
  unfold evaluateAttestationPolicies
  cases hnews : statementEvaluations env c.state statement phase with
  | error e => exact .stopped e
  | ok news =>
    have hevs := Slice.holds_nil.append env.grow (mergeEvaluations news l)
    simp only [hl.deref]
    cases env.write with
    | error e => exact .notWritten _ news _ hnews hevs
    | ok _ => exact .written news _ hnews hevs

theorem statementEvaluations_materialName
    (h : statementEvaluations env st statement phase = .ok news) :
    ∀ ev ∈ news, ev.materialName = "" := by
  obtain ⟨policies, hpolicies, h⟩ := bind_eq_ok.mp h
  obtain ⟨groups, hgroups, h⟩ := bind_eq_ok.mp h
  cases h
  rw [wrapErr_eq_ok] at hpolicies hgroups
  intro ev hev
  rcases List.mem_append.mp hev with hev | hev
  · exact verifyStatement_materialName hpolicies ev hev
  · exact groupsVerifyStatement_materialName hgroups ev hev

end Chainloop.Crafting
