import Chainloop.Crafter.Evaluate
import Chainloop.Lists.FirstMatch

namespace Chainloop.Crafting

open Go Policies Materials Map

def isMaterialLevel (ev : PolicyEvaluation) : Bool := ev.materialName != ""

theorem policyEvalMatches_equivalence : FirstMatch.Equivalence policyEvalMatches where
  refl ev := by simp [policyEvalMatches, equal_refl]
  symm a b h := by
    simp only [policyEvalMatches, Bool.and_eq_true, beq_iff_eq] at h ⊢
    exact ⟨h.1.symm, equal_symm h.2⟩
  trans a b c h h' := by
    simp only [policyEvalMatches, Bool.and_eq_true, beq_iff_eq] at h h' ⊢
    exact ⟨h.1.trans h'.1, equal_trans h.2 h'.2⟩

theorem preserveStored_eq :
    preserveStored = FirstMatch.addExempt policyEvalMatches isMaterialLevel := by
  funext acc ev
  by_cases h : ev.materialName = ""
  · simp [preserveStored, FirstMatch.addExempt, isMaterialLevel, h, addUnlessMatched, FirstMatch.add]
  · simp [preserveStored, FirstMatch.addExempt, isMaterialLevel, h]

-- The two loops of EvaluateAttestationPolicies together keep the first of the new
-- and then the stored evaluations that match.
theorem mergeEvaluations_eq (stored : List PolicyEvaluation)
    (hnews : ∀ ev ∈ news, ev.materialName = "") :
    mergeEvaluations news stored =
      FirstMatch.keepFirst policyEvalMatches isMaterialLevel (news ++ stored) := by
  have hlevel : ∀ ev ∈ news, isMaterialLevel ev = false := fun ev hev => by
    simp [isMaterialLevel, hnews ev hev]
  have hfirst : news.foldl addUnlessMatched [] =
      news.foldl (FirstMatch.addExempt policyEvalMatches isMaterialLevel) [] :=
    FirstMatch.foldl_add_eq news [] hlevel
  rw [mergeEvaluations, preserveStored_eq, hfirst, FirstMatch.keepFirst, List.foldl_append]

end Chainloop.Crafting
