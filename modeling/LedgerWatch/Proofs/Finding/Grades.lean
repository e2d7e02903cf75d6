import LedgerWatch.Proofs.Finding.Ranked
import Mathlib.Tactic.SplitIfs

namespace LedgerWatch

namespace Bands

variable (b : Bands)

theorem priority_classify_le {x y : Float} (h : x ≤ y) :
    (b.classify y).priority ≤ (b.classify x).priority := by
  have hreach : ∀ limit : Float, limit ≤ x → limit ≤ y := fun _ hx => Binary64.le_trans hx h
  unfold classify
  split_ifs <;> grind [Severity.priority]

theorem classify_of_isNaN {x : Float} (h : x.isNaN) : b.classify x = .minimal := by
  simp only [classify, Binary64.not_le_of_isNaN h, if_false]

end Bands

theorem Severity.priority_le_minimal (s : Severity) : s.priority ≤ Severity.minimal.priority := by
  cases s <;> decide

namespace Ranking

variable {b : Bands} {f g : Finding}

/-- No finding has a higher score than one of a more urgent severity. -/
theorem weight_le_of_priority_lt (hf : f.GradedBy b) (hg : g.GradedBy b)
    (h : f.severity.priority < g.severity.priority) : weight g.score ≤ weight f.score := by
  rw [hf, hg] at h
  by_cases hfn : f.score.isNaN
  · -- nothing is less urgent than what has no number for a score
    rw [b.classify_of_isNaN hfn] at h
    exact absurd (Severity.priority_le_minimal _) (Nat.not_le_of_lt h)
  · by_cases hgn : g.score.isNaN
    · rw [weight, if_pos hgn]
      exact Binary64.negative_infinity_le (isNaN_weight _)
    · refine (weight_total g.score f.score).resolve_right fun hle => ?_
      rw [weight, if_neg hfn, weight, if_neg hgn] at hle
      exact Nat.not_le_of_lt h (b.priority_classify_le hle)

theorem weight_le_of_precedes (hf : f.GradedBy b) (hg : g.GradedBy b) (h : precedes f g) :
    weight g.score ≤ weight f.score := by
  rcases precedes_iff.1 h with h | ⟨-, h⟩
  · exact weight_le_of_priority_lt hf hg h
  · exact h

/-- From the highest score to the lowest; what is no number comes last. -/
def Descending (fs : List Finding) : Prop :=
  fs.Pairwise fun f g => weight g.score ≤ weight f.score

theorem descending_prioritize {fs : List Finding} (h : ∀ f ∈ fs, f.GradedBy b) :
    Descending (prioritize fs) := by
  have hmem : ∀ f ∈ prioritize fs, f.GradedBy b := fun f hf =>
    h f ((prioritize_perm fs).mem_iff.1 hf)
  refine (pairwise_prioritize fs).imp_of_mem ?_
  intro f g hf hg hfg
  exact weight_le_of_precedes (hmem f hf) (hmem g hg) hfg

end Ranking

end LedgerWatch
