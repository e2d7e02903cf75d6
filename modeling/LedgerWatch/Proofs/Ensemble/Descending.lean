import LedgerWatch.Proofs.Ensemble.Distinct
import LedgerWatch.Proofs.Finding.Grades

namespace LedgerWatch

theorem Outcome.forall_mem_findings {P : Finding → Prop} {o : Outcome}
    (h : ∀ fs, o = .found fs → ∀ f ∈ fs, P f) : ∀ f ∈ o.findings, P f := by
  cases o with
  | found fs => exact h fs rfl
  | failed fault => exact List.forall_mem_nil _
  | crashed crash => exact List.forall_mem_nil _

namespace Ensemble

theorem gradedBy_of_mem_detectors (c : Settings) (entropy : UInt64) (records : List Record) :
    ∀ d ∈ c.detectors entropy, ∀ f ∈ (d.detect records).findings, f.GradedBy c.bands := by
  simp only [Settings.detectors, List.forall_mem_cons]
  refine ⟨?_, ?_, ?_, ?_, ?_, ?_, by simp⟩
  · exact Outcome.forall_mem_findings fun _ => Isolation.gradedBy_of_detect
  · exact Outcome.forall_mem_findings fun _ => Density.gradedBy_of_detect
  · exact Outcome.forall_mem_findings fun _ => Similarity.gradedBy_of_detect
  · exact Outcome.forall_mem_findings fun _ => Contextual.gradedBy_of_detect
  · exact Outcome.forall_mem_findings fun _ => Temporal.gradedBy_of_detect
  · exact Outcome.forall_mem_findings fun _ => Network.gradedBy_of_detect

theorem descending_anomalies {e : Engine} {records : List Record} {b : Bands}
    (h : ∀ d ∈ e.detectors, ∀ f ∈ (d.detect records).findings, f.GradedBy b) :
    Ranking.Descending (e.run records).anomalies := by
  rw [Engine.anomalies_run]
  apply Ranking.descending_prioritize
  intro f hf
  obtain ⟨d, hd, hf⟩ := List.mem_flatMap.1 ((Ranking.firsts_sublist _).subset hf)
  exact h d hd f (List.mem_of_mem_filter hf)

/-- Whatever the bands are, a higher score is at least as urgent as a lower one and a score that is
no number is among the least urgent ones. So findings that are made with the same bands are
prioritized by descending scores over all severities, and so is every report of an ensemble. -/
theorem scores_descend :
    (∀ (b : Bands) (x y : Float), x ≤ y →
        (b.classify y).priority ≤ (b.classify x).priority) ∧
      (∀ (b : Bands) (x : Float), x.isNaN →
        b.classify x = .minimal ∧ ∀ s : Severity, s.priority ≤ Severity.minimal.priority) ∧
      (∀ (b : Bands) (fs : List Finding),
        (∀ f ∈ fs, ∃ method record score evidence, f = .of b method record score evidence) →
          Ranking.Descending (Ranking.prioritize fs)) ∧
      ∀ (c : Settings) (entropy : UInt64) (e : Engine), Engine.ofSettings? c entropy = .ok e →
        ∀ records, Ranking.Descending (e.run records).anomalies := by
  refine ⟨fun b _ _ h => b.priority_classify_le h,
    fun b _ h => ⟨b.classify_of_isNaN h, Severity.priority_le_minimal⟩, ?_, ?_⟩
  · intro b fs hfs
    apply Ranking.descending_prioritize
    intro f hf
    obtain ⟨method, record, score, evidence, rfl⟩ := hfs f hf
    exact Finding.MadeFor.gradedBy ⟨score, evidence, rfl⟩
  · intro c entropy e he records
    obtain ⟨-, rfl⟩ := Engine.eq_of_ofSettings? he
    exact descending_anomalies (gradedBy_of_mem_detectors c entropy records)

/-- Bands that are not in order, scores among which one is no number, and a batch in which four
detectors find something. -/
theorem scores_descend_unordered :
    let b : Bands := ⟨0.2, 0.4, 0.8, 0.6⟩
    let finding (score : Float) : Finding := .of b .density 0 score (.similarity 0 0)
    let purchase (amount : String) : Record :=
      ⟨[("amount", .string amount), ("merchant_category", .string "food")]⟩
    let records := [purchase "1", purchase "-1", purchase "1e10"]
    let c : Settings :=
      { isolation := { trees := 1, maxSamples := 3, seed := some 7 }
        density := { neighbors := 1, threshold := 1 }
        similarity := { nu := 0.5 } }
    (0.3 : Float) ≤ 0.9 ∧ (b.classify 0.9).priority ≤ (b.classify 0.3).priority ∧
      b.classify Binary64.nan = .minimal ∧
      Ranking.Descending (Ranking.prioritize [finding 0.3, finding Binary64.nan, finding 0.9]) ∧
      ∃ e, Engine.ofSettings? c 0 = .ok e ∧ (e.run records).anomalies.length = 6 ∧
        Ranking.Descending (e.run records).anomalies := by
  intro b finding purchase records c
  obtain ⟨hclassify, hnan, hprioritize, hrun⟩ := scores_descend
  have hle : (0.3 : Float) ≤ 0.9 := by decide +kernel
  have hengine := Engine.ofSettings?_of_check (c := c) (by decide +kernel) 0
  have hroster := roster_detectors c 0 records
  refine ⟨hle, hclassify b _ _ hle, (hnan b _ (by decide)).1, hprioritize b _ ?_,
    _, hengine, ?_, hrun c 0 _ hengine records⟩
  · intro f hf
    simp only [List.mem_cons, List.not_mem_nil, or_false] at hf
    rcases hf with rfl | rfl | rfl <;> exact ⟨_, _, _, _, rfl⟩
  · rw [length_anomalies (e := ⟨c, c.detectors 0⟩) hroster (by decide), findings_runs hroster]
    decide +kernel

end Ensemble

end LedgerWatch
