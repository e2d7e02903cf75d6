import LedgerWatch.Proofs.Ensemble.Descending
import LedgerWatch.Proofs.Ensemble.Distinct
import LedgerWatch.Proofs.Network.Verdicts
import LedgerWatch.Proofs.Scores.Bounded
import LedgerWatch.Proofs.Scores.Trend

namespace LedgerWatch

theorem Outcome.method_of_found {o : Outcome} {m : Method} {n : ℕ}
    (h : ∃ fs, o = .found fs ∧ Roster m n fs) {fs : List Finding} (hfs : o = .found fs) :
    ∀ f ∈ fs, f.method = m := by
  obtain ⟨fs', hfs', hroster⟩ := h
  obtain rfl := Outcome.found.inj (hfs.symm.trans hfs')
  exact hroster.method

namespace Ensemble

variable {c : Settings} {f : Finding}

/-- A score is not below zero, and only a scale below one can make it infinite. -/
def Scored (c : Settings) (f : Finding) : Prop :=
  0 ≤ f.score ∧ (f.score.isFinite = true ∨
    f.method = .contextual ∧ c.contextual.scoreScale < 1 ∨
    f.method = .temporal ∧ c.temporal.scoreScale < 1)

theorem Scored.of_isScore (h : IsScore f.score) : Scored c f := ⟨h.zero_le, .inl h.isFinite⟩

theorem isFinite_or_lt_one {scale x : Float} (h : IsScaled scale x) (hpos : 0 < scale) :
    x.isFinite = true ∨ scale < 1 := by
  have hscale := (Binary64.not_isNaN_of_lt hpos).2
  by_cases hone : 1 ≤ scale
  · exact .inl (h.isFinite hone)
  · exact .inr ((Binary64.lt_iff_not_le hscale rfl).2 hone)

theorem scored_of_mem_detectors (hc : c.check = .ok ()) (entropy : UInt64) {records : List Record}
    (hlen : records.length < 2 ^ 64) :
    ∀ d ∈ c.detectors entropy, ∀ f ∈ (d.detect records).findings, Scored c f := by
  have hverdicts := Settings.verdicts_of_check hc
  simp only [Settings.verdicts, List.forall_mem_cons] at hverdicts
  obtain ⟨-, hdensity, hsimilarity, hcontextual, htemporal, hnetwork, -⟩ := hverdicts
  simp only [Settings.detectors, List.forall_mem_cons]
  refine ⟨?_, ?_, ?_, ?_, ?_, ?_, by simp⟩
  · exact Outcome.forall_mem_findings fun _ hfs f hf =>
      .of_isScore (Isolation.isScore_of_detect hfs f hf)
  · exact Outcome.forall_mem_findings fun _ hfs f hf =>
      .of_isScore (Density.isScore_of_detect hdensity hfs f hf)
  · exact Outcome.forall_mem_findings fun _ hfs f hf =>
      .of_isScore (Similarity.isScore_of_detect hsimilarity hfs f hf)
  · apply Outcome.forall_mem_findings
    intro fs hfs f hf
    have hscaled := Contextual.isScaled_of_detect hcontextual hfs f hf
    have hpos := Contextual.scoreScale_pos hcontextual
    have hmethod := Outcome.method_of_found (Contextual.detect_of_accepted hcontextual _ _) hfs f hf
    exact ⟨hscaled.zero_le hpos, (isFinite_or_lt_one hscaled hpos).imp_right fun hlt =>
      .inl ⟨hmethod, hlt⟩⟩
  · apply Outcome.forall_mem_findings
    intro fs hfs f hf
    have hscaled := Temporal.isScaled_of_detect htemporal hlen hfs f hf
    have hpos := Temporal.scoreScale_pos htemporal
    have hmethod := Outcome.method_of_found (Temporal.detect_of_accepted htemporal _ _) hfs f hf
    exact ⟨hscaled.zero_le hpos, (isFinite_or_lt_one hscaled hpos).imp_right fun hlt =>
      .inr ⟨hmethod, hlt⟩⟩
  · exact Outcome.forall_mem_findings fun _ hfs f hf =>
      .of_isScore (.of_le_one (Network.score_of_detect hnetwork hlen hfs f hf))

theorem mem_detectors_of_mem_anomalies {e : Engine} {records : List Record}
    (h : f ∈ (e.run records).anomalies) :
    ∃ d ∈ e.detectors, f ∈ (d.detect records).findings := by
  rw [Engine.anomalies_run] at h
  obtain ⟨d, hd, hf⟩ := List.mem_flatMap.1 (Ranking.mem_of_mem_rank h)
  exact ⟨d, hd, List.mem_of_mem_filter hf⟩

/-- No score of a report on a batch whose length fits a word is below zero or no number, whatever
the records hold and whatever the scales are. The score is finite as well, but for the two methods
that divide by a scale, where that scale is below one. -/
theorem scores_not_below_zero {entropy : UInt64} {e : Engine}
    (he : Engine.ofSettings? c entropy = .ok e) {records : List Record}
    (hlen : records.length < 2 ^ 64) :
    ∀ f ∈ (e.run records).anomalies, 0 ≤ f.score ∧ f.score.isNaN = false ∧
      (f.score.isFinite = true ∨
        f.method = .contextual ∧ c.contextual.scoreScale < 1 ∨
        f.method = .temporal ∧ c.temporal.scoreScale < 1) := by
  obtain ⟨hc, rfl⟩ := Engine.eq_of_ofSettings? he
  intro f hf
  obtain ⟨d, hd, hf⟩ := mem_detectors_of_mem_anomalies hf
  obtain ⟨hnonneg, hfinite⟩ := scored_of_mem_detectors hc entropy hlen d hd f hf
  exact ⟨hnonneg, (Binary64.not_isNaN_of_le hnonneg).2, hfinite⟩

/-- Accepted settings with a tiny scale, and three records of one category. The amount that stands
out has the z-score `1e10` among the other two, and a score beyond the largest double. -/
theorem scores_not_below_zero_tiny :
    let c : Settings := { contextual := { scoreScale := 1e-300 } }
    let purchase (amount : Int) (h : Json.Number.InRange amount) : Record :=
      ⟨[("merchant_category", .string "food"), ("amount", .number (.whole amount h))]⟩
    let records := [purchase 1 (by decide), purchase (-1) (by decide),
      purchase 10000000000 (by decide)]
    ∃ e, Engine.ofSettings? c 0 = .ok e ∧ records.length < 2 ^ 64 ∧
      (∀ f ∈ (e.run records).anomalies, 0 ≤ f.score ∧ f.score.isNaN = false ∧
        (f.score.isFinite = true ∨
          f.method = .contextual ∧ c.contextual.scoreScale < 1 ∨
          f.method = .temporal ∧ c.temporal.scoreScale < 1)) ∧
      ∃ f ∈ (e.run records).anomalies, f.score.isFinite = false := by
  intro c purchase records
  have hc : c.check = .ok () := by decide +kernel
  have hengine := Engine.ofSettings?_of_check hc 0
  have hlen : records.length < 2 ^ 64 := by decide
  refine ⟨_, hengine, hlen, scores_not_below_zero hengine hlen, ?_⟩
  have hfound : ((c.contextual.detect c.bands records).findings.any
      fun f => !f.score.isFinite) = true := by decide +kernel
  obtain ⟨f, hf, hinfinite⟩ := List.any_eq_true.1 hfound
  refine ⟨f, ?_, Bool.not_eq_true' _ ▸ hinfinite⟩
  apply (anomalies_perm (roster_detectors c 0 records) (by decide)).mem_iff.2
  exact List.mem_flatMap.2
    ⟨Contextual.detector c.contextual c.bands, by simp [Settings.detectors], hf⟩

end Ensemble

end LedgerWatch
