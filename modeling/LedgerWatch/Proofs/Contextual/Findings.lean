import LedgerWatch.Contextual.Groups
import LedgerWatch.Proofs.Finding.Roster
import LedgerWatch.Proofs.Keys
import LedgerWatch.Proofs.Number.Extremes

namespace LedgerWatch.Contextual

variable {c : Settings} {bands : Bands} {grouping : Grouping}

/-- The largest of some z-scores, without their signs, or zero if there is none. -/
theorem isGreatest_largest {scores : List FieldScore}
    (h : ∀ s ∈ scores, s.zScore.isFinite = true) :
    IsGreatest {y | y ∈ 0 :: scores.map fun s => s.zScore.abs} (largest scores) := by
  apply Binary64.isGreatest_foldl_larger (by decide)
  intro y hy
  obtain ⟨s, hs, rfl⟩ := List.mem_map.1 hy
  exact Binary64.not_isNaN_of_isFinite ((Binary64.isFinite_abs _).trans (h s hs))

theorem madeFor_of_mem_groupFindings {group : String × List Member} {f : Finding}
    (h : f ∈ c.groupFindings bands grouping group) :
    ∃ m ∈ group.2, f.MadeFor bands .contextual m.2 := by
  simp only [Settings.groupFindings, List.mem_filterMap] at h
  obtain ⟨m, hm, h⟩ := h
  split at h
  · cases h
  · exact ⟨m, hm, _, _, (Option.some.inj h).symm⟩

theorem mem_zipIdx_of_mem_groups {records : List Record} {group : String × List Member}
    (hgroup : group ∈ groups grouping records) {m : Member} (hm : m ∈ group.2) :
    m ∈ records.zipIdx :=
  (Sorted.mem_of_mem_groupBy hgroup hm).1

theorem madeFor_of_mem_groupingFindings {records : List Record} {f : Finding}
    (h : f ∈ c.groupingFindings bands records grouping) :
    ∃ i < records.length, f.MadeFor bands .contextual i := by
  obtain ⟨group, hgroup, hf⟩ := List.mem_flatMap.1 h
  obtain ⟨m, hm, hmade⟩ := madeFor_of_mem_groupFindings hf
  have hlt := List.snd_lt_of_mem_zipIdx (mem_zipIdx_of_mem_groups hgroup hm)
  rw [Nat.add_zero] at hlt
  exact ⟨m.2, hlt, hmade⟩

theorem detect_of_refused {fault : Fault} (h : c.check = .error fault) (bands : Bands)
    (records : List Record) : c.detect bands records = .failed fault := by
  simp only [Settings.detect, h]

theorem detect_eq (h : c.check = .ok ()) (bands : Bands) (records : List Record) :
    c.detect bands records =
      .found (Ranking.firsts (Grouping.all.flatMap (c.groupingFindings bands records))) := by
  simp only [Settings.detect, h]

theorem detect_of_accepted (h : c.check = .ok ()) (bands : Bands) (records : List Record) :
    ∃ fs, c.detect bands records = .found fs ∧ Roster .contextual records.length fs := by
  refine ⟨_, detect_eq h bands records, ?_⟩
  apply Roster.firsts
  · intro f hf
    obtain ⟨grouping, -, hf⟩ := List.mem_flatMap.1 hf
    obtain ⟨i, -, hmade⟩ := madeFor_of_mem_groupingFindings hf
    exact hmade.method_eq
  · intro f hf
    obtain ⟨grouping, -, hf⟩ := List.mem_flatMap.1 hf
    obtain ⟨i, hi, hmade⟩ := madeFor_of_mem_groupingFindings hf
    rw [hmade.record_eq]
    exact hi

theorem gradedBy_of_detect {records : List Record} {fs : List Finding}
    (h : c.detect bands records = .found fs) : ∀ f ∈ fs, f.GradedBy bands := by
  unfold Settings.detect at h
  split at h
  · cases h
  · obtain rfl := Outcome.found.inj h
    intro f hf
    obtain ⟨grouping, -, hf⟩ := List.mem_flatMap.1 ((Ranking.firsts_sublist _).subset hf)
    obtain ⟨i, -, hmade⟩ := madeFor_of_mem_groupingFindings hf
    exact hmade.gradedBy

end LedgerWatch.Contextual
