import LedgerWatch.Proofs.Contextual.Findings
import LedgerWatch.Proofs.Scores.Basic
import LedgerWatch.Proofs.Temporal.Findings

namespace LedgerWatch

open Binary64

namespace Contextual

variable {c : Settings} {bands : Bands} {grouping : Grouping}

theorem exists_abs_of_largest {scores : List FieldScore}
    (h : ∀ s ∈ scores, s.zScore.isFinite = true) :
    ∃ z : Float, z.isFinite = true ∧ largest scores = z.abs := by
  rcases List.mem_cons.1 (isGreatest_largest h).1 with hzero | hmem
  · exact ⟨0, rfl, hzero⟩
  · obtain ⟨s, hs, heq⟩ := List.mem_map.1 hmem
    exact ⟨s.zScore, h s hs, heq.symm⟩

theorem isFinite_of_fieldScore? {field : String} {value : Float}
    {baseline : Option (Stats.Summary Float)} {s : FieldScore}
    (h : c.fieldScore? field value baseline = some s) : s.zScore.isFinite = true := by
  simp only [Settings.fieldScore?, bind, Option.bind_eq_some_iff] at h
  obtain ⟨summary, -, z, hz, h⟩ := h
  split at h
  · obtain rfl := Option.some.inj h
    exact Stats.isFinite_of_zScore? hz
  · cases h

theorem isFinite_of_mem_fieldScores {members : List Member} {field : String}
    {p : Nat × FieldScore} (h : p ∈ c.fieldScores members field) : p.2.zScore.isFinite = true := by
  simp only [Settings.fieldScores] at h
  split at h
  · cases h
  · obtain ⟨⟨⟨i, x⟩, baseline⟩, -, hp⟩ := List.mem_filterMap.1 h
    obtain ⟨s, hs, rfl⟩ := Option.map_eq_some_iff.1 hp
    exact isFinite_of_fieldScore? hs

theorem isScaled_of_mem_groupFindings {group : String × List Member} {f : Finding}
    (h : f ∈ c.groupFindings bands grouping group) : IsScaled c.scoreScale f.score := by
  simp only [Settings.groupFindings, List.mem_filterMap] at h
  obtain ⟨⟨r, i⟩, -, h⟩ := h
  split at h
  · cases h
  · obtain rfl := Option.some.inj h
    have hown : ∀ s ∈ (((fields grouping).flatMap (c.fieldScores group.2)).filter
        fun p => p.1 == i).map Prod.snd, s.zScore.isFinite = true := by
      intro s hs
      obtain ⟨p, hp, rfl⟩ := List.mem_map.1 hs
      obtain ⟨field, -, hp⟩ := List.mem_flatMap.1 (List.mem_filter.1 hp).1
      exact isFinite_of_mem_fieldScores hp
    obtain ⟨z, hz, hlargest⟩ := exists_abs_of_largest hown
    exact ⟨z, hz, congrArg (· / c.scoreScale) hlargest⟩

theorem scoreScale_pos (hc : c.check = .ok ()) : 0 < c.scoreScale :=
  of_decide_eq_true (Fault.of_require (Fault.of_require_bind hc).2)

theorem isScaled_of_detect (hc : c.check = .ok ()) {records : List Record} {fs : List Finding}
    (h : c.detect bands records = .found fs) : ∀ f ∈ fs, IsScaled c.scoreScale f.score := by
  rw [detect_eq hc] at h
  obtain rfl := Outcome.found.inj h
  intro f hf
  obtain ⟨grouping, -, hf⟩ := List.mem_flatMap.1 ((Ranking.firsts_sublist _).subset hf)
  obtain ⟨group, -, hf⟩ := List.mem_flatMap.1 hf
  exact isScaled_of_mem_groupFindings hf

end Contextual

namespace Temporal

variable {c : Settings} {bands : Bands} {points : List Point}

theorem isScaled_of_mem_rolling {f : Finding} (h : f ∈ c.rolling bands points) :
    IsScaled c.scoreScale f.score := by
  obtain ⟨⟨window, p⟩, -, hf⟩ := List.mem_filterMap.1 h
  simp only [Settings.rolling?, bind, Option.bind_eq_some_iff] at hf
  obtain ⟨stats, -, z, hz, hf⟩ := hf
  split at hf
  · obtain rfl := Option.some.inj hf
    exact ⟨z, Stats.isFinite_of_zScore? hz, rfl⟩
  · cases hf

theorem isScaled_of_mem_seasonal {f : Finding} (h : f ∈ c.seasonal bands points) :
    IsScaled c.scoreScale f.score := by
  obtain ⟨month, -, hf⟩ := List.mem_flatMap.1 h
  unfold Settings.monthFindings at hf
  split at hf
  · cases hf
  · obtain ⟨⟨p, baseline⟩, -, hf⟩ := List.mem_filterMap.1 hf
    simp only [Settings.seasonal?, bind, Option.bind_eq_some_iff] at hf
    obtain ⟨stats, -, z, hz, hf⟩ := hf
    split at hf
    · obtain rfl := Option.some.inj hf
      exact ⟨z, Stats.isFinite_of_zScore? hz, rfl⟩
    · cases hf

theorem scoreScale_pos (hc : c.check = .ok ()) : 0 < c.scoreScale := by
  obtain ⟨-, hc⟩ := Fault.of_require_bind hc
  have hall := Fault.of_require hc
  rw [Bool.and_eq_true, Bool.and_eq_true] at hall
  exact of_decide_eq_true hall.2

end Temporal

end LedgerWatch
