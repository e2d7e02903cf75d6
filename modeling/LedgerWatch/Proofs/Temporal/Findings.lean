import LedgerWatch.Proofs.Finding.Roster
import LedgerWatch.Proofs.Keys
import LedgerWatch.Temporal.Series

namespace LedgerWatch.Temporal

variable {c : Settings} {bands : Bands} {points : List Point}

theorem record_of_point? {m : Record × Nat} {p : Point} (h : point? m = some p) :
    p.record = m.2 := by
  simp only [point?, bind, Option.bind_eq_some_iff] at h
  obtain ⟨date, -, amount, -, h⟩ := h
  rw [← Option.some.inj h]

theorem lt_length_of_mem_series {records : List Record} {p : Point} (h : p ∈ series records) :
    p.record < records.length := by
  have hmem := (List.mergeSort_perm _ _).mem_iff.1 h
  obtain ⟨m, hm, hp⟩ := List.mem_filterMap.1 hmem
  rw [record_of_point? hp]
  exact List.snd_lt_of_mem_zipIdx hm

theorem mem_windows {w : Nat} {v : List Point × Point} (h : v ∈ windows w points) :
    v.1.length = w ∧ v.2 ∈ points := by
  obtain ⟨⟨p, start⟩, hp, rfl⟩ := List.mem_map.1 h
  have hlt := List.snd_lt_of_mem_zipIdx hp
  -- a window begins where its point stands among those behind the first `w`
  refine ⟨?_, List.mem_of_mem_drop (List.fst_mem_of_mem_zipIdx hp)⟩
  simp only [List.length_drop, List.length_take] at hlt ⊢
  omega

/-- A finding for one of the points. -/
def ForPoint (bands : Bands) (points : List Point) (f : Finding) : Prop :=
  ∃ p ∈ points, f.MadeFor bands .temporal p.record

theorem record_of_forPoint {p : Point} {f : Finding} (h : ForPoint bands [p] f) :
    f.record = p.record := by
  obtain ⟨q, hq, hmade⟩ := h
  rw [hmade.record_eq, List.mem_singleton.1 hq]

theorem forPoint_of_rolling? {window : List Point} {p : Point} {f : Finding} (hp : p ∈ points)
    (h : c.rolling? bands window p = some f) : ForPoint bands points f := by
  simp only [Settings.rolling?, bind, Option.bind_eq_some_iff] at h
  obtain ⟨stats, -, z, -, h⟩ := h
  split at h
  · exact ⟨p, hp, _, _, (Option.some.inj h).symm⟩
  · cases h

theorem forPoint_of_mem_rolling {f : Finding} (h : f ∈ c.rolling bands points) :
    ForPoint bands points f := by
  obtain ⟨⟨window, p⟩, hp, hf⟩ := List.mem_filterMap.1 h
  exact forPoint_of_rolling? (mem_windows hp).2 hf

theorem forPoint_of_seasonal? {month : Nat} {p : Point} {baseline : Option (Stats.Summary Float)}
    {f : Finding} (hp : p ∈ points) (h : c.seasonal? bands month p baseline = some f) :
    ForPoint bands points f := by
  simp only [Settings.seasonal?, bind, Option.bind_eq_some_iff] at h
  obtain ⟨stats, -, z, -, h⟩ := h
  split at h
  · exact ⟨p, hp, _, _, (Option.some.inj h).symm⟩
  · cases h

theorem forPoint_of_mem_monthFindings {month : Nat × List Point} {f : Finding}
    (h : f ∈ c.monthFindings bands month) : ForPoint bands month.2 f := by
  unfold Settings.monthFindings at h
  split at h
  · cases h
  · obtain ⟨⟨p, baseline⟩, hp, hf⟩ := List.mem_filterMap.1 h
    exact forPoint_of_seasonal? (List.of_mem_zip hp).1 hf

theorem forPoint_of_mem_seasonal {f : Finding} (h : f ∈ c.seasonal bands points) :
    ForPoint bands points f := by
  obtain ⟨month, hmonth, hf⟩ := List.mem_flatMap.1 h
  obtain ⟨p, hp, hmade⟩ := forPoint_of_mem_monthFindings hf
  exact ⟨p, (Sorted.mem_of_mem_groupBy hmonth hp).1, hmade⟩

theorem forPoint_of_mem_trend {f : Finding} (h : f ∈ c.trend bands points) :
    ForPoint bands points f := by
  unfold Settings.trend at h
  split at h
  · cases h
  · obtain ⟨⟨p, position⟩, hp, hf⟩ := List.mem_filterMap.1 h
    simp only at hf
    split at hf
    · exact ⟨p, List.fst_mem_of_mem_zipIdx hp, _, _, (Option.some.inj hf).symm⟩
    · cases hf

theorem forPoint_of_mem_passes {f : Finding}
    (h : f ∈ c.rolling bands points ++ c.seasonal bands points ++ c.trend bands points) :
    ForPoint bands points f := by
  rcases List.mem_append.1 h with h | h
  · rcases List.mem_append.1 h with h | h
    · exact forPoint_of_mem_rolling h
    · exact forPoint_of_mem_seasonal h
  · exact forPoint_of_mem_trend h

theorem detect_of_refused {fault : Fault} (h : c.check = .error fault) (bands : Bands)
    (records : List Record) : c.detect bands records = .failed fault := by
  simp only [Settings.detect, h]

theorem detect_eq (h : c.check = .ok ()) (bands : Bands) (records : List Record) :
    c.detect bands records =
      .found (Ranking.firsts (c.rolling bands (series records) ++
        c.seasonal bands (series records) ++ c.trend bands (series records))) := by
  simp only [Settings.detect, h]

theorem detect_of_accepted (h : c.check = .ok ()) (bands : Bands) (records : List Record) :
    ∃ fs, c.detect bands records = .found fs ∧ Roster .temporal records.length fs := by
  refine ⟨_, detect_eq h bands records, ?_⟩
  apply Roster.firsts
  · intro f hf
    obtain ⟨p, -, hmade⟩ := forPoint_of_mem_passes hf
    exact hmade.method_eq
  · intro f hf
    obtain ⟨p, hp, hmade⟩ := forPoint_of_mem_passes hf
    rw [hmade.record_eq]
    exact lt_length_of_mem_series hp

theorem gradedBy_of_detect {records : List Record} {fs : List Finding}
    (h : c.detect bands records = .found fs) : ∀ f ∈ fs, f.GradedBy bands := by
  unfold Settings.detect at h
  split at h
  · cases h
  · obtain rfl := Outcome.found.inj h
    intro f hf
    obtain ⟨p, -, hmade⟩ := forPoint_of_mem_passes ((Ranking.firsts_sublist _).subset hf)
    exact hmade.gradedBy

end LedgerWatch.Temporal
