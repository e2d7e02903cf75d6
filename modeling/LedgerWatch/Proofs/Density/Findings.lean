import LedgerWatch.Density.LocalOutlier
import LedgerWatch.Proofs.Features
import LedgerWatch.Proofs.Finding.Roster

namespace LedgerWatch.Density

variable {c : Settings}

theorem length_standings (c : Settings) (rows : List (List Float)) :
    (c.standings rows).length = rows.length := by
  unfold Settings.standings
  split
  · exact List.length_map _
  · simp

theorem detect_of_refused {fault : Fault} (h : c.check = .error fault) (scaling : Scaling)
    (bands : Bands) (records : List Record) :
    c.detect scaling bands records = .failed fault := by
  simp only [Settings.detect, Settings.batchStandings, h, bind, Except.bind]

theorem batchStandings_eq (h : c.check = .ok ()) (scaling : Scaling) (records : List Record) :
    c.batchStandings scaling records =
      .ok (c.standings (scaledFeatures records scaling).rows.toList) := by
  simp only [Settings.batchStandings, h, bind, Except.bind, pure, Except.pure]

theorem detect_eq (h : c.check = .ok ()) (scaling : Scaling) (bands : Bands)
    (records : List Record) :
    c.detect scaling bands records =
      .found ((c.standings (scaledFeatures records scaling).rows.toList).zipIdx.filterMap
        fun (s, i) => c.finding? bands i s) := by
  simp only [Settings.detect, batchStandings_eq h]

theorem madeFor_of_finding? {bands : Bands} {i : Nat} {s : Standing} {f : Finding}
    (h : c.finding? bands i s = some f) : f.MadeFor bands .density i := by
  simp only [Settings.finding?, bind, Option.bind_eq_some_iff] at h
  obtain ⟨factor, -, h⟩ := h
  split at h
  · cases h
  · exact ⟨_, _, (Option.some.inj h).symm⟩

theorem detect_of_accepted (h : c.check = .ok ()) (scaling : Scaling) (bands : Bands)
    (records : List Record) :
    ∃ fs, c.detect scaling bands records = .found fs ∧ Roster .density records.length fs := by
  refine ⟨_, detect_eq h scaling bands records, ?_⟩
  apply Roster.ofPlaces
  · rw [length_standings, height_scaledFeatures]
  · intro s i f hf
    exact ⟨(madeFor_of_finding? hf).record_eq, (madeFor_of_finding? hf).method_eq⟩

theorem gradedBy_of_detect {scaling : Scaling} {bands : Bands} {records : List Record}
    {fs : List Finding} (h : c.detect scaling bands records = .found fs) :
    ∀ f ∈ fs, f.GradedBy bands := by
  unfold Settings.detect at h
  split at h
  · cases h
  · obtain rfl := Outcome.found.inj h
    intro f hf
    obtain ⟨m, -, hm⟩ := List.mem_filterMap.1 hf
    exact (madeFor_of_finding? hm).gradedBy

end LedgerWatch.Density
