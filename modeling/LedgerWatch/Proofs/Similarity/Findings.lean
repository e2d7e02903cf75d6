import LedgerWatch.Proofs.Features
import LedgerWatch.Proofs.Finding.Roster
import LedgerWatch.Similarity.OneClass

namespace LedgerWatch.Similarity

variable {c : Settings}

theorem detect_of_refused {fault : Fault} (h : c.check = .error fault) (scaling : Scaling)
    (bands : Bands) (records : List Record) :
    c.detect scaling bands records = .failed fault := by
  simp only [Settings.detect, Settings.batchMeans, h, bind, Except.bind]

theorem batchMeans_eq (h : c.check = .ok ()) (scaling : Scaling) (records : List Record) :
    let rows := (scaledFeatures records scaling).rows.toList
    c.batchMeans scaling records = .ok ((List.range rows.length).map (mean? c.gamma rows)) := by
  simp only [Settings.batchMeans, h, bind, Except.bind, pure, Except.pure]

theorem detect_eq (h : c.check = .ok ()) (scaling : Scaling) (bands : Bands)
    (records : List Record) :
    let rows := (scaledFeatures records scaling).rows.toList
    c.detect scaling bands records =
      .found (((List.range rows.length).map (mean? c.gamma rows)).zipIdx.filterMap
        fun (m, i) => c.finding? bands i m) := by
  simp only [Settings.detect, batchMeans_eq h]

theorem madeFor_of_finding? {bands : Bands} {i : Nat} {mean : Option Float} {f : Finding}
    (h : c.finding? bands i mean = some f) : f.MadeFor bands .similarity i := by
  simp only [Settings.finding?, bind, Option.bind_eq_some_iff] at h
  obtain ⟨mean, -, h⟩ := h
  split at h
  · exact ⟨_, _, (Option.some.inj h).symm⟩
  · cases h

theorem detect_of_accepted (h : c.check = .ok ()) (scaling : Scaling) (bands : Bands)
    (records : List Record) :
    ∃ fs, c.detect scaling bands records = .found fs ∧ Roster .similarity records.length fs := by
  refine ⟨_, detect_eq h scaling bands records, ?_⟩
  apply Roster.ofPlaces
  · rw [List.length_map, List.length_range, height_scaledFeatures]
  · intro m i f hf
    exact ⟨(madeFor_of_finding? hf).record_eq, (madeFor_of_finding? hf).method_eq⟩

theorem gradedBy_of_detect {scaling : Scaling} {bands : Bands} {records : List Record}
    {fs : List Finding} (h : c.detect scaling bands records = .found fs) :
    ∀ f ∈ fs, f.GradedBy bands := by
  unfold Settings.detect at h
  split at h
  · cases h
  · obtain rfl := Outcome.found.inj h
    intro f hf
    obtain ⟨m, -, hm⟩ := List.mem_filterMap.1 hf
    exact (madeFor_of_finding? hm).gradedBy

end LedgerWatch.Similarity
