import LedgerWatch.Proofs.Finding.Roster
import LedgerWatch.Proofs.Isolation.Lookups
import LedgerWatch.Proofs.Isolation.Scorable

namespace LedgerWatch.Isolation

theorem length_of_scores? {c : Settings} {seed : UInt64} {t : Table}
    {scores : List (Option Float)} (h : c.scores? seed t = .ok scores) :
    scores.length = t.rows.toList.length := by
  rcases scores?_eq_ok h with ⟨-, rfl⟩ | ⟨-, trees, -, hscores⟩
  · simp [Table.height]
  · have hmap := congrArg List.length (Lists.map_eq_of_mapM hscores)
    simpa only [List.length_map] using hmap.symm

section Above

variable {threshold : Float} {scores : List (Option Float)} {c : Settings}

def above (threshold : Float) (scores : List (Option Float)) : List (Nat × Float) :=
  (scores.zipIdx.filterMap fun p => p.1.map fun score => (p.2, score)).filter fun p =>
    threshold < p.2

theorem mem_above_iff {i : Nat} {s : Float} :
    (i, s) ∈ above threshold scores ↔ scores[i]? = some (some s) ∧ threshold < s := by
  rw [above, List.mem_filter, decide_eq_true_eq, List.mem_filterMap]
  refine and_congr_left fun _ => ⟨?_, ?_⟩
  · rintro ⟨⟨score?, j⟩, hj, hp⟩
    obtain ⟨score, rfl, hp⟩ := Option.map_eq_some_iff.1 hp
    obtain ⟨rfl, rfl⟩ := Prod.mk.inj hp
    exact List.mem_zipIdx_iff_getElem?.1 hj
  · intro h
    exact ⟨(some s, i), List.mem_zipIdx_iff_getElem?.2 h, rfl⟩

theorem increasing_above (threshold : Float) (scores : List (Option Float)) :
    (above threshold scores).Pairwise fun p q => p.1 < q.1 := by
  have hscored : ((scores.zipIdx.filterMap fun p => p.1.map fun score => (p.2, score)).map
      Prod.fst).Pairwise (· < ·) := by
    apply Lists.increasing_filterMap_zipIdx
    intro s i p hp
    obtain ⟨score, -, rfl⟩ := Option.map_eq_some_iff.1 hp
    rfl
  exact (List.pairwise_map.1 hscored).sublist List.filter_sublist

theorem candidates_perm (threshold : Float) (scores : List (Option Float)) :
    (candidates threshold scores).Perm (above threshold scores) :=
  List.mergeSort_perm _ _

theorem mem_above_of_mem_flagged {p : Nat × Float} (h : p ∈ c.flagged scores) :
    p ∈ above c.scoreThreshold scores :=
  (candidates_perm c.scoreThreshold scores).mem_iff.1 (List.mem_of_mem_take h)

theorem nodup_rows_flagged (c : Settings) (scores : List (Option Float)) :
    ((c.flagged scores).map Prod.fst).Nodup := by
  have habove : ((above c.scoreThreshold scores).map Prod.fst).Nodup :=
    List.pairwise_map.2 ((increasing_above c.scoreThreshold scores).imp Nat.ne_of_lt)
  have hcandidates : ((candidates c.scoreThreshold scores).map Prod.fst).Nodup :=
    ((candidates_perm c.scoreThreshold scores).map Prod.fst).nodup_iff.2 habove
  exact ((List.take_sublist _ _).map Prod.fst).nodup hcandidates

theorem lt_length_of_mem_flagged {p : Nat × Float} (h : p ∈ c.flagged scores) :
    p.1 < scores.length :=
  (List.getElem?_eq_some_iff.1 (mem_above_iff.1 (mem_above_of_mem_flagged h)).1).1

end Above

theorem detect_of_refused {c : Settings} {fault : Fault} (h : c.check = .error fault)
    (scaling : Scaling) (bands : Bands) (entropy : UInt64) (records : List Record) :
    c.detect scaling bands entropy records = .failed fault := by
  simp only [Settings.detect, Settings.batchScores, h]

section Accepted

variable {c : Settings} (h : c.check = .ok ())
include h

theorem batchScores_eq {scaling : Scaling} {entropy : UInt64} {records : List Record}
    {result : Except Crash (List (Option Float))}
    (hs : c.scores? (c.seed.getD entropy) (scaledFeatures records scaling) = result) :
    c.batchScores scaling entropy records = result.mapError .crashed := by
  rw [Settings.batchScores, h, ← hs]

theorem detect_eq {scaling : Scaling} {bands : Bands} {entropy : UInt64} {records : List Record}
    {scores : List (Option Float)}
    (hs : c.scores? (c.seed.getD entropy) (scaledFeatures records scaling) = .ok scores) :
    c.detect scaling bands entropy records =
      .found ((c.flagged scores).map fun p => .of bands .isolation p.1 p.2
        (.isolation (pathOf p.2 (searchCost (c.sampleSize (scores.countP Option.isSome))))
          c.trees.toNat)) := by
  rw [Settings.detect, batchScores_eq h hs]
  rfl

/-- Too many trees for a list are noticed before the first of them grows. -/
theorem batchScores_of_overloaded {records : List Record} (hload : c.Overloaded records)
    (scaling : Scaling) (entropy : UInt64) :
    c.batchScores scaling entropy records = .error (.crashed .overCapacity) := by
  have hmany : 2 ≤ (scorable (scaledFeatures records scaling)).length :=
    length_scorable_scaledFeatures records scaling ▸ hload.2
  exact batchScores_eq h (scores?_of_overCapacity hload.1 hmany _)

theorem detect_of_overloaded {records : List Record} (hload : c.Overloaded records)
    (scaling : Scaling) (bands : Bands) (entropy : UInt64) :
    c.detect scaling bands entropy records = .crashed .overCapacity := by
  simp only [Settings.detect, batchScores_of_overloaded h hload]

end Accepted

theorem exists_scores {c : Settings} {records : List Record} (hload : ¬c.Overloaded records)
    (scaling : Scaling) (entropy : UInt64) :
    ∃ scores, c.scores? (c.seed.getD entropy) (scaledFeatures records scaling) = .ok scores := by
  rcases not_and_or.1 hload with hroom | hfew
  · exact exists_scores? hroom _ (regular_scaledFeatures records scaling)
  · rw [← length_scorable_scaledFeatures records scaling, Nat.not_le] at hfew
    exact ⟨_, scores?_of_few hfew c _⟩

theorem roster_of_scores {c : Settings} (h : c.check = .ok ()) {scaling : Scaling}
    {bands : Bands} {entropy : UInt64} {records : List Record} {scores : List (Option Float)}
    (hs : c.scores? (c.seed.getD entropy) (scaledFeatures records scaling) = .ok scores) :
    ∃ fs, c.detect scaling bands entropy records = .found fs ∧
      Roster .isolation records.length fs := by
  have hlen : scores.length = records.length :=
    (length_of_scores? hs).trans (height_scaledFeatures records scaling)
  refine ⟨_, detect_eq h hs, ?_, ?_, ?_⟩
  · intro f hf
    obtain ⟨p, -, rfl⟩ := List.mem_map.1 hf
    rfl
  · intro f hf
    obtain ⟨p, hp, rfl⟩ := List.mem_map.1 hf
    rw [← hlen]
    exact lt_length_of_mem_flagged hp
  · rw [List.map_map]
    exact nodup_rows_flagged c scores

theorem detect_of_accepted {c : Settings} (h : c.check = .ok ()) {records : List Record}
    (hload : ¬c.Overloaded records) (scaling : Scaling) (bands : Bands) (entropy : UInt64) :
    ∃ fs, c.detect scaling bands entropy records = .found fs ∧
      Roster .isolation records.length fs := by
  obtain ⟨scores, hs⟩ := exists_scores hload scaling entropy
  exact roster_of_scores h hs

theorem exists_scores_of_detect {c : Settings} {scaling : Scaling} {bands : Bands}
    {entropy : UInt64} {records : List Record} {fs : List Finding}
    (h : c.detect scaling bands entropy records = .found fs) : ∃ scores,
      c.scores? (c.seed.getD entropy) (scaledFeatures records scaling) = .ok scores ∧
        fs = (c.flagged scores).map fun p => .of bands .isolation p.1 p.2
          (.isolation (pathOf p.2 (searchCost (c.sampleSize (scores.countP Option.isSome))))
            c.trees.toNat) := by
  cases hc : c.check with
  | error fault =>
    rw [detect_of_refused hc] at h
    cases h
  | ok u =>
    cases hs : c.scores? (c.seed.getD entropy) (scaledFeatures records scaling) with
    | error crash =>
      rw [Settings.detect, batchScores_eq hc hs] at h
      cases h
    | ok scores =>
      rw [detect_eq hc hs] at h
      exact ⟨scores, rfl, (Outcome.found.inj h).symm⟩

theorem gradedBy_of_detect {c : Settings} {scaling : Scaling} {bands : Bands} {entropy : UInt64}
    {records : List Record} {fs : List Finding}
    (h : c.detect scaling bands entropy records = .found fs) : ∀ f ∈ fs, f.GradedBy bands := by
  obtain ⟨scores, -, rfl⟩ := exists_scores_of_detect h
  intro f hf
  obtain ⟨p, -, rfl⟩ := List.mem_map.1 hf
  rfl

end LedgerWatch.Isolation
