import LedgerWatch.Proofs.Density.Renamed
import LedgerWatch.Proofs.Density.Standings
import LedgerWatch.Proofs.Rearrangement.Members

namespace LedgerWatch.Density

open Binary64

section Neighbors

variable {c : Settings} {place : ℕ → ℕ} {rows rows' : List (List Float)} {k : ℕ}

theorem IsNearest.map_renamed {es near : List Entry} (h : IsNearest k es near)
    (place : ℕ → ℕ) :
    IsNearest k (es.map (Entry.renamed place)) (near.map (Entry.renamed place)) := by
  obtain ⟨rest, hperm, hsplit⟩ := h.split
  refine ⟨by simpa using h.length, List.pairwise_map.2 h.sorted,
    rest.map (Entry.renamed place), ?_, ?_⟩
  · rw [← List.map_append]
    exact hperm.map _
  · simpa [Entry.renamed] using hsplit

theorem comparable_rearranged (h : Rearranged place rows rows') (i : ℕ) :
    (comparable rows' (place i)).Perm ((comparable rows i).map (Entry.renamed place)) := by
  simp only [comparable, h.getElem?_eq]
  apply h.filterMap_perm
  intro row j
  simp only [h.injective.eq_iff]
  split
  · rfl
  · rw [Option.map_map]
    rfl

theorem nearest_rearranged (h : Rearranged place rows rows')
    (hrows : ∀ row ∈ rows, Stats.Measured row) (hrows' : ∀ row ∈ rows', Stats.Measured row)
    {i : ℕ} (hdistinct : ((comparable rows i).map Entry.distance).Nodup) :
    nearest rows' k (place i) = (nearest rows k i).map (Entry.renamed place) := by
  refine ((isNearest_nearest hrows k i).map_renamed place).unique
    (isNearest_nearest hrows' k (place i)) (comparable_rearranged h i) ?_ ?_
  · intro e he
    obtain ⟨old, hold, rfl⟩ := List.mem_map.1 he
    exact isPlus_of_mem_comparable (e := old) hrows hold
  · rw [List.map_map]
    exact hdistinct

theorem sameNeighbors_rearranged (h : Rearranged place rows rows')
    (hrows : ∀ row ∈ rows, Stats.Measured row) (hrows' : ∀ row ∈ rows', Stats.Measured row)
    (hdistinct : ∀ i < rows.length, ((comparable rows i).map Entry.distance).Nodup) :
    SameNeighbors c place rows rows' := by
  intro i
  by_cases hi : i < rows.length
  · rw [getElem?_near hi, getElem?_near (h.lt_length hi), Settings.neighborhood,
      Settings.neighborhood, h.length_eq, nearest_rearranged h hrows hrows' (hdistinct i hi)]
    rfl
  · have hout := h.getElem?_eq i
    rw [List.getElem?_eq_none (Nat.le_of_not_lt hi), List.getElem?_eq_none_iff] at hout
    rw [List.getElem?_eq_none, List.getElem?_eq_none]
    · rfl
    · simpa [Settings.near] using hi
    · simpa [Settings.near] using hout

theorem standings_rearranged (h : Rearranged place rows rows')
    (hrows : ∀ row ∈ rows, Stats.Measured row) (hrows' : ∀ row ∈ rows', Stats.Measured row)
    (hdistinct : ∀ i < rows.length, ((comparable rows i).map Entry.distance).Nodup) :
    Rearranged place (c.standings rows) (c.standings rows') := by
  refine ⟨h.injective, ?_, ?_⟩
  · rw [length_standings, length_standings, h.length_eq]
  · exact (sameNeighbors_rearranged h hrows hrows' hdistinct).getElem?_standings

end Neighbors

/-- In a batch in which no two records are equally far from a third one, the order of the records
decides nothing: for any other order the standings and the findings are the same, at the new
positions of their records. -/
theorem detect_of_distinct_distances {c : Settings} (hc : c.check = .ok ()) (bands : Bands)
    {records records' : List Record}
    (hdistinct : ∀ i < records.length,
      ((comparable (scaledFeatures records .none).rows.toList i).map Entry.distance).Nodup)
    (hperm : records.Perm records') :
    (∃ place, Rearranged place records records') ∧
      ∀ place, Rearranged place records records' →
        (∃ standings standings', c.batchStandings .none records = .ok standings ∧
          c.batchStandings .none records' = .ok standings' ∧
          Rearranged place standings standings') ∧
        ∃ fs fs', c.detect .none bands records = .found fs ∧
          c.detect .none bands records' = .found fs' ∧
          fs'.Perm (fs.map (Finding.reindex place)) := by
  refine ⟨Rearranged.exists_of_perm hperm, ?_⟩
  intro place h
  have hrows : Rearranged place (scaledFeatures records .none).rows.toList
      (scaledFeatures records' .none).rows.toList := h.map Record.features
  rw [← height_scaledFeatures records .none] at hdistinct
  have hstandings := standings_rearranged (c := c) hrows (measured_scaledFeatures records .none)
    (measured_scaledFeatures records' .none) hdistinct
  refine ⟨⟨_, _, batchStandings_eq hc .none records, batchStandings_eq hc .none records',
    hstandings⟩, _, _, detect_eq hc .none bands records, detect_eq hc .none bands records', ?_⟩
  exact hstandings.filterMap_perm fun s i => finding?_reindex c bands place i s

/-- Two records change places; a third one has only one of their two features. -/
theorem detect_of_distinct_distances_swapped :
    let record (amount balance : String) : Record :=
      ⟨[("amount", .string amount), ("balance", .string balance)]⟩
    let near := record "1" "1"
    let far := record "2" "5"
    let other := record "unknown" "2.5"
    let before := [near, far, other]
    Settings.check {} = .ok () ∧
      (∀ i < before.length,
        ((comparable (scaledFeatures before .none).rows.toList i).map Entry.distance).Nodup) ∧
      (∃ standings standings', Settings.batchStandings {} .none before = .ok standings ∧
        Settings.batchStandings {} .none [far, near, other] = .ok standings' ∧
        Rearranged Rearranged.swapFirst standings standings') ∧
      ∃ fs fs', Settings.detect {} .none {} before = .found fs ∧
        Settings.detect {} .none {} [far, near, other] = .found fs' ∧
        fs'.Perm (fs.map (Finding.reindex Rearranged.swapFirst)) := by
  intro record near far other before
  have hcheck : Settings.check {} = .ok () := by decide +kernel
  have hdistinct : ∀ i < before.length,
      ((comparable (scaledFeatures before .none).rows.toList i).map Entry.distance).Nodup := by
    decide +kernel
  exact ⟨hcheck, hdistinct,
    (detect_of_distinct_distances hcheck {} hdistinct (.swap far near [other])).2 _
      (Rearranged.swap far near [other])⟩

end LedgerWatch.Density
