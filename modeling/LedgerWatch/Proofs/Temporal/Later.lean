import LedgerWatch.Proofs.Temporal.Verdicts

namespace LedgerWatch.Temporal

section Windows

variable {c : Settings} {bands : Bands} {points : List Point}

/-- Points behind a series have windows behind its windows. -/
theorem windows_append (w : Nat) (points behind : List Point) :
    ∃ rest, windows w (points ++ behind) = windows w points ++ rest ∧ ∀ v ∈ rest, v.2 ∈ behind := by
  refine ⟨((behind.drop (w - points.length)).zipIdx (points.length - w)).map
    fun m => (((points ++ behind).drop m.2).take w, m.1), ?_, ?_⟩
  · rw [windows, List.drop_append, List.zipIdx_append, List.map_append, List.length_drop,
      Nat.zero_add, windows]
    congr 1
    apply List.map_congr_left
    intro m hm
    have hlt := List.snd_lt_of_mem_zipIdx hm
    rw [List.length_drop] at hlt
    -- a window of the series ends in front of the series' end
    have hfull : w ≤ (points.drop m.2).length := by
      rw [List.length_drop]
      omega
    dsimp only
    rw [List.drop_append_of_le_length (by omega), List.take_append_of_le_length hfull]
  · intro v hv
    obtain ⟨m, hm, rfl⟩ := List.mem_map.1 hv
    exact List.mem_of_mem_drop (List.fst_mem_of_mem_zipIdx hm)

theorem rolling_append (c : Settings) (bands : Bands) (points behind : List Point) :
    ∃ rest, c.rolling bands (points ++ behind) = c.rolling bands points ++ rest ∧
      ∀ f ∈ rest, ∃ q ∈ behind, f.record = q.record := by
  obtain ⟨rest, hrest, hbehind⟩ := windows_append c.window.toNat points behind
  refine ⟨rest.filterMap fun v => c.rolling? bands v.1 v.2, ?_, ?_⟩
  · rw [Settings.rolling, hrest, List.filterMap_append, Settings.rolling]
  · intro f hf
    obtain ⟨v, hv, hf⟩ := List.mem_filterMap.1 hf
    exact ⟨v.2, hbehind v hv, record_of_rolling? hf⟩

theorem pairwise_apart_rolling (hpoints : (points.map Point.record).Nodup) :
    (c.rolling bands points).Pairwise Finding.Apart := by
  have hsub : ((c.rolling bands points).map Finding.record).Sublist
      ((windows c.window.toNat points).map fun v => v.2.record) :=
    Lists.map_filterMap_sublist (fun _ _ hf => record_of_rolling? hf) _
  have hnodup := (nodup_records_windows hpoints c.window.toNat).sublist hsub
  refine (List.pairwise_map.1 hnodup).imp ?_
  intro f g hne hsame
  exact hne hsame.1

/-- No other pass takes a finding from the first one. -/
theorem filter_isRolling_firsts (hpoints : (points.map Point.record).Nodup) :
    (Ranking.firsts (c.rolling bands points ++ c.seasonal bands points ++
      c.trend bands points)).filter (fun f => f.evidence.isRolling) = c.rolling bands points := by
  have hrolling : ((c.rolling bands points).filter fun f => f.evidence.isRolling) =
      c.rolling bands points :=
    List.filter_eq_self.2 fun f hf => isRolling_of_mem_rolling hf
  rw [List.append_assoc, Ranking.firsts_append,
    Ranking.firsts_eq_self (pairwise_apart_rolling hpoints), List.filter_append, hrolling,
    List.filter_eq_nil_iff.2, List.append_nil]
  intro f hf
  have hmem := (Ranking.firsts_sublist _).subset (List.mem_of_mem_filter hf)
  rw [Bool.not_eq_true]
  rcases List.mem_append.1 hmem with hmem | hmem
  · exact isRolling_of_mem_seasonal hmem
  · exact isRolling_of_mem_trend hmem

end Windows

/-- Records that are added at the end of a batch with no date before any date of the batch leave
its rolling findings as they are: none of them goes, none comes, and none is changed. -/
theorem rolling_of_later_records {c : Settings} (hc : c.check = .ok ()) (bands : Bands)
    {records later : List Record}
    (hlater : ∀ r ∈ records, ∀ r' ∈ later, ∀ date date', r.transactionDate? = some date →
      r'.transactionDate? = some date' → ¬date'.Earlier date) :
    ∃ fs fs', c.detect bands records = .found fs ∧ c.detect bands (records ++ later) = .found fs' ∧
      (fs'.filter fun f => f.evidence.isRolling ∧ f.record < records.length) =
        fs.filter fun f => f.evidence.isRolling := by
  refine ⟨_, _, detect_eq hc bands records, detect_eq hc bands (records ++ later), ?_⟩
  obtain ⟨behind, hseries, hbehind⟩ := series_append hlater
  obtain ⟨rest, hrolling, hrest⟩ := rolling_append c bands (series records) behind
  have hold : ∀ f ∈ c.rolling bands (series records), f.record < records.length := by
    intro f hf
    obtain ⟨p, hp, hmade⟩ := forPoint_of_mem_rolling hf
    rw [hmade.record_eq]
    exact lt_length_of_mem_series hp
  have hnew : ∀ f ∈ rest, ¬f.record < records.length := by
    intro f hf
    obtain ⟨q, hq, hrecord⟩ := hrest f hf
    rw [hrecord]
    exact Nat.not_lt.2 (hbehind q hq)
  calc _ = ((Ranking.firsts (c.rolling bands (series (records ++ later)) ++
          c.seasonal bands (series (records ++ later)) ++
          c.trend bands (series (records ++ later)))).filter
            fun f => f.evidence.isRolling).filter fun f => f.record < records.length := by
        rw [List.filter_filter]
        simp [and_comm]
    _ = (c.rolling bands (series records) ++ rest).filter fun f => f.record < records.length := by
        rw [filter_isRolling_firsts (nodup_records_series _), hseries, hrolling]
    _ = c.rolling bands (series records) := by
        rw [List.filter_append, List.filter_eq_self.2 (by simpa using hold),
          List.filter_eq_nil_iff.2 (by simpa using hnew), List.append_nil]
    _ = _ := (filter_isRolling_firsts (nodup_records_series records)).symm

/-- An April amount stays far above the three just before it, while an early March amount is no
longer far above those of other years once there are two more like it. -/
theorem rolling_of_later_records_march :
    let record (date amount : String) : Record :=
      ⟨[("transaction_date", .string date), ("amount", .string amount)]⟩
    let c : Settings := { window := 3 }
    let records := [record "2023-03-10" "100", record "2024-03-01" "10", record "2024-03-02" "12",
      record "2024-03-02" "11", record "2024-04-01" "30"]
    let later := [record "2024-04-01" "60", record "" "7", record "2025-03-05" "95",
      record "2025-03-06" "105"]
    c.check = .ok () ∧
      (∀ r ∈ records, ∀ r' ∈ later, ∀ date date', r.transactionDate? = some date →
        r'.transactionDate? = some date' → ¬date'.Earlier date) ∧
      (c.rolling {} (series records)).map Finding.record = [4] ∧
      (c.seasonal {} (series records)).map Finding.record = [0] ∧
      (c.seasonal {} (series (records ++ later))).map Finding.record = [] ∧
      ∃ fs fs', c.detect {} records = .found fs ∧ c.detect {} (records ++ later) = .found fs' ∧
        (fs'.filter fun f => f.evidence.isRolling ∧ f.record < records.length) =
          fs.filter fun f => f.evidence.isRolling := by
  intro record c records later
  have hcheck : c.check = .ok () := by decide +kernel
  have hlater : ∀ r ∈ records, ∀ r' ∈ later, ∀ date date', r.transactionDate? = some date →
      r'.transactionDate? = some date' → ¬date'.Earlier date := by
    have hdates : ∀ r ∈ records, ∀ r' ∈ later, ∀ date ∈ r.transactionDate?,
        ∀ date' ∈ r'.transactionDate?, ¬date'.Earlier date := by decide +kernel
    exact fun r hr r' hr' date date' hdate hdate' => hdates r hr r' hr' date hdate date' hdate'
  have hseries : series records = records.zipIdx.filterMap point? :=
    series_of_pairwise (by decide +kernel)
  have hseries' : series (records ++ later) = (records ++ later).zipIdx.filterMap point? :=
    series_of_pairwise (by decide +kernel)
  refine ⟨hcheck, hlater, ?_, ?_, ?_, rolling_of_later_records hcheck {} hlater⟩
  · rw [hseries]
    decide +kernel
  · rw [hseries]
    decide +kernel
  · rw [hseries']
    decide +kernel

end LedgerWatch.Temporal
