import Mathlib.Algebra.Order.BigOperators.Group.List
import LedgerWatch.Proofs.Density.Standings
import LedgerWatch.Proofs.Ensemble.Descending
import LedgerWatch.Proofs.Ensemble.Distinct
import LedgerWatch.Proofs.Ensemble.Legible
import LedgerWatch.Proofs.Ensemble.Patterns
import LedgerWatch.Proofs.Ensemble.Scores
import LedgerWatch.Proofs.Network.Subjects
import LedgerWatch.Proofs.Temporal.Chronology

namespace LedgerWatch

theorem Roster.length_le {m : Method} {n : ℕ} {fs : List Finding} (h : Roster m n fs) :
    fs.length ≤ n := by
  have hsub : fs.map Finding.record ⊆ List.range n := by
    intro i hi
    obtain ⟨f, hf, rfl⟩ := List.mem_map.1 hi
    exact List.mem_range.2 (h.inBatch f hf)
  simpa using (List.subperm_of_subset h.nodup hsub).length_le

theorem Isolation.sized_of_detect {c : Settings} {scaling : Scaling} {bands : Bands}
    {entropy : UInt64} {records : List Record} {fs : List Finding}
    (h : c.detect scaling bands entropy records = .found fs) : ∀ f ∈ fs, f.evidence.Sized := by
  obtain ⟨scores, -, rfl⟩ := exists_scores_of_detect h
  intro f hf
  obtain ⟨p, -, rfl⟩ := List.mem_map.1 hf
  exact c.trees.toNat_lt

namespace Density

theorem neighbors_lt_of_mem_standings {c : Settings} {rows : List (List Float)}
    (hrows : ∀ row ∈ rows, Stats.Measured row) {s : Standing} (hs : s ∈ c.standings rows) :
    s.neighbors < UInt64.size := by
  rw [standings_eq] at hs
  obtain ⟨near, hnear, rfl⟩ := List.mem_map.1 hs
  obtain ⟨i, -, rfl⟩ := List.mem_map.1 hnear
  calc (nearest rows (c.wanted rows.length) i).length
      ≤ c.wanted rows.length := (isNearest_nearest hrows _ i).length.trans_le (min_le_left _ _)
    _ ≤ c.neighbors.toNat := min_le_left _ _
    _ < UInt64.size := c.neighbors.toNat_lt

theorem sized_of_detect {c : Settings} (hc : c.check = .ok ()) {scaling : Scaling}
    {bands : Bands} {records : List Record} {fs : List Finding}
    (h : c.detect scaling bands records = .found fs) : ∀ f ∈ fs, f.evidence.Sized := by
  obtain rfl := Outcome.found.inj ((detect_eq hc scaling bands records).symm.trans h)
  intro f hf
  obtain ⟨⟨s, i⟩, hs, hf⟩ := List.mem_filterMap.1 hf
  simp only [Settings.finding?, bind, Option.bind_eq_some_iff] at hf
  obtain ⟨factor, -, hf⟩ := hf
  split at hf
  · cases hf
  · obtain rfl := Option.some.inj hf
    exact neighbors_lt_of_mem_standings (measured_scaledFeatures records scaling)
      (List.fst_mem_of_mem_zipIdx hs)

end Density

theorem Similarity.sized_of_detect {c : Settings} (hc : c.check = .ok ()) {scaling : Scaling}
    {bands : Bands} {records : List Record} {fs : List Finding}
    (h : c.detect scaling bands records = .found fs) : ∀ f ∈ fs, f.evidence.Sized := by
  obtain rfl := Outcome.found.inj ((detect_eq hc scaling bands records).symm.trans h)
  intro f hf
  obtain ⟨m, -, hf⟩ := List.mem_filterMap.1 hf
  simp only [Settings.finding?, bind, Option.bind_eq_some_iff] at hf
  obtain ⟨mean, -, hf⟩ := hf
  split at hf
  · obtain rfl := Option.some.inj hf
    trivial
  · cases hf

theorem Contextual.sized_of_detect {c : Settings} (hc : c.check = .ok ()) {bands : Bands}
    {records : List Record} (hlen : records.length < UInt64.size) {fs : List Finding}
    (h : c.detect bands records = .found fs) : ∀ f ∈ fs, f.evidence.Sized := by
  obtain rfl := Outcome.found.inj ((detect_eq hc bands records).symm.trans h)
  intro f hf
  obtain ⟨grouping, -, hf⟩ := List.mem_flatMap.1 ((Ranking.firsts_sublist _).subset hf)
  obtain ⟨group, hgroup, hf⟩ := List.mem_flatMap.1 hf
  have hsize : group.2.length ≤ records.length := by
    rw [Sorted.snd_of_mem_groupBy hgroup]
    exact (List.length_filter_le _ _).trans_eq List.length_zipIdx
  simp only [Settings.groupFindings, List.mem_filterMap] at hf
  obtain ⟨m, -, hf⟩ := hf
  split at hf
  · cases hf
  · obtain rfl := Option.some.inj hf
    exact hsize.trans_lt hlen

namespace Temporal

variable {c : Settings} {bands : Bands} {points : List Point} {f : Finding}

theorem sized_of_mem_rolling (h : f ∈ c.rolling bands points) : f.evidence.Sized := by
  obtain ⟨⟨window, p⟩, -, hf⟩ := List.mem_filterMap.1 h
  simp only [Settings.rolling?, bind, Option.bind_eq_some_iff] at hf
  obtain ⟨stats, -, z, -, hf⟩ := hf
  split at hf
  · obtain rfl := Option.some.inj hf
    trivial
  · cases hf

theorem sized_of_mem_seasonal (hpoints : ∀ p ∈ points, p.date.Bounded)
    (h : f ∈ c.seasonal bands points) : f.evidence.Sized := by
  obtain ⟨month, hmonth, hf⟩ := List.mem_flatMap.1 h
  unfold Settings.monthFindings at hf
  split at hf
  · cases hf
  · obtain ⟨⟨p, baseline⟩, hp, hf⟩ := List.mem_filterMap.1 hf
    obtain ⟨hmem, hkey⟩ := Sorted.mem_of_mem_groupBy hmonth (List.of_mem_zip hp).1
    have hlt : month.1 < 13 := Option.some.inj hkey ▸ (hpoints p hmem).month
    simp only [Settings.seasonal?, bind, Option.bind_eq_some_iff] at hf
    obtain ⟨stats, -, z, -, hf⟩ := hf
    split at hf
    · obtain rfl := Option.some.inj hf
      exact hlt.trans (by decide)
    · cases hf

theorem sized_of_mem_trend (hlen : points.length < UInt64.size) (h : f ∈ c.trend bands points) :
    f.evidence.Sized := by
  unfold Settings.trend at h
  split at h
  · cases h
  · obtain ⟨⟨p, position⟩, hp, hf⟩ := List.mem_filterMap.1 h
    simp only at hf
    split at hf
    · obtain rfl := Option.some.inj hf
      exact (List.snd_lt_of_mem_zipIdx hp).trans hlen
    · cases hf

theorem sized_of_detect (hc : c.check = .ok ()) {records : List Record}
    (hlen : records.length < UInt64.size) {fs : List Finding}
    (h : c.detect bands records = .found fs) : ∀ f ∈ fs, f.evidence.Sized := by
  obtain rfl := Outcome.found.inj ((detect_eq hc bands records).symm.trans h)
  intro f hf
  rcases List.mem_append.1 ((Ranking.firsts_sublist _).subset hf) with hf | hf
  · rcases List.mem_append.1 hf with hf | hf
    · exact sized_of_mem_rolling hf
    · exact sized_of_mem_seasonal (fun p => bounded_of_mem_series) hf
  · exact sized_of_mem_trend ((length_series_le records).trans_lt hlen) hf

end Temporal

namespace Network

variable {c : Settings} {bands : Bands} {g : Graph} {k : Cluster} {minSize : ℕ}

theorem length_componentsFrom_le (g : Graph) (members unreached : List Actor) :
    (g.componentsFrom members unreached).length ≤ members.length := by
  induction members generalizing unreached with
  | nil => exact le_rfl
  | cons a as ih =>
    rw [Graph.componentsFrom]
    split
    · exact Nat.succ_le_succ (ih _)
    · exact (ih _).trans (Nat.le_succ _)

theorem length_components_le (g : Graph) (members : List Actor) :
    (g.components members).length ≤ members.length :=
  (length_componentsFrom_le g _ _).trans (Sorted.length_distinct_le members)

theorem length_le_of_mem_components {members component : List Actor}
    (h : component ∈ g.components members) : component.length ≤ members.length := by
  obtain ⟨hnodup, hsub⟩ := Graph.nodup_flatten_componentsFrom g (Sorted.distinct members)
    (Sorted.nodup_distinct members)
  calc component.length
      ≤ (g.components members).flatten.length := (List.sublist_flatten_of_mem h).length_le
    _ ≤ (Sorted.distinct members).length := (List.subperm_of_subset hnodup hsub).length_le
    _ ≤ members.length := Sorted.length_distinct_le members

theorem length_fraudActors_le (g : Graph) :
    g.fraudActors.length ≤ 2 * g.transfers.toList.length := by
  refine (Sorted.length_distinct_le _).trans ?_
  rw [List.length_flatMap]
  simp only [List.length_cons, List.length_nil, List.map_const', List.sum_replicate, smul_eq_mul]
  have hle := List.length_filter_le Transfer.fraud g.transfers.toList
  omega

/-- Clusters are among the components, and a component has an actor of its own. -/
theorem cluster_bounds (hindexed : g.Indexed) (h : k ∈ g.clusters minSize) :
    k.id < 2 * g.transfers.toList.length ∧ k.size ≤ 2 * g.transfers.toList.length ∧
      k.fraudCount ≤ g.transfers.toList.length := by
  have hactors := length_fraudActors_le g
  refine ⟨?_, (length_le_of_mem_components (nodes_of_mem_clusters h).1).trans hactors,
    fraudCount_le hindexed h⟩
  obtain ⟨m, hm, rfl⟩ := List.mem_map.1 h
  exact (List.snd_lt_of_mem_zipIdx hm).trans_le ((List.length_filter_le _ _).trans
    ((length_components_le g _).trans hactors))

theorem sized_of_mem_clusterFindings (hindexed : g.Indexed)
    (hlen : 2 * g.transfers.toList.length < UInt64.size) (hk : k ∈ g.clusters minSize)
    {f : Finding} (h : f ∈ clusterFindings bands k) : f.evidence.Sized := by
  obtain ⟨i, -, rfl⟩ := List.mem_map.1 h
  obtain ⟨hid, hsize, hcount⟩ := cluster_bounds hindexed hk
  exact ⟨hid.trans hlen, hsize.trans_lt hlen, by omega⟩

theorem sized_of_mem_merchantFindings {population : Stats.Summary Float}
    {merchant : String × List Transfer} {f : Finding}
    (h : f ∈ c.merchantFindings bands population merchant) : f.evidence.Sized := by
  unfold Settings.merchantFindings at h
  simp only at h
  split at h
  · cases h
  · split at h
    · cases h
    · obtain ⟨t, -, rfl⟩ := List.mem_map.1 h
      trivial

theorem sized_of_mem_customerFindings {customer : String × List Transfer} {f : Finding}
    (h : f ∈ c.customerFindings bands customer) : f.evidence.Sized := by
  unfold Settings.customerFindings at h
  simp only at h
  split at h
  · cases h
  · obtain ⟨t, -, rfl⟩ := List.mem_map.1 h
    trivial

theorem sized_of_detect (hc : c.check = .ok ()) {records : List Record}
    (hlen : 2 * records.length < UInt64.size) {fs : List Finding}
    (h : c.detect bands records = .found fs) : ∀ f ∈ fs, f.evidence.Sized := by
  obtain rfl := Outcome.found.inj ((detect_eq hc bands records).symm.trans h)
  have htransfers := length_transfers_le records
  intro f hf
  rcases List.mem_append.1 ((Ranking.firsts_sublist _).subset hf) with hf | hf
  · rcases List.mem_append.1 hf with hf | hf
    · obtain ⟨k, hk, hf⟩ := List.mem_flatMap.1 hf
      exact sized_of_mem_clusterFindings (Graph.indexed_ofRecords records) (by omega) hk hf
    · simp only [Settings.allMerchantFindings] at hf
      split at hf
      · cases hf
      · obtain ⟨merchant, -, hf⟩ := List.mem_flatMap.1 hf
        exact sized_of_mem_merchantFindings hf
  · obtain ⟨customer, -, hf⟩ := List.mem_flatMap.1 hf
    exact sized_of_mem_customerFindings hf

end Network

namespace Ensemble

theorem counted_tally {κ : Type} [DecidableEq κ] (key : Finding → κ) (keys : List κ)
    {findings : List Finding} (h : findings.length < UInt64.size) :
    Counted (tally key keys findings) := by
  intro p hp
  obtain ⟨k, -, rfl⟩ := List.mem_map.1 hp
  exact List.countP_le_length.trans_lt h

theorem Summary.sized_of {records : List Record} {findings : List Finding}
    (hrecords : records.length < UInt64.size) (hfindings : findings.length < UInt64.size) :
    (Summary.of records findings).Sized where
  anomalies := hfindings
  records := hrecords
  flagged := by
    refine (Sorted.length_distinct_le _).trans_lt ?_
    rwa [List.length_map]
  bySeverity := bySeverity_eq records ▸ counted_tally _ _ hfindings
  byMethod := byMethod_eq records ▸ counted_tally _ _ hfindings
  byCategory := by
    rintro ⟨category, n⟩ hp
    obtain ⟨-, rfl⟩ := (mem_byCategory_iff records).1 hp
    exact List.countP_le_length.trans_lt hfindings

theorem count_lt_of_mem_patterns {c : PatternSettings} {records : List Record}
    {findings : List Finding} (hfindings : findings.length < UInt64.size) {p : Pattern}
    (h : p ∈ c.patterns records findings) : p.count < UInt64.size := by
  obtain ⟨-, rfl⟩ | ⟨state, -, rfl⟩ | ⟨-, rfl⟩ :=
    PatternSettings.mem_patterns_iff.1 h <;>
    exact List.countP_le_length.trans_lt hfindings

variable {c : Settings} {records : List Record}

theorem sized_of_mem_detectors (hc : c.check = .ok ()) (entropy : UInt64)
    (hlen : 2 * records.length < UInt64.size) :
    ∀ d ∈ c.detectors entropy, ∀ f ∈ (d.detect records).findings, f.evidence.Sized := by
  have hverdicts := Settings.verdicts_of_check hc
  simp only [Settings.verdicts, List.forall_mem_cons] at hverdicts
  obtain ⟨-, hdensity, hsimilarity, hcontextual, htemporal, hnetwork, -⟩ := hverdicts
  have hshort : records.length < UInt64.size := by omega
  simp only [Settings.detectors, List.forall_mem_cons]
  refine ⟨?_, ?_, ?_, ?_, ?_, ?_, by simp⟩
  · exact Outcome.forall_mem_findings fun _ => Isolation.sized_of_detect
  · exact Outcome.forall_mem_findings fun _ => Density.sized_of_detect hdensity
  · exact Outcome.forall_mem_findings fun _ => Similarity.sized_of_detect hsimilarity
  · exact Outcome.forall_mem_findings fun _ => Contextual.sized_of_detect hcontextual hshort
  · exact Outcome.forall_mem_findings fun _ => Temporal.sized_of_detect htemporal hshort
  · exact Outcome.forall_mem_findings fun _ => Network.sized_of_detect hnetwork hlen

/-- Six methods find every record at most once each. -/
theorem length_anomalies_le {e : Engine} {entropy : UInt64}
    (h : Engine.ofSettings? c entropy = .ok e) (records : List Record) :
    (e.run records).anomalies.length ≤ 6 * records.length := by
  obtain ⟨-, rfl⟩ := Engine.eq_of_ofSettings? h
  have hroster := roster_detectors c entropy records
  have hmethods : ((c.detectors entropy).map Detector.method).Nodup := by
    rw [methods_detectors]
    decide
  rw [(anomalies_perm hroster hmethods).length_eq, List.length_flatMap]
  refine List.sum_le_card_nsmul _ records.length ?_
  intro n hn
  obtain ⟨d, hd, rfl⟩ := List.mem_map.1 hn
  exact (hroster d hd).length_le

/-- Where six findings for each record can be counted, so can everything in a report. -/
theorem sized_run {e : Engine} {entropy : UInt64} (h : Engine.ofSettings? c entropy = .ok e)
    (hlen : 6 * records.length < UInt64.size) : (e.run records).Sized := by
  have hfindings := (length_anomalies_le h records).trans_lt hlen
  obtain ⟨hc, rfl⟩ := Engine.eq_of_ofSettings? h
  have hroster := roster_detectors c entropy records
  refine ⟨?_, ?_, ?_, ?_⟩
  · intro f hf
    obtain ⟨d, hd, hf⟩ := mem_detectors_of_mem_anomalies hf
    have hrecord := (hroster d hd).inBatch f hf
    exact ⟨by omega, sized_of_mem_detectors hc entropy (by omega) d hd f hf⟩
  · rw [Engine.summary_run]
    exact Summary.sized_of (by omega) hfindings
  · intro p hp
    rw [Engine.patterns_run] at hp
    exact count_lt_of_mem_patterns hfindings hp
  · intro run hrun
    rw [Engine.runs_run] at hrun
    obtain ⟨d, hd, rfl⟩ := List.mem_map.1 hrun
    have hle := (hroster d hd).length_le
    rw [findings_of hroster hd]
    omega

end Ensemble

end LedgerWatch
