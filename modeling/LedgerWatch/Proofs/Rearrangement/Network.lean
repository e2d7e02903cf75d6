import LedgerWatch.Proofs.Network.Moved
import LedgerWatch.Proofs.Network.Reordered
import LedgerWatch.Proofs.Rearrangement.Members

namespace LedgerWatch.Network

variable {place : Nat → Nat}

theorem SameCluster.of_moved {k k' : Cluster}
    (h : SameCluster id (k.moved place) (k'.moved id)) : SameCluster place k k' where
  id_eq := h.id_eq
  nodes := h.nodes
  fraudCount_eq := by simpa [Cluster.fraudCount, Cluster.moved] using h.fraudCount_eq
  risk_eq := by
    simpa [Cluster.risk, Cluster.fraudCount, Cluster.size, Cluster.moved] using h.risk_eq
  records := by
    have hmoved : ∀ (p : Nat → Nat) (k : Cluster), (k.moved p).records = k.records.map p := by
      intro p k
      simp only [Cluster.records, Cluster.moved, List.map_map]
      rfl
    have hrecords := h.records
    rwa [hmoved, hmoved, List.map_id, List.map_id] at hrecords

theorem sales_moved (p : Nat → Nat) (g : Graph) (merchant : String) :
    (g.moved p).sales merchant = (g.sales merchant).map (Transfer.moved p) := by
  simp only [Graph.sales, Graph.moved, Array.toList_map, List.filter_map]
  rfl

theorem SameEvidence.of_moved {p q : Nat → Nat} {g g' : Graph} {e e' : Evidence}
    (h : SameEvidence (g.moved p) (g'.moved q) e e') : SameEvidence g g' e e' := by
  cases h with
  | cluster h => exact .cluster h
  | customer => exact .customer
  | merchant h =>
    rw [sales_moved, sales_moved, List.filterMap_map, List.filterMap_map] at h
    rw [sales_moved, sales_moved, averageAmount_map_moved, averageAmount_map_moved]
    exact .merchant h

theorem SameFinding.of_moved {g g' : Graph} {f f' : Finding}
    (h : SameFinding id (g.moved place) (g'.moved id) (f.reindex place) f') :
    SameFinding place g g' f f' :=
  ⟨h.record_eq, h.score_eq, h.method_eq, h.severity_eq, h.evidence.of_moved⟩

variable {records records' : List Record}

theorem transfers_rearranged (h : Rearranged place records records') :
    ((records.zipIdx.filterMap Transfer.ofRecord?).map (Transfer.moved place)).Perm
      ((records'.zipIdx.filterMap Transfer.ofRecord?).map (Transfer.moved id)) := by
  have hperm := h.filterMap_perm (g := fun m => (Transfer.ofRecord? m).map (Transfer.moved id))
    fun r i => ofRecord?_moved place r i
  rw [← List.map_filterMap] at hperm
  exact hperm.symm

theorem nodup_records_moved (h : Rearranged place records records') :
    (((records.zipIdx.filterMap Transfer.ofRecord?).map (Transfer.moved place)).map
      Transfer.record).Nodup := by
  have hnodup := (Graph.nodup_records_ofRecords records).map h.injective
  rw [Graph.transfers_ofRecords, List.map_map] at hnodup
  rwa [List.map_map]

/-- For any other order of the records the network has the same clusters, under the same numbers:
with the same actors, as many flagged transfers and the same risk, for the same records at their
new positions. And the same is found: the findings can be paired off one to one, so that in each
pair the records are the same, and the scores, the severities and the evidence. -/
theorem detect_of_perm {c : Settings} (hc : c.check = .ok ()) (bands : Bands)
    (hperm : records.Perm records') :
    (∃ place, Rearranged place records records') ∧
      ∀ place, Rearranged place records records' →
        List.Forall₂ (SameCluster place) (c.clusters (.ofRecords records))
          (c.clusters (.ofRecords records')) ∧
        ∃ fs fs', c.detect bands records = .found fs ∧ c.detect bands records' = .found fs' ∧
          Matched (SameFinding place (.ofRecords records) (.ofRecords records')) fs fs' := by
  refine ⟨Rearranged.exists_of_perm hperm, ?_⟩
  intro place h
  have htransfers := transfers_rearranged h
  have hclusters := clusters_perm htransfers c.minClusterSize.toNat
  have hfindings := firsts_findings_matched htransfers c bands (nodup_records_moved h)
  rw [← Graph.ofRecords_moved, ← Graph.ofRecords_moved] at hclusters hfindings
  refine ⟨?_, _, _, detect_eq hc bands _, detect_eq hc bands _, ?_⟩
  · rw [clusters_moved, clusters_moved, List.forall₂_map_left_iff, List.forall₂_map_right_iff]
      at hclusters
    exact hclusters.imp fun k k' hk => hk.of_moved
  · rw [findings_moved, findings_moved, Ranking.firsts_reindex h.injective,
      Ranking.firsts_reindex Function.injective_id] at hfindings
    have hid : (Finding.reindex id) = id := rfl
    rw [hid, List.map_id] at hfindings
    exact hfindings.of_map_left.mono fun f f' hf => hf.of_moved

/-- Two flagged transfers to one merchant change places; a third one stays behind them. -/
theorem detect_of_perm_swapped :
    let record (customer merchant : String) (fraud : Bool) : Record :=
      ⟨[("customer_id", .string customer), ("merchant_id", .string merchant),
        ("is_fraud", .bool fraud)]⟩
    let first := record "ann" "kiosk" true
    let second := record "bob" "kiosk" true
    let third := record "ann" "bakery" false
    let before := Graph.ofRecords [first, second, third]
    let after := Graph.ofRecords [second, first, third]
    Settings.check {} = .ok () ∧
      (Settings.clusters {} before).map Cluster.nodes =
        [[.customer "ann", .merchant "kiosk", .customer "bob"]] ∧
      List.Forall₂ (SameCluster Rearranged.swapFirst) (Settings.clusters {} before)
        (Settings.clusters {} after) ∧
      ∃ fs fs', Settings.detect {} {} [first, second, third] = .found fs ∧
        Settings.detect {} {} [second, first, third] = .found fs' ∧
        Matched (SameFinding Rearranged.swapFirst before after) fs fs' := by
  intro record first second third before after
  have hcheck : Settings.check {} = .ok () := by decide +kernel
  have hnodes : (Settings.clusters {} before).map Cluster.nodes =
      [[.customer "ann", .merchant "kiosk", .customer "bob"]] := by decide +kernel
  obtain ⟨hclusters, hfindings⟩ := (detect_of_perm hcheck {} (.swap second first [third])).2 _
    (Rearranged.swap second first [third])
  exact ⟨hcheck, hnodes, hclusters, hfindings⟩

end LedgerWatch.Network
