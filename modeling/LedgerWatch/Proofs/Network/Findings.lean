import LedgerWatch.Network.Behavior
import LedgerWatch.Proofs.Finding.Roster
import LedgerWatch.Proofs.Keys
import LedgerWatch.Proofs.Network.Positions

namespace LedgerWatch.Network

variable {c : Settings} {bands : Bands} {g : Graph}

def ForTransfer (bands : Bands) (ts : List Transfer) (f : Finding) : Prop :=
  ∃ t ∈ ts, f.MadeFor bands .network t.record

theorem ForTransfer.mono {ts ts' : List Transfer} (hsub : ∀ t ∈ ts, t ∈ ts') {f : Finding}
    (h : ForTransfer bands ts f) : ForTransfer bands ts' f := by
  obtain ⟨t, ht, hmade⟩ := h
  exact ⟨t, hsub t ht, hmade⟩

theorem forTransfer_of_mem_clusterFindings {cluster : Cluster} {f : Finding}
    (h : f ∈ clusterFindings bands cluster) : ForTransfer bands cluster.fraud f := by
  simp only [clusterFindings, Cluster.records, List.map_map] at h
  obtain ⟨t, ht, rfl⟩ := List.mem_map.1 h
  exact ⟨t, ht, _, _, rfl⟩

theorem nodes_of_mem_clusters {k : Cluster} {minSize : Nat} (h : k ∈ g.clusters minSize) :
    k.nodes ∈ g.components g.fraudActors ∧ minSize ≤ k.size := by
  obtain ⟨⟨nodes, id⟩, hnodes, rfl⟩ := List.mem_map.1 h
  have hgroup := List.mem_filter.1 (List.fst_mem_of_mem_zipIdx hnodes)
  exact ⟨hgroup.1, of_decide_eq_true hgroup.2⟩

theorem fraud_of_mem_clusters {k : Cluster} {minSize : Nat} (h : k ∈ g.clusters minSize) :
    k.fraud = g.fraudWithin k.nodes := by
  obtain ⟨m, -, rfl⟩ := List.mem_map.1 h
  rfl

theorem mem_transfers_of_mem_clusters {cluster : Cluster} {minSize : Nat}
    (h : cluster ∈ g.clusters minSize) {t : Transfer} (ht : t ∈ cluster.fraud) :
    t ∈ g.transfers.toList := by
  rw [fraud_of_mem_clusters h] at ht
  obtain ⟨i, -, hi⟩ := List.mem_filterMap.1 ht
  exact List.mem_of_getElem? (Array.getElem?_toList ▸ hi)

theorem forTransfer_of_mem_merchantFindings {population : Stats.Summary Float}
    {merchant : String × List Transfer} {f : Finding}
    (h : f ∈ c.merchantFindings bands population merchant) :
    ForTransfer bands merchant.2 f := by
  unfold Settings.merchantFindings at h
  simp only at h
  split at h
  · cases h
  · split at h
    · cases h
    · obtain ⟨t, ht, rfl⟩ := List.mem_map.1 h
      exact ⟨t, ht, _, _, rfl⟩

theorem forTransfer_of_mem_customerFindings {customer : String × List Transfer} {f : Finding}
    (h : f ∈ c.customerFindings bands customer) : ForTransfer bands customer.2 f := by
  unfold Settings.customerFindings at h
  simp only at h
  split at h
  · cases h
  · obtain ⟨t, ht, rfl⟩ := List.mem_map.1 h
    exact ⟨t, ht, _, _, rfl⟩

theorem forTransfer_of_mem_findings {f : Finding} (h : f ∈ c.findings bands g) :
    ForTransfer bands g.transfers.toList f := by
  rcases List.mem_append.1 h with h | h
  · rcases List.mem_append.1 h with h | h
    · obtain ⟨cluster, hcluster, hf⟩ := List.mem_flatMap.1 h
      exact (forTransfer_of_mem_clusterFindings hf).mono fun t =>
        mem_transfers_of_mem_clusters hcluster
    · simp only [Settings.allMerchantFindings] at h
      split at h
      · cases h
      · obtain ⟨merchant, hmerchant, hf⟩ := List.mem_flatMap.1 h
        exact (forTransfer_of_mem_merchantFindings hf).mono fun t ht =>
          (Sorted.mem_of_mem_groupBy hmerchant ht).1
  · obtain ⟨customer, hcustomer, hf⟩ := List.mem_flatMap.1 h
    exact (forTransfer_of_mem_customerFindings hf).mono fun t ht =>
      (Sorted.mem_of_mem_groupBy hcustomer ht).1

theorem detect_of_refused {fault : Fault} (h : c.check = .error fault) (bands : Bands)
    (records : List Record) : c.detect bands records = .failed fault := by
  simp only [Settings.detect, h]

theorem detect_eq (h : c.check = .ok ()) (bands : Bands) (records : List Record) :
    c.detect bands records = .found (Ranking.firsts (c.findings bands (.ofRecords records))) := by
  simp only [Settings.detect, h]

theorem detect_of_accepted (h : c.check = .ok ()) (bands : Bands) (records : List Record) :
    ∃ fs, c.detect bands records = .found fs ∧ Roster .network records.length fs := by
  refine ⟨_, detect_eq h bands records, ?_⟩
  apply Roster.firsts
  · intro f hf
    obtain ⟨t, -, hmade⟩ := forTransfer_of_mem_findings hf
    exact hmade.method_eq
  · intro f hf
    obtain ⟨t, ht, hmade⟩ := forTransfer_of_mem_findings hf
    rw [hmade.record_eq]
    exact Graph.lt_length_of_mem_transfers ht

theorem gradedBy_of_detect {records : List Record} {fs : List Finding}
    (h : c.detect bands records = .found fs) : ∀ f ∈ fs, f.GradedBy bands := by
  unfold Settings.detect at h
  split at h
  · cases h
  · obtain rfl := Outcome.found.inj h
    intro f hf
    obtain ⟨t, -, hmade⟩ := forTransfer_of_mem_findings ((Ranking.firsts_sublist _).subset hf)
    exact hmade.gradedBy

end LedgerWatch.Network
