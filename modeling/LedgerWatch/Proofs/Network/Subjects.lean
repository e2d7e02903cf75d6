import Mathlib.Data.List.Flatten
import LedgerWatch.Proofs.Keys
import LedgerWatch.Proofs.Network.Findings
import LedgerWatch.Proofs.Network.Incidence
import LedgerWatch.Proofs.Network.Reachability

namespace LedgerWatch.Network

variable {c : Settings} {bands : Bands} {g : Graph}

theorem pairwise_disjoint_components (g : Graph) (members : List Actor) :
    (g.components members).Pairwise List.Disjoint :=
  (List.nodup_flatten.1
    (g.nodup_flatten_componentsFrom _ (Sorted.nodup_distinct members)).1).2

theorem pairwise_disjoint_nodes (g : Graph) (minSize : Nat) :
    (g.clusters minSize).Pairwise fun k k' => k.nodes.Disjoint k'.nodes := by
  have hgroups := (pairwise_disjoint_components g g.fraudActors).filter fun nodes =>
    decide (minSize ≤ nodes.length)
  rw [← List.zipIdx_map_fst 0 (List.filter _ _), List.pairwise_map] at hgroups
  exact List.pairwise_map.2 hgroups

theorem mem_fraudWithin_iff (h : g.Indexed) {nodes : List Actor} {t : Transfer} :
    t ∈ g.fraudWithin nodes ↔
      t ∈ g.transfers.toList ∧ t.fraud = true ∧ t.payer ∈ nodes ∧ t.payee ∈ nodes := by
  simp only [h.fraudWithin_eq, Transfer.fraudWithin, List.mem_filter, Bool.and_eq_true,
    List.contains_iff_mem, and_assoc]

theorem nodup_fraud_clusters (hindexed : g.Indexed) (h : g.transfers.toList.Nodup) (minSize : Nat) :
    ((g.clusters minSize).flatMap Cluster.fraud).Nodup := by
  refine List.nodup_flatMap.2 ⟨?_, (pairwise_disjoint_nodes g minSize).imp_of_mem ?_⟩
  · intro k hk
    rw [fraud_of_mem_clusters hk, hindexed.fraudWithin_eq]
    exact h.filter _
  · -- the payer of a common transfer would be an actor of both
    intro k k' hk hk' hdisjoint t ht ht'
    rw [fraud_of_mem_clusters hk, mem_fraudWithin_iff hindexed] at ht
    rw [fraud_of_mem_clusters hk', mem_fraudWithin_iff hindexed] at ht'
    exact hdisjoint ht.2.2.1 ht'.2.2.1

/-- Findings for transfers that are dealt out to owners, each of them to one. -/
theorem pairwise_apart_of_owners {ι : Type} {owners : List ι} {own : ι → List Transfer}
    {find : ι → List Finding} (hrecords : (g.transfers.toList.map Transfer.record).Nodup)
    (hown : (owners.flatMap own).Nodup)
    (hmem : ∀ o ∈ owners, ∀ t ∈ own o, t ∈ g.transfers.toList)
    (hfind : ∀ o, ((find o).map Finding.record).Sublist ((own o).map Transfer.record)) :
    (owners.flatMap find).Pairwise Finding.Apart := by
  have hnodup : ((owners.flatMap own).map Transfer.record).Nodup := by
    refine hown.map_on ?_
    intro t ht t' ht' heq
    obtain ⟨o, ho, ht⟩ := List.mem_flatMap.1 ht
    obtain ⟨o', ho', ht'⟩ := List.mem_flatMap.1 ht'
    exact List.inj_on_of_nodup_map hrecords (hmem o ho t ht) (hmem o' ho' t' ht') heq
  have hsub : ((owners.flatMap find).map Finding.record).Sublist
      ((owners.flatMap own).map Transfer.record) := by
    rw [List.map_flatMap, List.map_flatMap]
    exact List.Sublist.flatMap_right _ fun o _ => hfind o
  refine (List.pairwise_map.1 (hsub.nodup hnodup)).imp ?_
  intro f f' hne hsame
  exact hne hsame.1

variable (hrecords : (g.transfers.toList.map Transfer.record).Nodup)
include hrecords

theorem pairwise_apart_clusterFindings (hindexed : g.Indexed) (c : Settings) (bands : Bands) :
    ((c.clusters g).flatMap (clusterFindings bands)).Pairwise Finding.Apart := by
  refine pairwise_apart_of_owners hrecords (nodup_fraud_clusters hindexed (.of_map _ hrecords) _) ?_ ?_
  · exact fun k hk t ht => mem_transfers_of_mem_clusters hk ht
  · intro k
    simp only [clusterFindings, Cluster.records, List.map_map]
    exact .refl _

theorem pairwise_apart_allMerchantFindings (c : Settings) (bands : Bands) :
    (c.allMerchantFindings bands g).Pairwise Finding.Apart := by
  unfold Settings.allMerchantFindings
  simp only
  split
  · exact .nil
  · refine pairwise_apart_of_owners hrecords
      (Sorted.nodup_flatMap_groupBy _ (.of_map _ hrecords)) ?_ ?_
    · exact fun merchant hmerchant t ht => (Sorted.mem_of_mem_groupBy hmerchant ht).1
    · intro merchant
      unfold Settings.merchantFindings
      simp only
      split
      · exact List.nil_sublist _
      · split
        · exact List.nil_sublist _
        · rw [List.map_map]
          exact .refl _

theorem pairwise_apart_customerFindings (c : Settings) (bands : Bands) :
    (g.byCustomer.flatMap (c.customerFindings bands)).Pairwise Finding.Apart := by
  refine pairwise_apart_of_owners hrecords
    (Sorted.nodup_flatMap_groupBy _ (.of_map _ hrecords)) ?_ ?_
  · exact fun customer hcustomer t ht => (Sorted.mem_of_mem_groupBy hcustomer ht).1
  · intro customer
    unfold Settings.customerFindings
    simp only
    split
    · exact List.nil_sublist _
    · rw [List.map_map]
      exact .refl _

end LedgerWatch.Network
