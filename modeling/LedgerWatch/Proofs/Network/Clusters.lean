import LedgerWatch.Proofs.Network.Connected
import LedgerWatch.Proofs.Network.Subjects
import LedgerWatch.Proofs.Scores.Shares

namespace LedgerWatch.Network

section Classes

variable {ts : List Transfer} {members component component' : List Actor}
  {components : List (List Actor)} {a b : Actor}

theorem mem_of_connected (h : Connected ts members a b) (ha : a ∈ members) : b ∈ members := by
  rcases Relation.ReflTransGen.cases_tail h with rfl | ⟨c, -, hlinked⟩
  · exact ha
  · exact hlinked.2.1

namespace AreComponents

variable (h : AreComponents ts members components)
include h

theorem mem_members (hc : component ∈ components) (ha : a ∈ component) : a ∈ members :=
  (h.mem_flatten a).1 (List.mem_flatten_of_mem hc ha)

theorem eq_of_mem (hc : component ∈ components) (hc' : component' ∈ components)
    (ha : a ∈ component) (ha' : a ∈ component') : component = component' :=
  Lists.eq_of_pairwise_disjoint (List.nodup_flatten.1 h.nodup).2 hc hc' ha ha'

theorem mem_iff (hc : component ∈ components) (ha : a ∈ component) :
    b ∈ component ↔ Connected ts members a b := by
  have hmember := h.mem_members hc ha
  constructor
  · intro hb
    exact (h.together a hmember b (h.mem_members hc hb)).1 ⟨component, hc, ha, hb⟩
  · intro hpath
    obtain ⟨component', hc', ha', hb⟩ :=
      (h.together a hmember b (mem_of_connected hpath hmember)).2 hpath
    rwa [h.eq_of_mem hc hc' ha ha']

end AreComponents

end Classes

structure AreClusters (g : Graph) (minSize : Nat) (clusters : List Cluster) : Prop where
  numbered : clusters.map Cluster.id = List.range clusters.length
  nodes_disjoint : clusters.Pairwise fun k k' => k.nodes.Disjoint k'.nodes
  records_disjoint : clusters.Pairwise fun k k' => k.records.Disjoint k'.records
  nodup : ∀ k ∈ clusters, k.nodes.Nodup
  large : ∀ k ∈ clusters, minSize ≤ k.size
  /-- A cluster is a whole component, also over transfers that are not flagged. -/
  component : ∀ k ∈ clusters, ∀ a ∈ k.nodes, ∀ b,
    b ∈ k.nodes ↔ Connected g.transfers.toList g.fraudActors a b
  increasing : ∀ k ∈ clusters, k.records.Pairwise (· < ·)
  length_records : ∀ k ∈ clusters, k.records.length = k.fraudCount
  /-- The records of a cluster are those of the flagged transfers that touch it. -/
  mem_records : ∀ k ∈ clusters, ∀ i, i ∈ k.records ↔ ∃ t ∈ g.transfers.toList,
    t.fraud = true ∧ t.record = i ∧ (t.payer ∈ k.nodes ∨ t.payee ∈ k.nodes)
  both_ends : ∀ k ∈ clusters, ∀ t ∈ g.transfers.toList, t.fraud = true →
    (t.payer ∈ k.nodes ↔ t.payee ∈ k.nodes)
  endpoint : ∀ k ∈ clusters, ∀ a ∈ k.nodes, ∃ t ∈ g.transfers.toList,
    t.fraud = true ∧ t.record ∈ k.records ∧ t.Touches a
  size_le : ∀ k ∈ clusters, k.size ≤ 2 * k.fraudCount
  /-- Counts that fit a word leave at least half a flagged transfer for each actor. -/
  half_le_risk : ∀ k ∈ clusters, k.size < 2 ^ 64 → k.fraudCount < 2 ^ 64 → 0.5 ≤ k.risk
  /-- A flagged transfer is in one cluster, unless the component it joins is too small. -/
  flagged : ∀ t ∈ g.transfers.toList, t.fraud = true → ∃ component : List Actor,
    component.Nodup ∧
      (∀ b, b ∈ component ↔ Connected g.transfers.toList g.fraudActors t.payer b) ∧
      (minSize ≤ component.length → ∃! k, k ∈ clusters ∧ t.record ∈ k.records) ∧
      (component.length < minSize → ∀ k ∈ clusters, t.record ∉ k.records)
  lossless : minSize ≤ 2 → ∀ t ∈ g.transfers.toList, t.fraud = true →
    ∃! k, k ∈ clusters ∧ t.record ∈ k.records
  eq_nil : (∀ t ∈ g.transfers.toList, t.fraud = false) → clusters = []

section Clusters

variable {g : Graph} {minSize : Nat} {k k' : Cluster} {t : Transfer} {a : Actor}

theorem mem_fraudActors_iff : a ∈ g.fraudActors ↔
    ∃ t ∈ g.transfers.toList, t.fraud = true ∧ t.Touches a := by
  simp only [Graph.fraudActors, Sorted.mem_distinct, List.mem_flatMap, List.mem_filter,
    List.mem_cons, List.not_mem_nil, or_false, and_assoc, Transfer.Touches, eq_comm]

theorem map_id_clusters (g : Graph) (minSize : Nat) :
    (g.clusters minSize).map Cluster.id = List.range (g.clusters minSize).length := by
  simp only [Graph.clusters, List.map_map, List.length_map, List.length_zipIdx]
  rw [List.range_eq_range', ← List.zipIdx_map_snd]
  rfl

theorem exists_cluster_of_component {component : List Actor}
    (h : component ∈ g.components g.fraudActors) (hlarge : minSize ≤ component.length) :
    ∃ k ∈ g.clusters minSize, k.nodes = component := by
  have hgroup : component ∈ (g.components g.fraudActors).filter fun c => minSize ≤ c.length :=
    List.mem_filter.2 ⟨h, decide_eq_true hlarge⟩
  rw [← List.zipIdx_map_fst 0 (List.filter _ _)] at hgroup
  obtain ⟨m, hm, rfl⟩ := List.mem_map.1 hgroup
  exact ⟨_, List.mem_map_of_mem hm, rfl⟩

theorem cluster_eq_of_mem (hk : k ∈ g.clusters minSize) (hk' : k' ∈ g.clusters minSize)
    (ha : a ∈ k.nodes) (ha' : a ∈ k'.nodes) : k = k' :=
  Lists.eq_of_pairwise_disjoint (pairwise_disjoint_nodes g minSize) hk hk' ha ha'

variable (hcomponents : AreComponents g.transfers.toList g.fraudActors
  (g.components g.fraudActors))
include hcomponents

theorem payer_mem_iff (hk : k ∈ g.clusters minSize) (ht : t ∈ g.transfers.toList)
    (hfraud : t.fraud = true) : t.payer ∈ k.nodes ↔ t.payee ∈ k.nodes := by
  have hpayer : t.payer ∈ g.fraudActors := mem_fraudActors_iff.2 ⟨t, ht, hfraud, .inl rfl⟩
  have hpayee : t.payee ∈ g.fraudActors := mem_fraudActors_iff.2 ⟨t, ht, hfraud, .inr rfl⟩
  obtain ⟨hnodes, -⟩ := nodes_of_mem_clusters hk
  constructor
  · intro h
    exact (hcomponents.mem_iff hnodes h).2
      (.single ⟨hpayer, hpayee, t, ht, .inl ⟨rfl, rfl⟩⟩)
  · intro h
    exact (hcomponents.mem_iff hnodes h).2
      (.single ⟨hpayee, hpayer, t, ht, .inr ⟨rfl, rfl⟩⟩)

variable (hindexed : g.Indexed)
include hindexed

theorem mem_fraud_iff (hk : k ∈ g.clusters minSize) : t ∈ k.fraud ↔
    t ∈ g.transfers.toList ∧ t.fraud = true ∧ (t.payer ∈ k.nodes ∨ t.payee ∈ k.nodes) := by
  rw [fraud_of_mem_clusters hk, mem_fraudWithin_iff hindexed]
  refine and_congr_right fun ht => and_congr_right fun hfraud => ?_
  rw [payer_mem_iff hcomponents hk ht hfraud, and_self, or_self]

theorem exists_fraud_of_mem_nodes (hk : k ∈ g.clusters minSize) (ha : a ∈ k.nodes) :
    ∃ t ∈ k.fraud, t.Touches a := by
  obtain ⟨hnodes, -⟩ := nodes_of_mem_clusters hk
  obtain ⟨t, ht, hfraud, htouches⟩ :=
    mem_fraudActors_iff.1 (hcomponents.mem_members hnodes ha)
  refine ⟨t, (mem_fraud_iff hcomponents hindexed hk).2 ⟨ht, hfraud, ?_⟩, htouches⟩
  rcases htouches with rfl | rfl
  · exact .inl ha
  · exact .inr ha

omit hindexed in
theorem nodup_nodes (hk : k ∈ g.clusters minSize) : k.nodes.Nodup :=
  (List.nodup_flatten.1 hcomponents.nodup).1 _ (nodes_of_mem_clusters hk).1

/-- Every actor of a cluster is one of two for some flagged transfer of it. -/
theorem size_le_two_mul (hk : k ∈ g.clusters minSize) : k.size ≤ 2 * k.fraudCount := by
  have hsub : k.nodes ⊆ k.fraud.flatMap fun t => [t.payer, t.payee] := by
    intro a ha
    obtain ⟨t, ht, htouches⟩ := exists_fraud_of_mem_nodes hcomponents hindexed hk ha
    refine List.mem_flatMap.2 ⟨t, ht, ?_⟩
    rcases htouches with rfl | rfl <;> simp
  have hle := ((nodup_nodes hcomponents hk).subperm hsub).length_le
  have hpairs : (k.fraud.flatMap fun t => [t.payer, t.payee]).length = 2 * k.fraud.length := by
    simp [List.length_flatMap, mul_comm]
  rwa [hpairs] at hle

variable (hrecords : (g.transfers.toList.map Transfer.record).Pairwise (· < ·))
include hrecords

theorem record_mem_iff (hk : k ∈ g.clusters minSize) (ht : t ∈ g.transfers.toList)
    (hfraud : t.fraud = true) : t.record ∈ k.records ↔ t.payer ∈ k.nodes := by
  constructor
  · intro h
    obtain ⟨t', ht', heq⟩ := List.mem_map.1 h
    have hmem := mem_transfers_of_mem_clusters hk ht'
    obtain rfl := List.inj_on_of_nodup_map (hrecords.imp Nat.ne_of_lt) hmem ht heq
    rw [fraud_of_mem_clusters hk, mem_fraudWithin_iff hindexed] at ht'
    exact ht'.2.2.1
  · intro h
    exact List.mem_map_of_mem ((mem_fraud_iff hcomponents hindexed hk).2 ⟨ht, hfraud, .inl h⟩)

theorem records_disjoint : (g.clusters minSize).Pairwise fun k k' =>
    k.records.Disjoint k'.records := by
  refine (pairwise_disjoint_nodes g minSize).imp_of_mem ?_
  intro k k' hk hk' hdisjoint i hi hi'
  obtain ⟨t, ht, rfl⟩ := List.mem_map.1 hi
  obtain ⟨hmem, hfraud, -⟩ := (mem_fraud_iff hcomponents hindexed hk).1 ht
  exact hdisjoint ((record_mem_iff hcomponents hindexed hrecords hk hmem hfraud).1 hi)
    ((record_mem_iff hcomponents hindexed hrecords hk' hmem hfraud).1 hi')

/-- The component of a flagged transfer, and whether it is a cluster. -/
theorem exists_component_of_flagged (ht : t ∈ g.transfers.toList) (hfraud : t.fraud = true) :
    ∃ component ∈ g.components g.fraudActors, t.payer ∈ component ∧ t.payee ∈ component ∧
      (minSize ≤ component.length → ∃! k, k ∈ g.clusters minSize ∧ t.record ∈ k.records) ∧
      (component.length < minSize → ∀ k ∈ g.clusters minSize, t.record ∉ k.records) := by
  have hpayer : t.payer ∈ g.fraudActors := mem_fraudActors_iff.2 ⟨t, ht, hfraud, .inl rfl⟩
  have hpayee : t.payee ∈ g.fraudActors := mem_fraudActors_iff.2 ⟨t, ht, hfraud, .inr rfl⟩
  obtain ⟨component, hc, hmem⟩ := List.mem_flatten.1 ((hcomponents.mem_flatten _).2 hpayer)
  have hmem' : t.payee ∈ component := (hcomponents.mem_iff hc hmem).2
    (.single ⟨hpayer, hpayee, t, ht, .inl ⟨rfl, rfl⟩⟩)
  refine ⟨component, hc, hmem, hmem', ?_, ?_⟩
  · intro hlarge
    obtain ⟨k, hk, rfl⟩ := exists_cluster_of_component hc hlarge
    refine ⟨k, ⟨hk, (record_mem_iff hcomponents hindexed hrecords hk ht hfraud).2 hmem⟩, ?_⟩
    rintro k' ⟨hk', hrecord⟩
    exact cluster_eq_of_mem hk' hk
      ((record_mem_iff hcomponents hindexed hrecords hk' ht hfraud).1 hrecord) hmem
  · intro hsmall k hk hrecord
    obtain ⟨hnodes, hlarge⟩ := nodes_of_mem_clusters hk
    have heq := hcomponents.eq_of_mem hnodes hc
      ((record_mem_iff hcomponents hindexed hrecords hk ht hfraud).1 hrecord) hmem
    rw [← heq] at hsmall
    exact absurd hlarge (Nat.not_le.2 hsmall)

omit hindexed hrecords in
theorem exists_mem_nodes (hk : k ∈ g.clusters minSize) : ∃ a, a ∈ k.nodes := by
  obtain ⟨first, rest, hcons, -⟩ := hcomponents.least_first _ (nodes_of_mem_clusters hk).1
  exact ⟨first, hcons ▸ List.mem_cons_self⟩

theorem areClusters : AreClusters g minSize (g.clusters minSize) where
  numbered := map_id_clusters g minSize
  nodes_disjoint := pairwise_disjoint_nodes g minSize
  records_disjoint := records_disjoint hcomponents hindexed hrecords
  nodup k hk := nodup_nodes hcomponents hk
  large k hk := (nodes_of_mem_clusters hk).2
  component k hk a ha b := hcomponents.mem_iff (nodes_of_mem_clusters hk).1 ha
  increasing k hk := by
    rw [Cluster.records, fraud_of_mem_clusters hk, hindexed.fraudWithin_eq]
    exact hrecords.sublist (List.filter_sublist.map _)
  length_records k _ := List.length_map _
  mem_records k hk i := by
    simp only [Cluster.records, List.mem_map, mem_fraud_iff hcomponents hindexed hk]
    constructor
    · rintro ⟨t, ⟨ht, hfraud, hends⟩, rfl⟩
      exact ⟨t, ht, hfraud, rfl, hends⟩
    · rintro ⟨t, ht, hfraud, rfl, hends⟩
      exact ⟨t, ⟨ht, hfraud, hends⟩, rfl⟩
  both_ends k hk t ht hfraud := payer_mem_iff hcomponents hk ht hfraud
  endpoint k hk a ha := by
    obtain ⟨t, ht, htouches⟩ := exists_fraud_of_mem_nodes hcomponents hindexed hk ha
    obtain ⟨hmem, hfraud, -⟩ := (mem_fraud_iff hcomponents hindexed hk).1 ht
    exact ⟨t, hmem, hfraud, List.mem_map_of_mem ht, htouches⟩
  size_le k hk := size_le_two_mul hcomponents hindexed hk
  half_le_risk k hk hsize hcount := by
    obtain ⟨a, ha⟩ := exists_mem_nodes hcomponents hk
    exact half_le_share hcount (List.length_pos_of_mem ha) hsize
      (size_le_two_mul hcomponents hindexed hk)
  flagged t ht hfraud := by
    obtain ⟨component, hc, hpayer, -, hone, hnone⟩ :=
      exists_component_of_flagged hcomponents hindexed hrecords ht hfraud
    exact ⟨component, (List.nodup_flatten.1 hcomponents.nodup).1 _ hc,
      fun b => hcomponents.mem_iff hc hpayer, hone, hnone⟩
  lossless hsmall t ht hfraud := by
    obtain ⟨component, hc, hpayer, hpayee, hone, -⟩ :=
      exists_component_of_flagged hcomponents hindexed hrecords ht hfraud
    -- a customer and a merchant are two actors
    have hpair : [t.payee, t.payer] ⊆ component := by
      simp [hpayer, hpayee]
    have htwo := ((List.nodup_cons.2 ⟨by simp [t.payee_ne_payer], List.nodup_singleton _⟩ :
      [t.payee, t.payer].Nodup).subperm hpair).length_le
    exact hone (hsmall.trans htwo)
  eq_nil hnone := by
    refine List.eq_nil_iff_forall_not_mem.2 fun k hk => ?_
    obtain ⟨a, ha⟩ := exists_mem_nodes hcomponents hk
    obtain ⟨t, ht, -⟩ := exists_fraud_of_mem_nodes hcomponents hindexed hk ha
    obtain ⟨hmem, hfraud, -⟩ := (mem_fraud_iff hcomponents hindexed hk).1 ht
    rw [hnone t hmem] at hfraud
    cases hfraud

end Clusters

/-- Whatever the records and the least size, the clusters hold the flagged transfers of their
components, none of them twice. -/
theorem areClusters_ofRecords (records : List Record) (minSize : Nat) :
    AreClusters (Graph.ofRecords records) minSize
      ((Graph.ofRecords records).clusters minSize) := by
  have hcomponents : AreComponents (Graph.ofRecords records).transfers.toList
      (Graph.ofRecords records).fraudActors
      ((Graph.ofRecords records).components (Graph.ofRecords records).fraudActors) := by
    rw [Graph.transfers_ofRecords]
    exact areComponents_ofTransfers _ _
  exact areClusters hcomponents (Graph.indexed_ofRecords records)
    (Graph.increasing_records_ofRecords records)

/-- A transfer that is not flagged joins two flagged ones; the cluster does not count it. -/
example :
    let record (customer merchant : String) (fraud : Bool) : Record :=
      ⟨[("customer_id", .string customer), ("merchant_id", .string merchant),
        ("is_fraud", .bool fraud)]⟩
    let g := Graph.ofRecords
      [record "ann" "kiosk" true, record "ann" "bakery" false, record "bob" "bakery" true]
    (g.clusters 2).map (fun k => (k.size, k.fraudCount, k.records)) = [(4, 2, [0, 2])] := by
  decide +kernel

end LedgerWatch.Network
