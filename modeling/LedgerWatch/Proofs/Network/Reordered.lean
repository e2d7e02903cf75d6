import LedgerWatch.Proofs.Network.Subjects
import LedgerWatch.Proofs.Rearrangement.Matched

namespace LedgerWatch.Network

/-- A cluster of another batch is the same one, with its records at their places there. -/
structure SameCluster (place : Nat → Nat) (k k' : Cluster) : Prop where
  id_eq : k'.id = k.id
  nodes : k.nodes.Perm k'.nodes
  fraudCount_eq : k'.fraudCount = k.fraudCount
  risk_eq : k'.risk = k.risk
  records : (k.records.map place).Perm k'.records

def Graph.sales (g : Graph) (merchant : String) : List Transfer :=
  g.transfers.toList.filter fun t => t.merchant = merchant

/-- The same evidence in two networks. The actors of a cluster may be in another order; the average
amount of a merchant is over the same amounts, perhaps added up in another order. -/
inductive SameEvidence (g g' : Graph) : Evidence → Evidence → Prop
  | cluster {number size fraudCount : Nat} {risk : Float} {nodes nodes' : List String}
      (h : nodes.Perm nodes') :
      SameEvidence g g' (.fraudCluster number size fraudCount risk nodes)
        (.fraudCluster number size fraudCount risk nodes')
  | merchant {merchant : String} {rate z : Float}
      (h : ((g.sales merchant).filterMap Transfer.amount).Perm
        ((g'.sales merchant).filterMap Transfer.amount)) :
      SameEvidence g g' (.merchantRate merchant rate (averageAmount (g.sales merchant)) z)
        (.merchantRate merchant rate (averageAmount (g'.sales merchant)) z)
  | customer {customer : String} {rate variety : Float} :
      SameEvidence g g' (.customerBehavior customer rate variety)
        (.customerBehavior customer rate variety)

structure SameFinding (place : Nat → Nat) (g g' : Graph) (f f' : Finding) : Prop where
  record_eq : f'.record = place f.record
  score_eq : f'.score = f.score
  method_eq : f'.method = f.method
  severity_eq : f'.severity = f.severity
  evidence : SameEvidence g g' f.evidence f'.evidence

theorem SameCluster.of_perm {number : Nat} {nodes nodes' : List Actor}
    {fraud fraud' : List Transfer} (hnodes : nodes.Perm nodes') (hfraud : fraud.Perm fraud') :
    SameCluster id ⟨number, nodes, fraud⟩ ⟨number, nodes', fraud'⟩ where
  id_eq := rfl
  nodes := hnodes
  fraudCount_eq := hfraud.symm.length_eq
  risk_eq := by
    simp only [Cluster.risk, Cluster.fraudCount, Cluster.size, hfraud.length_eq, hnodes.length_eq]
  records := by
    rw [List.map_id]
    exact hfraud.map _

theorem SameFinding.of {g g' : Graph} {e e' : Evidence} (h : SameEvidence g g' e e')
    (bands : Bands) (i : Nat) (score : Float) :
    SameFinding id g g' (.of bands .network i score e) (.of bands .network i score e') :=
  ⟨rfl, rfl, rfl, rfl, h⟩

theorem SameFinding.sameSubject_eq {g g' : Graph} {f f' h h' : Finding}
    (hf : SameFinding id g g' f f') (hh : SameFinding id g g' h h') :
    Ranking.sameSubject f h = Ranking.sameSubject f' h' := by
  rw [Ranking.sameSubject, Ranking.sameSubject, hf.record_eq, hf.method_eq, hh.record_eq,
    hh.method_eq]
  rfl

variable {ts ts' : List Transfer} (h : ts.Perm ts')
include h

theorem fraudRate_of_perm : fraudRate ts = fraudRate ts' := by
  simp only [fraudRate, h.isEmpty_eq, h.countP_eq, h.length_eq]

theorem diversity_of_perm : diversity ts = diversity ts' := by
  rw [diversity, Sorted.distinct_congr fun m => (h.map Transfer.merchant).mem_iff, h.length_eq,
    diversity]

theorem merchantRates_of_perm :
    (Graph.ofTransfers ts).byMerchant.map (fun m => fraudRate m.2) =
      (Graph.ofTransfers ts').byMerchant.map fun m => fraudRate m.2 := by
  obtain ⟨merchants, hts, hts'⟩ := Sorted.exists_keys_of_perm (fun t => some t.merchant) h
  rw [Graph.byMerchant, Graph.transfers_ofTransfers, hts, Graph.byMerchant,
    Graph.transfers_ofTransfers, hts', List.map_map, List.map_map]
  exact List.map_congr_left fun m _ => fraudRate_of_perm (h.filter _)

theorem alike_of_perm : (Graph.ofTransfers ts).Alike (.ofTransfers ts') := by
  intro a b
  simp only [Graph.mem_neighbors, h.mem_iff]

theorem fraudActors_of_perm :
    (Graph.ofTransfers ts).fraudActors = (Graph.ofTransfers ts').fraudActors := by
  rw [Graph.fraudActors, Graph.transfers_ofTransfers, Graph.fraudActors,
    Graph.transfers_ofTransfers]
  exact Sorted.distinct_congr fun a => ((h.filter _).flatMap_right _).mem_iff

theorem fraudWithin_perm {nodes nodes' : List Actor} (hnodes : nodes.Perm nodes') :
    ((Graph.ofTransfers ts).fraudWithin nodes).Perm
      ((Graph.ofTransfers ts').fraudWithin nodes') := by
  rw [(Graph.indexed_ofTransfers ts).fraudWithin_eq, Graph.transfers_ofTransfers,
    (Graph.indexed_ofTransfers ts').fraudWithin_eq, Graph.transfers_ofTransfers]
  simp only [Transfer.fraudWithin, hnodes.contains_eq]
  exact h.filter _

theorem components_perm (members : List Actor) :
    List.Forall₂ List.Perm ((Graph.ofTransfers ts).components members)
      ((Graph.ofTransfers ts').components members) :=
  (alike_of_perm h).componentsFrom _ (Sorted.nodup_distinct members)

theorem clusters_perm (minSize : Nat) :
    List.Forall₂ (SameCluster id) ((Graph.ofTransfers ts).clusters minSize)
      ((Graph.ofTransfers ts').clusters minSize) := by
  have hgroups := components_perm h (Graph.ofTransfers ts').fraudActors
  have hlarge := List.rel_filter (p := fun nodes => decide (minSize ≤ nodes.length))
    (q := fun nodes => decide (minSize ≤ nodes.length))
    (fun _ _ hnodes => by simp only [hnodes.length_eq]) hgroups
  rw [Graph.clusters, fraudActors_of_perm h, Graph.clusters, List.forall₂_map_left_iff,
    List.forall₂_map_right_iff]
  refine (Lists.forall₂_zipIdx hlarge 0).imp ?_
  rintro ⟨nodes, number⟩ ⟨nodes', _⟩ ⟨hnodes, rfl⟩
  exact .of_perm hnodes (fraudWithin_perm h hnodes)

section Findings

variable (c : Settings) (bands : Bands)

omit h in
theorem clusterFindings_matched {g g' : Graph} {k k' : Cluster}
    (hk : SameCluster id k k') :
    Matched (SameFinding id g g') (clusterFindings bands k) (clusterFindings bands k') := by
  have hrecords : k.records.Perm k'.records := by simpa using hk.records
  have hsize : k'.size = k.size := hk.nodes.symm.length_eq
  rw [clusterFindings, clusterFindings, hk.id_eq, hk.fraudCount_eq, hk.risk_eq, hsize]
  exact .of_map_perm hrecords fun i _ => .of (.cluster (hk.nodes.map Actor.name)) bands i _

theorem sales_perm (merchant : String) :
    ((Graph.ofTransfers ts).sales merchant).Perm ((Graph.ofTransfers ts').sales merchant) := by
  rw [Graph.sales, Graph.transfers_ofTransfers, Graph.sales, Graph.transfers_ofTransfers]
  exact h.filter _

theorem merchantFindings_matched (population : Stats.Summary Float) (merchant : String) :
    Matched (SameFinding id (.ofTransfers ts) (.ofTransfers ts'))
      (c.merchantFindings bands population (merchant, (Graph.ofTransfers ts).sales merchant))
      (c.merchantFindings bands population (merchant, (Graph.ofTransfers ts').sales merchant)) := by
  have hsales := sales_perm h merchant
  unfold Settings.merchantFindings
  simp only [← fraudRate_of_perm hsales]
  cases population.zScore? (fraudRate ((Graph.ofTransfers ts).sales merchant)) with
  | none => exact .nil
  | some z =>
    by_cases hz : z ≤ c.merchantThreshold
    · simp only [if_pos hz]
      exact .nil
    · simp only [if_neg hz]
      exact .of_map_perm hsales fun t _ => .of (.merchant (hsales.filterMap _)) bands _ _

theorem customerFindings_matched {g g' : Graph} (customer : String) :
    Matched (SameFinding id g g')
      (c.customerFindings bands (customer, ts)) (c.customerFindings bands (customer, ts')) := by
  unfold Settings.customerFindings
  simp only [← fraudRate_of_perm h, ← diversity_of_perm h]
  split
  · exact .nil
  · exact .of_map_perm h fun t _ => .of .customer bands _ _

theorem allMerchantFindings_matched :
    Matched (SameFinding id (.ofTransfers ts) (.ofTransfers ts'))
      (c.allMerchantFindings bands (.ofTransfers ts))
      (c.allMerchantFindings bands (.ofTransfers ts')) := by
  unfold Settings.allMerchantFindings
  simp only [← merchantRates_of_perm h]
  split
  · exact .nil
  · rename_i population _
    rw [Graph.byMerchant, Graph.transfers_ofTransfers, Graph.byMerchant,
      Graph.transfers_ofTransfers]
    apply Matched.flatMap_groupBy h
    intro merchant
    have hmatched := merchantFindings_matched h c bands population merchant
    simpa only [Graph.sales, Graph.transfers_ofTransfers, Option.some.injEq] using hmatched

theorem allCustomerFindings_matched :
    Matched (SameFinding id (.ofTransfers ts) (.ofTransfers ts'))
      ((Graph.ofTransfers ts).byCustomer.flatMap (c.customerFindings bands))
      ((Graph.ofTransfers ts').byCustomer.flatMap (c.customerFindings bands)) := by
  rw [Graph.byCustomer, Graph.transfers_ofTransfers, Graph.byCustomer, Graph.transfers_ofTransfers]
  apply Matched.flatMap_groupBy h
  exact fun customer => customerFindings_matched (h.filter _) c bands customer

/-- The same findings whatever the order of the transfers is. -/
theorem firsts_findings_matched (hrecords : (ts.map Transfer.record).Nodup) :
    Matched (SameFinding id (.ofTransfers ts) (.ofTransfers ts'))
      (Ranking.firsts (c.findings bands (.ofTransfers ts)))
      (Ranking.firsts (c.findings bands (.ofTransfers ts'))) := by
  have hrecords' := (h.map Transfer.record).nodup_iff.1 hrecords
  rw [← Graph.transfers_ofTransfers ts] at hrecords
  rw [← Graph.transfers_ofTransfers ts'] at hrecords'
  have hclusters : Matched (SameFinding id (.ofTransfers ts) (.ofTransfers ts'))
      ((c.clusters (.ofTransfers ts)).flatMap (clusterFindings bands))
      ((c.clusters (.ofTransfers ts')).flatMap (clusterFindings bands)) :=
    .flatMap (clusters_perm h _) fun k k' hk => clusterFindings_matched bands hk
  have hmerchants := allMerchantFindings_matched h c bands
  have hcustomers := allCustomerFindings_matched h c bands
  have hsubject : ∀ f f' h h', SameFinding id (.ofTransfers ts) (.ofTransfers ts') f f' →
      SameFinding id (.ofTransfers ts) (.ofTransfers ts') h h' →
      Ranking.sameSubject f h = Ranking.sameSubject f' h' :=
    fun _ _ _ _ hf hh => hf.sameSubject_eq hh
  -- one analysis after the other: none of them finds a record twice
  refine .firsts_append hsubject (hclusters.append hmerchants)
    (.firsts_append hsubject hclusters (hclusters.firsts_of_apart ?_ ?_)
      (hmerchants.firsts_of_apart ?_ ?_))
    (hcustomers.firsts_of_apart ?_ ?_)
  · exact pairwise_apart_clusterFindings hrecords (Graph.indexed_ofTransfers _) c bands
  · exact pairwise_apart_clusterFindings hrecords' (Graph.indexed_ofTransfers _) c bands
  · exact pairwise_apart_allMerchantFindings hrecords c bands
  · exact pairwise_apart_allMerchantFindings hrecords' c bands
  · exact pairwise_apart_customerFindings hrecords c bands
  · exact pairwise_apart_customerFindings hrecords' c bands

end Findings

end LedgerWatch.Network
