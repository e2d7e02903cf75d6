import LedgerWatch.Proofs.Finding.Subjects
import LedgerWatch.Proofs.Groups
import LedgerWatch.Proofs.Network.Positions
import LedgerWatch.Network.Behavior

namespace LedgerWatch.Network

/-- The transfer without its name, for a record at another position. -/
def Transfer.moved (p : Nat → Nat) (t : Transfer) : Transfer :=
  { t with id := "", record := p t.record }

/-- A transfer without a name of its own is named after its position; names are left out. -/
theorem ofRecord?_moved (p : Nat → Nat) (r : Record) (i : Nat) :
    (Transfer.ofRecord? (r, p i)).map (Transfer.moved id) =
      (Transfer.ofRecord? (r, i)).map (Transfer.moved p) := by
  unfold Transfer.ofRecord?
  cases r.customerId? with
  | none => rfl
  | some customer => cases r.merchantId? <;> rfl

namespace Graph

def moved (p : Nat → Nat) (g : Graph) : Graph := ⟨g.nodes, g.transfers.map (Transfer.moved p)⟩

variable (p : Nat → Nat) (g : Graph)

theorem add_moved (t : Transfer) : (g.moved p).add (t.moved p) = (g.add t).moved p := by
  simp only [add, moved, Array.size_map, Array.map_push]
  rfl

theorem foldl_add_moved (ts : List Transfer) :
    (ts.map (Transfer.moved p)).foldl add (g.moved p) = (ts.foldl add g).moved p := by
  induction ts generalizing g with
  | nil => rfl
  | cons t ts ih => rw [List.map_cons, List.foldl_cons, add_moved, ih, List.foldl_cons]

theorem ofTransfers_moved (ts : List Transfer) :
    ofTransfers (ts.map (Transfer.moved p)) = (ofTransfers ts).moved p := by
  have hempty : empty.moved p = empty := by
    simp only [moved, empty, Array.map_empty]
  rw [ofTransfers, ← hempty, foldl_add_moved, ofTransfers]

theorem ofRecords_moved (records : List Record) :
    (ofRecords records).moved p =
      ofTransfers ((records.zipIdx.filterMap Transfer.ofRecord?).map (Transfer.moved p)) :=
  (ofTransfers_moved p _).symm

theorem neighbors_moved (a : Actor) : (g.moved p).neighbors a = g.neighbors a := by
  have hincident : (g.moved p).incident a = (g.incident a).map (Transfer.moved p) := by
    simp only [incident, List.map_filterMap, moved, Array.getElem?_map]
    rfl
  rw [neighbors, hincident, List.map_map, neighbors]
  rfl

theorem visit_moved (stack unreached : List Actor) :
    (g.moved p).visit stack unreached = g.visit stack unreached := by
  fun_induction g.visit stack unreached with
  | case1 unreached => rw [visit]
  | case2 unreached a rest state _ visited left hvisit ih =>
    -- a visit asks the network for neighbors and for nothing else
    rw [visit]
    simp only [neighbors_moved]
    rw [ih, hvisit]

theorem componentsFrom_moved (members unreached : List Actor) :
    (g.moved p).componentsFrom members unreached = g.componentsFrom members unreached := by
  induction members generalizing unreached with
  | nil => rfl
  | cons a as ih => simp only [componentsFrom, visit_moved, ih]

theorem components_moved (members : List Actor) :
    (g.moved p).components members = g.components members :=
  componentsFrom_moved p g _ _

end Graph

def Cluster.moved (p : Nat → Nat) (cluster : Cluster) : Cluster :=
  { cluster with fraud := cluster.fraud.map (Transfer.moved p) }

section Findings

variable (p : Nat → Nat) (g : Graph) (c : Settings) (bands : Bands)

theorem fraudActors_moved : (g.moved p).fraudActors = g.fraudActors := by
  simp only [Graph.fraudActors, Graph.moved, Array.toList_map, List.filter_map, List.flatMap_map]
  rfl

theorem fraudWithin_moved (nodes : List Actor) :
    (g.moved p).fraudWithin nodes = (g.fraudWithin nodes).map (Transfer.moved p) := by
  have hpositions : (g.moved p).fraudPositions nodes = g.fraudPositions nodes := by
    simp only [Graph.fraudPositions, Graph.moved, Array.getElem?_map, Option.any_map]
    rfl
  rw [Graph.fraudWithin, hpositions, Graph.fraudWithin, List.map_filterMap]
  simp only [Graph.moved, Array.getElem?_map]

theorem clusters_moved (minSize : Nat) :
    (g.moved p).clusters minSize = (g.clusters minSize).map (Cluster.moved p) := by
  simp only [Graph.clusters, Graph.components_moved, fraudActors_moved, fraudWithin_moved,
    List.map_map]
  rfl

theorem clusterFindings_moved (cluster : Cluster) :
    clusterFindings bands (cluster.moved p) =
      (clusterFindings bands cluster).map (Finding.reindex p) := by
  simp only [clusterFindings, Cluster.records, Cluster.moved, Cluster.size, Cluster.risk,
    Cluster.fraudCount, List.length_map, List.map_map]
  rfl

theorem fraudRate_map_moved (ts : List Transfer) :
    fraudRate (ts.map (Transfer.moved p)) = fraudRate ts := by
  simp only [fraudRate, List.isEmpty_map, List.countP_map, List.length_map]
  rfl

theorem averageAmount_map_moved (ts : List Transfer) :
    averageAmount (ts.map (Transfer.moved p)) = averageAmount ts := by
  simp only [averageAmount, List.filterMap_map]
  rfl

theorem diversity_map_moved (ts : List Transfer) :
    diversity (ts.map (Transfer.moved p)) = diversity ts := by
  simp only [diversity, List.map_map, List.length_map]
  rfl

def movedGroup (group : String × List Transfer) : String × List Transfer :=
  (group.1, group.2.map (Transfer.moved p))

theorem byMerchant_moved : (g.moved p).byMerchant = g.byMerchant.map (movedGroup p) := by
  rw [Graph.byMerchant, Graph.moved, Array.toList_map, Sorted.groupBy_map]
  rfl

theorem byCustomer_moved : (g.moved p).byCustomer = g.byCustomer.map (movedGroup p) := by
  rw [Graph.byCustomer, Graph.moved, Array.toList_map, Sorted.groupBy_map]
  rfl

theorem merchantFindings_moved (population : Stats.Summary Float)
    (merchant : String × List Transfer) :
    c.merchantFindings bands population (movedGroup p merchant) =
      (c.merchantFindings bands population merchant).map (Finding.reindex p) := by
  simp only [Settings.merchantFindings, movedGroup, fraudRate_map_moved, averageAmount_map_moved]
  cases population.zScore? (fraudRate merchant.2) with
  | none => rfl
  | some z =>
    simp only [List.map_map]
    split
    · rfl
    · rw [List.map_map]
      rfl

theorem customerFindings_moved (customer : String × List Transfer) :
    c.customerFindings bands (movedGroup p customer) =
      (c.customerFindings bands customer).map (Finding.reindex p) := by
  simp only [Settings.customerFindings, movedGroup, fraudRate_map_moved, diversity_map_moved]
  split
  · rfl
  · rw [List.map_map, List.map_map]
    rfl

theorem allMerchantFindings_moved :
    c.allMerchantFindings bands (g.moved p) =
      (c.allMerchantFindings bands g).map (Finding.reindex p) := by
  have hrates : (g.byMerchant.map (movedGroup p)).map (fun m => fraudRate m.2) =
      g.byMerchant.map fun m => fraudRate m.2 := by
    simp only [List.map_map, Function.comp_def, movedGroup, fraudRate_map_moved]
  simp only [Settings.allMerchantFindings, byMerchant_moved, hrates]
  cases Stats.summarize? (g.byMerchant.map fun m => fraudRate m.2) with
  | none => rfl
  | some population =>
    simp only [List.flatMap_map, List.map_flatMap, merchantFindings_moved]

/-- What is found does not depend on where the records stand. -/
theorem findings_moved :
    c.findings bands (g.moved p) = (c.findings bands g).map (Finding.reindex p) := by
  simp only [Settings.findings, Settings.clusters, clusters_moved, allMerchantFindings_moved,
    byCustomer_moved, List.map_append, List.flatMap_map, List.map_flatMap, clusterFindings_moved,
    customerFindings_moved]

end Findings

end LedgerWatch.Network
