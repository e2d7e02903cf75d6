import LedgerWatch.Network.Clusters
import LedgerWatch.Detector
import LedgerWatch.Finding.Ranking
import LedgerWatch.Stats.Summary

namespace LedgerWatch.Network

structure Settings where
  minClusterSize : UInt64 := 3
  /-- The z-score of a fraud rate above which a merchant stands out. -/
  merchantThreshold : Float := 2.0
  customerFraudRate : Float := 0.1
  customerMinDiversity : Float := 0.3

def Settings.check (c : Settings) : Except Fault Unit := do
  Fault.require (2 ≤ c.minClusterSize)
    (.ofCount "graph.min_cluster_size" c.minClusterSize "must be at least 2")
  Fault.require (0 < c.merchantThreshold)
    (.ofNumber "graph.merchant_z_threshold" c.merchantThreshold "must be positive")

/-- The share of flagged transfers; zero where there is none. -/
def fraudRate (ts : List Transfer) : Float :=
  if ts.isEmpty then 0
  else Float.ofNat (ts.countP Transfer.fraud) / Float.ofNat ts.length

/-- The mean of the amounts that are known; zero where there is none. -/
def averageAmount (ts : List Transfer) : Float :=
  let amounts := ts.filterMap Transfer.amount
  if amounts.isEmpty then 0 else amounts.foldl (· + ·) 0 / Float.ofNat amounts.length

/-- Different merchants for each transfer. -/
def diversity (ts : List Transfer) : Float :=
  Float.ofNat (Sorted.distinct (ts.map Transfer.merchant)).length / Float.ofNat ts.length

namespace Graph

def byMerchant (g : Graph) : List (String × List Transfer) :=
  Sorted.groupBy (fun t => some t.merchant) g.transfers.toList

def byCustomer (g : Graph) : List (String × List Transfer) :=
  Sorted.groupBy (fun t => some t.customer) g.transfers.toList

end Graph

def Settings.clusters (c : Settings) (g : Graph) : List Cluster :=
  g.clusters c.minClusterSize.toNat

def clusterFindings (bands : Bands) (cluster : Cluster) : List Finding :=
  let evidence := .fraudCluster cluster.id cluster.size cluster.fraudCount cluster.risk
    (cluster.nodes.map Actor.name)
  cluster.records.map fun i =>
    .of bands .network i (Binary64.smaller cluster.risk 1) evidence

def Settings.merchantFindings (c : Settings) (bands : Bands)
    (population : Stats.Summary Float) (merchant : String × List Transfer) : List Finding :=
  let rate := fraudRate merchant.2
  match population.zScore? rate with
  | none => []
  | some z =>
    if z ≤ c.merchantThreshold then []
    else merchant.2.map fun t =>
      .of bands .network t.record rate
        (.merchantRate merchant.1 rate (averageAmount merchant.2) z)

def Settings.customerFindings (c : Settings) (bands : Bands)
    (customer : String × List Transfer) : List Finding :=
  let rate := fraudRate customer.2
  let variety := diversity customer.2
  if rate ≤ c.customerFraudRate && c.customerMinDiversity ≤ variety then []
  else customer.2.map fun t =>
    .of bands .network t.record (Binary64.larger rate (1 - variety))
      (.customerBehavior customer.1 rate variety)

def Settings.allMerchantFindings (c : Settings) (bands : Bands) (g : Graph) : List Finding :=
  let merchants := g.byMerchant
  match Stats.summarize? (merchants.map fun m => fraudRate m.2) with
  | none => []
  | some population => merchants.flatMap (c.merchantFindings bands population)

def Settings.findings (c : Settings) (bands : Bands) (g : Graph) : List Finding :=
  (c.clusters g).flatMap (clusterFindings bands) ++ c.allMerchantFindings bands g ++
    g.byCustomer.flatMap (c.customerFindings bands)

def Settings.detect (c : Settings) (bands : Bands) (records : List Record) : Outcome :=
  match c.check with
  | .error fault => .failed fault
  | .ok () => .found (Ranking.firsts (c.findings bands (.ofRecords records)))

def detector (c : Settings) (bands : Bands) : Detector := .ofMethod .network (c.detect bands)

end LedgerWatch.Network
