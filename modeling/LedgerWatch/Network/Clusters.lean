import LedgerWatch.Network.Components

namespace LedgerWatch.Network

structure Cluster where
  id : Nat
  nodes : List Actor
  /-- The flagged transfers between actors of the cluster. -/
  fraud : List Transfer

namespace Cluster

def size (c : Cluster) : Nat := c.nodes.length

def fraudCount (c : Cluster) : Nat := c.fraud.length

/-- Flagged transfers for each actor. -/
def risk (c : Cluster) : Float := Float.ofNat c.fraudCount / Float.ofNat c.size

def records (c : Cluster) : List Nat := c.fraud.map Transfer.record

def toJson (c : Cluster) : Json :=
  .object [("id", .ofNat c.id), ("nodes", .array (c.nodes.map Actor.toJson)),
    ("fraud_edges", .ofNat c.fraudCount), ("risk", .ofFloat c.risk),
    ("transactions", .array (c.records.map Json.ofNat))]

end Cluster

/-- Whether a transfer is flagged and has both ends among some actors. -/
def Transfer.fraudWithin (t : Transfer) (nodes : List Actor) : Bool :=
  t.fraud && nodes.contains t.payer && nodes.contains t.payee

namespace Graph

def fraudActors (g : Graph) : List Actor :=
  Sorted.distinct ((g.transfers.toList.filter Transfer.fraud).flatMap fun t => [t.payer, t.payee])

/-- The positions of the flagged transfers with both ends among some actors. Each actor is asked for
its own; a transfer is held by both of its ends and counted once. -/
def fraudPositions (g : Graph) (nodes : List Actor) : List Nat :=
  Sorted.distinct <| nodes.flatMap fun a => (g.incidentPositions a).filter fun i =>
    (g.transfers[i]?).any fun t => t.fraudWithin nodes

def fraudWithin (g : Graph) (nodes : List Actor) : List Transfer :=
  (g.fraudPositions nodes).filterMap fun i => g.transfers[i]?

/-- The clusters of at least a given size, numbered from zero on. -/
def clusters (g : Graph) (minSize : Nat) : List Cluster :=
  let groups := (g.components g.fraudActors).filter fun c => minSize ≤ c.length
  groups.zipIdx.map fun (nodes, id) => ⟨id, nodes, g.fraudWithin nodes⟩

end Graph

end LedgerWatch.Network
