import LedgerWatch.Record.Basic
import LedgerWatch.Sorted
import LedgerWatch.Json.Decode

namespace LedgerWatch.Network

/-- A customer and a merchant with the same identifier are different actors. -/
inductive Actor
  | customer (id : String)
  | merchant (id : String)
  deriving DecidableEq, Repr

namespace Actor

def id : Actor → String
  | .customer id => id
  | .merchant id => id

/-- Customers come before merchants, and within each kind the identifiers are in order. -/
def lt : Actor → Actor → Bool
  | .customer a, .customer b => a < b
  | .customer _, .merchant _ => true
  | .merchant _, .customer _ => false
  | .merchant a, .merchant b => a < b

instance : LT Actor := ⟨fun a b => a.lt b = true⟩

instance : DecidableLT Actor := fun a b => inferInstanceAs (Decidable (a.lt b = true))

def name : Actor → String
  | .customer id => "customer:" ++ id
  | .merchant id => "merchant:" ++ id

def toJson : Actor → Json
  | .customer id => .object [("type", .string "customer"), ("id", .string id)]
  | .merchant id => .object [("type", .string "merchant"), ("id", .string id)]

def ofJson? (j : Json) : Option Actor := do
  let fs ← j.fields? ["type", "id"]
  let make ← fs.required "type" (Json.choice? [("customer", customer), ("merchant", merchant)])
  return make (← fs.required "id" Json.string?)

end Actor

structure Transfer where
  id : String
  record : Nat
  customer : String
  merchant : String
  amount : Option Float
  fraud : Bool
  fraudScore : Option Float

namespace Transfer

def payer (t : Transfer) : Actor := .customer t.customer

def payee (t : Transfer) : Actor := .merchant t.merchant

def Touches (t : Transfer) (a : Actor) : Prop := t.payer = a ∨ t.payee = a

instance (t : Transfer) (a : Actor) : Decidable (t.Touches a) := by unfold Touches; infer_instance

/-- The actor at the other end. -/
def other (t : Transfer) (a : Actor) : Actor := if t.payer = a then t.payee else t.payer

def ofRecord? (m : Record × Nat) : Option Transfer := do
  let customer ← m.1.customerId?
  let merchant ← m.1.merchantId?
  return {
    id := m.1.transactionId?.getD ("row-" ++ toString m.2)
    record := m.2
    customer, merchant
    amount := m.1.amount?
    fraud := m.1.isFraud
    fraudScore := m.1.fraudScore? }

def toJson (t : Transfer) : Json :=
  let number (x : Option Float) : Json := (x.map Json.ofFloat).getD .null
  .object [("transaction_id", .string t.id), ("record_index", .ofNat t.record),
    ("from", t.payer.toJson), ("to", t.payee.toJson), ("amount", number t.amount),
    ("fraud", .bool t.fraud), ("fraud_score", number t.fraudScore)]

end Transfer

structure Graph where
  /-- The actors in order, each with the positions of its transfers. -/
  nodes : List (Actor × Array Nat)
  transfers : Array Transfer

namespace Graph

def empty : Graph := ⟨[], #[]⟩

def attach (a : Actor) (position : Nat) (nodes : List (Actor × Array Nat)) :
    List (Actor × Array Nat) :=
  Sorted.alter a (fun positions => (positions.getD #[]).push position) nodes

def add (g : Graph) (t : Transfer) : Graph :=
  let position := g.transfers.size
  ⟨attach t.payee position (attach t.payer position g.nodes), g.transfers.push t⟩

def ofRecords (records : List Record) : Graph :=
  (records.zipIdx.filterMap Transfer.ofRecord?).foldl add empty

def incidentPositions (g : Graph) (a : Actor) : List Nat :=
  ((g.nodes.lookup a).getD #[]).toList

def incident (g : Graph) (a : Actor) : List Transfer :=
  (g.incidentPositions a).filterMap fun i => g.transfers[i]?

def neighbors (g : Graph) (a : Actor) : List Actor := (g.incident a).map fun t => t.other a

end Graph

end LedgerWatch.Network
