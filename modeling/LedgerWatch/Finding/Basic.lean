import LedgerWatch.Finding.Severity

namespace LedgerWatch

inductive Method
  | isolation
  | density
  | similarity
  | contextual
  | temporal
  | network
  deriving DecidableEq, Repr

namespace Method

instance : LT Method := ⟨fun a b => a.ctorIdx < b.ctorIdx⟩

instance : DecidableLT Method := fun a b => inferInstanceAs (Decidable (a.ctorIdx < b.ctorIdx))

def all : List Method := [.isolation, .density, .similarity, .contextual, .temporal, .network]

def name : Method → String
  | .isolation => "isolation_forest"
  | .density => "local_outlier_factor"
  | .similarity => "one_class_svm"
  | .contextual => "contextual"
  | .temporal => "temporal"
  | .network => "graph_based"

def names : List (String × Method) := all.map fun m => (m.name, m)

end Method

/-- What records are grouped by. -/
inductive Grouping
  | category
  | state
  | type
  deriving DecidableEq, Repr

namespace Grouping

def all : List Grouping := [.category, .state, .type]

def name : Grouping → String
  | .category => "merchant_category"
  | .state => "merchant_state"
  | .type => "transaction_type"

def names : List (String × Grouping) := all.map fun g => (g.name, g)

end Grouping

inductive Direction
  | increasing
  | decreasing
  deriving DecidableEq, Repr

namespace Direction

def of (zScore : Float) : Direction := if 0 ≤ zScore then .increasing else .decreasing

def name : Direction → String
  | .increasing => "increasing"
  | .decreasing => "decreasing"

def names : List (String × Direction) := [("increasing", .increasing), ("decreasing", .decreasing)]

end Direction

/-- A field whose value stands out from its peers. -/
structure FieldScore where
  field : String
  value : Float
  zScore : Float
  expected : Float × Float

/-- Why a record was found. -/
inductive Evidence
  | isolation (averagePath : Float) (trees : Nat)
  | localOutlier (factor density : Float) (neighbors : Nat)
  | similarity (mean decision : Float)
  | contextual (grouping : Grouping) (group : String) (size : Nat) (scores : List FieldScore)
  | rolling (mean std zScore : Float) (direction : Direction)
  | seasonal (month : Nat) (expected : Float × Float) (zScore : Float)
  | trend (position : Nat) (predicted residual threshold : Float)
  | fraudCluster (cluster size fraudEdges : Nat) (risk : Float) (nodes : List String)
  | merchantRate (merchant : String) (fraudRate averageAmount zScore : Float)
  | customerBehavior (customer : String) (fraudRate diversity : Float)

structure Finding where
  record : Nat
  score : Float
  method : Method
  severity : Severity
  evidence : Evidence

/-- A finding with the severity that its score has. -/
def Finding.of (bands : Bands) (method : Method) (record : Nat) (score : Float)
    (evidence : Evidence) : Finding :=
  ⟨record, score, method, bands.classify score, evidence⟩

end LedgerWatch
