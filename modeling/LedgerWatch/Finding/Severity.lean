import LedgerWatch.Number.Binary64

namespace LedgerWatch

/-- From the most to the least urgent. -/
inductive Severity
  | critical
  | high
  | medium
  | low
  | minimal
  deriving DecidableEq, Repr

namespace Severity

instance : LT Severity := ⟨fun a b => a.ctorIdx < b.ctorIdx⟩

instance : DecidableLT Severity := fun a b => inferInstanceAs (Decidable (a.ctorIdx < b.ctorIdx))

def all : List Severity := [.critical, .high, .medium, .low, .minimal]

def priority : Severity → Nat
  | .critical => 1
  | .high => 2
  | .medium => 3
  | .low => 4
  | .minimal => 5

def name : Severity → String
  | .critical => "critical"
  | .high => "high"
  | .medium => "medium"
  | .low => "low"
  | .minimal => "minimal"

def names : List (String × Severity) := all.map fun s => (s.name, s)

end Severity

structure Bands where
  critical : Float := 0.8
  high : Float := 0.6
  medium : Float := 0.4
  low : Float := 0.2

namespace Bands

def classify (b : Bands) (score : Float) : Severity :=
  if b.critical ≤ score then .critical
  else if b.high ≤ score then .high
  else if b.medium ≤ score then .medium
  else if b.low ≤ score then .low
  else .minimal

/-- Whether each band begins above the next one. -/
def isOrdered (b : Bands) : Bool := b.high < b.critical && b.medium < b.high && b.low < b.medium

end Bands

end LedgerWatch
