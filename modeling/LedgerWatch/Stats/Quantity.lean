import LedgerWatch.Number.Binary64

namespace LedgerWatch

class Quantity (α : Type) extends Add α, Sub α, Mul α, Div α where
  ofNat : Nat → α
  sqrt : α → α
  abs : α → α
  larger : α → α → α
  atMost : α → α → Bool
  isFinite : α → Bool
  isMissing : α → Bool
  /-- A spread up to this share of the mean counts as none. -/
  tolerance : α

instance : Quantity Float where
  ofNat := Float.ofNat
  sqrt := Float.sqrt
  abs := Float.abs
  larger := Binary64.larger
  atMost x y := x ≤ y
  isFinite := Float.isFinite
  isMissing := Float.isNaN
  tolerance := 1e-9

end LedgerWatch
