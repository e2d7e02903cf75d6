import LedgerWatch.Stats.Summary

namespace LedgerWatch.Stats

variable {α : Type} [Quantity α]

structure Line (α : Type) where
  slope : α
  intercept : α

@[specialize] def Line.at (l : Line α) (x : α) : α := l.slope * x + l.intercept

/-- The sums of `dx * dy` and of `dx * dx` over the points from position `i` on. -/
@[specialize] def crossSums (xMean yMean : α) : Nat → List α → α × α → α × α
  | _, [], acc => acc
  | i, y :: ys, (sxy, sxx) =>
    let dx := Quantity.ofNat i - xMean
    crossSums xMean yMean (i + 1) ys (sxy + dx * (y - yMean), sxx + dx * dx)

@[specialize] def fit? (ys : List α) : Option (Line α) :=
  if ys.length < 2 then none
  else
    let xMean := Quantity.ofNat (ys.length - 1) / Quantity.ofNat 2
    (mean? ys).bind fun yMean =>
      let (sxy, sxx) := crossSums xMean yMean 0 ys (Quantity.ofNat 0, Quantity.ofNat 0)
      let slope := sxy / sxx
      if Quantity.isFinite slope then some ⟨slope, yMean - slope * xMean⟩ else none

end LedgerWatch.Stats
