import LedgerWatch.Stats.Quantity

namespace LedgerWatch.Stats

variable {α : Type} [Quantity α]

/-- The sum of a list, taken from left to right. -/
@[specialize] def sum (xs : List α) : α := xs.foldl (· + ·) (Quantity.ofNat 0)

@[specialize] def finite? (x : α) : Option α := if Quantity.isFinite x then some x else none

@[specialize] def mean? (xs : List α) : Option α :=
  if xs = [] then none else finite? (sum xs / Quantity.ofNat xs.length)

structure Summary (α : Type) where
  count : Nat
  mean : α
  std : α

@[specialize] def squaredDeviation (mean x : α) : α := (x - mean) * (x - mean)

@[specialize] def summarize? (xs : List α) : Option (Summary α) :=
  (mean? xs).bind fun mean =>
    let std := Quantity.sqrt (sum (xs.map (squaredDeviation mean)) / Quantity.ofNat xs.length)
    if Quantity.isFinite std then some ⟨xs.length, mean, std⟩ else none

@[specialize] def std? (xs : List α) : Option α := (summarize? xs).map Summary.std

/-- Whether a spread is too small, beside its mean, to divide by. -/
@[specialize] def isDegenerate (std mean : α) : Bool :=
  !Quantity.isFinite std ||
    Quantity.atMost std
      (Quantity.tolerance * Quantity.larger (Quantity.abs mean) (Quantity.ofNat 1))

@[specialize] def zScore? (value mean std : α) : Option α :=
  if isDegenerate std mean then none else finite? ((value - mean) / std)

namespace Summary

@[specialize] def isFlat (s : Summary α) : Bool := isDegenerate s.std s.mean

@[specialize] def zScore? (s : Summary α) (value : α) : Option α :=
  Stats.zScore? value s.mean s.std

/-- The values within `width` standard deviations of the mean. -/
@[specialize] def range (s : Summary α) (width : α) : α × α :=
  (s.mean - width * s.std, s.mean + width * s.std)

end Summary

end LedgerWatch.Stats
