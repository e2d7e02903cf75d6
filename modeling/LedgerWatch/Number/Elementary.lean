import LedgerWatch.Number.Binary64

/-!
Logarithm and exponential, computed on whole multiples of `2 ^ -104` and rounded once. Every
result is built from a natural number, so `decay` and `halving` never leave the range from zero to
one and `ln` and `halvings` are never negative.
-/

namespace LedgerWatch.Elementary

def precision : Nat := 104

def one : Nat := Nat.pow 2 precision

/-- `power + power * zz / 3 + …`, the terms of the odd series, with `index` the next divisor. -/
def oddSeries (zz : Nat) : Nat → Nat → Nat → Nat
  | 0, _, _ => 0
  | steps + 1, index, power =>
    power / index + oddSeries zz steps (index + 2) (power * zz / one)

/-- The logarithm of `m / one` for `m` from `one` to `2 * one`:
twice the series of `z = (m - one) / (m + one)`. -/
def lnFixed (m : Nat) : Nat :=
  let z := (m - one) * one / (m + one)
  2 * oddSeries (z * z / one) 40 1 z

def lnTwo : Nat := lnFixed (2 * one)

/-- `term + term * r / index + …`, the terms of the exponential series. -/
def powerSeries (r : Nat) : Nat → Nat → Nat → Nat
  | 0, _, _ => 0
  | steps + 1, index, term =>
    term + powerSeries r steps (index + 1) (term * r / one / index)

/-- The exponential of `r / one` for `r` up to `one`. -/
def expFixed (r : Nat) : Nat := powerSeries r 32 1 one

/-- A significand scaled to lie between `one` and `2 * one`, and the binary exponent left over. -/
def normalized (x : Float) : Nat × Int :=
  let d := Binary64.parts x
  let top := d.significand.log2
  (d.significand * one / Nat.pow 2 top, top + d.exponent)

/-- The natural logarithm of a number that is at least one. -/
def ln (x : Float) : Float :=
  let (m, e) := normalized x
  Binary64.ofDyadic (e.toNat * lnTwo + lnFixed m) precision

/-- How often one has to be halved to come down to `x`, for `x` above zero and up to one. -/
def halvings (x : Float) : Float :=
  let (m, e) := normalized x
  Binary64.ofDyadic ((-e).toNat * one - lnFixed m * one / lnTwo) precision

/-- One halved `k + f / one` times, for `f` below `one`. -/
def halvedFixed (k f : Nat) : Float :=
  Binary64.ofDyadic (one * one / expFixed (f * lnTwo / one)) (precision + k)

/-- `2 ^ -x`, for `x` not below zero. -/
def halving (x : Float) : Float :=
  if x < 2048 then
    let fixed := Binary64.toFixed precision x
    halvedFixed (fixed / one) (fixed % one)
  else 0

/-- `exp (-x)`, for `x` not below zero or no number. -/
def decay (x : Float) : Float :=
  if x.isNaN then x
  else if x < 2048 then
    let fixed := Binary64.toFixed precision x
    Binary64.ofDyadic (one * one / expFixed (fixed % lnTwo)) (precision + fixed / lnTwo)
  else 0

end LedgerWatch.Elementary
