import LedgerWatch.Number.Binary64

/-!
The shortest decimal of a double: of all decimals that read back as the double one with the
fewest digits, and of these the nearest. Two of these may be equally near; a `Tie` says which of
them it is.

A positive double `m * 2 ^ q` stands for an interval of reals, whose ends belong to it when `m` is
even. `shortest` walks through the decimal grids from coarse to fine and stops at the first one
that has a point in the interval.
-/

namespace LedgerWatch.Decimal

/-- Where an exact half goes: to the even neighbour, or to the upper one. -/
inductive Tie
  | even
  | up

/-- Division rounded to the nearest whole number. -/
def Tie.roundDiv : Tie → Nat → Nat → Nat
  | even, n, d => Binary64.roundDiv n d
  | up, n, d => (2 * n + d) / (2 * d)

/-- The decimal `digits * 10 ^ exponent`. -/
structure Scientific where
  digits : Nat
  exponent : Int
  deriving DecidableEq, Repr

/-- The reals that round to `m * 2 ^ q`, as whole multiples `low`, `middle`, `high` of
`up / down`, a quarter of the unit of the last binary place. -/
structure Interval where
  low : Nat
  middle : Nat
  high : Nat
  up : Nat
  down : Nat
  closed : Bool

def interval (m : Nat) (q : Int) : Interval :=
  { low := 4 * m - if m = Nat.pow 2 52 ∧ -1074 < q then 1 else 2
    middle := 4 * m
    high := 4 * m + 2
    up := Nat.pow 2 (q - 2).toNat
    down := Nat.pow 2 (2 - q).toNat
    closed := m % 2 == 0 }

namespace Interval

/-- Both sides of a comparison with `c * 10 ^ e`, over a common denominator. -/
def numerator (i : Interval) (e : Int) : Nat := i.up * Nat.pow 10 (-e).toNat

def denominator (i : Interval) (e : Int) : Nat := i.down * Nat.pow 10 e.toNat

def contains (i : Interval) (e : Int) (c : Nat) : Bool :=
  let point := c * i.denominator e
  let low := i.low * i.numerator e
  let high := i.high * i.numerator e
  if i.closed then low ≤ point && point ≤ high else low < point && point < high

/-- The grid point of step `10 ^ e` in the interval that is nearest to its middle. -/
def nearest? (tie : Tie) (i : Interval) (e : Int) : Option Nat :=
  let middle := i.middle * i.numerator e
  let step := i.denominator e
  let below := middle / step
  match i.contains e below, i.contains e (below + 1) with
  | true, true => some (tie.roundDiv middle step)
  | true, false => some below
  | false, true => some (below + 1)
  | false, false => none

def firstHit? (tie : Tie) (i : Interval) : Nat → Int → Option Scientific
  | 0, _ => none
  | steps + 1, e =>
    match i.nearest? tie e with
    | some c => some ⟨c, e⟩
    | none => i.firstHit? tie steps (e - 1)

end Interval

/-- `m * 2 ^ q` written with all its decimal digits. -/
def exact (m : Nat) (q : Int) : Scientific :=
  if 0 ≤ q then ⟨m * Nat.pow 2 q.toNat, 0⟩ else ⟨m * Nat.pow 5 (-q).toNat, q⟩

/-- An exponent whose power of ten is above `m * 2 ^ q`. -/
def coarsest (m : Nat) (q : Int) : Int :=
  (((m.log2 : Int) + 1 + q) * 30103) / 100000 + 1

/-- The shortest decimal that reads back as `m * 2 ^ q`. Seventeen digits are always enough. -/
def shortest (tie : Tie) (m : Nat) (q : Int) : Scientific :=
  if m = 0 then ⟨0, 0⟩
  else ((interval m q).firstHit? tie 20 (coarsest m q)).getD (exact m q)

end LedgerWatch.Decimal
