import LedgerWatch.Json.Value
import LedgerWatch.Number.Reading
import LedgerWatch.Number.Writing

/-!
Numbers in JSON texts. A literal without a point and an exponent stays whole when it fits 64 bits.
Any other literal is read in one pass: its leading digits form a 64-bit significand, and the
significand is multiplied or divided by a power of ten. Each of the two steps rounds, so a long
literal may come out one unit of the last place away from the nearest double.
-/

namespace LedgerWatch.Json

/-- The parts of a number literal, all of them digits. -/
structure Literal where
  negative : Bool
  whole : List Char
  fraction : Option (List Char)
  exponent : Option Int

/-- Digits taken onto a significand while it fits 64 bits, and how many were taken. -/
def takeDigits : Nat → List Char → Nat × Nat
  | n, [] => (n, 0)
  | n, c :: cs =>
    let next := 10 * n + Decimal.digitValue c
    if next < UInt64.size then
      let (m, taken) := takeDigits next cs
      (m, taken + 1)
    else (n, 0)

def powerOfTen (k : Nat) : Float := Decimal.nearest 1 k

/-- `m * 10 ^ e`, or nothing when it is out of range. Powers below `1e-308` take two divisions. -/
def scaled? (m : Nat) (e : Int) : Option Float :=
  let x := Float.ofNat m
  if 0 ≤ e then
    if e ≤ 308 then
      let y := x * powerOfTen e.toNat
      if y.isFinite then some y else none
    else if m = 0 then some 0 else none
  else
    let k := (-e).toNat
    if k ≤ 308 then some (x / powerOfTen k)
    else if k ≤ 616 then some (x / powerOfTen 308 / powerOfTen (k - 308))
    else some 0

namespace Literal

/-- A literal that fills a text: no sign but minus, no leading zero, digits after a point. -/
def ofChars? (s : List Char) : Option Literal :=
  let (negative, s) := match s with
    | '-' :: r => (true, r)
    | r => (false, r)
  let (whole, s) := Decimal.spanDigits s
  let (fraction, s) := match s with
    | '.' :: r => (some (Decimal.spanDigits r).1, (Decimal.spanDigits r).2)
    | r => (none, r)
  if whole = [] ∨ (whole.head? = some '0' ∧ whole ≠ ['0']) ∨ fraction = some [] then none
  else (Decimal.exponent? s).map fun e =>
    ⟨negative, whole, fraction, if s = [] then none else some e⟩

def signed (l : Literal) (x : Float) : Option Number :=
  let y := if l.negative then -x else x
  if h : y.isFinite = true then some (.real y h) else none

/-- The number of a literal with a point, an exponent or too many digits. -/
def real? (l : Literal) : Option Number :=
  let (m, taken) := takeDigits 0 l.whole
  let fraction := l.fraction.getD []
  let (m, places) := takeDigits m fraction
  let e : Int := (l.whole.length - taken : Nat) - (places : Nat) + l.exponent.getD 0
  (scaled? m e).bind l.signed

/-- The number of a literal, if it is not too large. Minus zero is a double. -/
def number? (l : Literal) : Option Number :=
  if l.fraction.isSome ∨ l.exponent.isSome then l.real?
  else
    let n : Int := Decimal.natOfDigits l.whole
    let value := if l.negative then -n else n
    if l.negative ∧ n = 0 then l.signed 0
    else if h : Number.InRange value then some (.whole value h)
    else l.real?

end Literal

/-- Positional from `1e-5` up to `1e16`, with a place after a whole number. Of two decimals that are
equally near the one with an even last digit is written. -/
def realStyle : Decimal.Style := ⟨fun p => -4 ≤ p && p ≤ 16, ".0", "+", .even⟩

def Number.write : Number → String
  | .whole (.ofNat n) _ => String.ofList (Nat.toDigits 10 n)
  | .whole (.negSucc n) _ => String.ofList ('-' :: Nat.toDigits 10 (n + 1))
  | .real x _ => realStyle.write x

end LedgerWatch.Json
