import LedgerWatch.Number.Binary64

namespace LedgerWatch.Decimal

def digitValue (c : Char) : Nat := c.toNat - '0'.toNat

def natOfDigits (ds : List Char) : Nat :=
  ds.foldl (fun n c => 10 * n + digitValue c) 0

/-- Digits at the front of a text, and what follows them. -/
def spanDigits (s : List Char) : List Char × List Char :=
  (s.takeWhile Char.isDigit, s.dropWhile Char.isDigit)

/-- A leading sign, as "is negative", and what follows it. -/
def spanSign : List Char → Bool × List Char
  | '-' :: s => (true, s)
  | '+' :: s => (false, s)
  | s => (false, s)

/-- `m * 10 ^ e`, rounded to the nearest double. -/
def nearest (m : Nat) (e : Int) : Float :=
  Float.ofScientific m (decide (e < 0)) e.natAbs

/-- An exponent part that reaches to the end of the text; none at all counts as zero. -/
def exponent? : List Char → Option Int
  | [] => some 0
  | c :: s =>
    if c = 'e' ∨ c = 'E' then
      let (negative, digits) := spanSign s
      if digits ≠ [] ∧ digits.all Char.isDigit then
        some (if negative then -(natOfDigits digits : Int) else natOfDigits digits)
      else none
    else none

def unsigned? (s : List Char) : Option Float :=
  let (whole, rest) := spanDigits s
  let (fraction, rest) := match rest with
    | '.' :: r => spanDigits r
    | r => ([], r)
  if whole = [] ∧ fraction = [] then none
  else (exponent? rest).map fun e => nearest (natOfDigits (whole ++ fraction)) (e - fraction.length)

def word? (s : List Char) : Option Float :=
  let w := String.ofList (s.map Char.toLower)
  if w = "inf" ∨ w = "infinity" then some Binary64.infinity
  else if w = "nan" then some Binary64.nan
  else none

def number? (s : List Char) : Option Float :=
  let (negative, rest) := spanSign s
  (word? rest <|> unsigned? rest).map fun x => if negative then -x else x

/-- A whole number in the range of 64-bit words, with an optional plus sign. -/
def word64? (s : List Char) : Option UInt64 :=
  let digits := match s with
    | '+' :: r => r
    | r => r
  if digits ≠ [] ∧ digits.all Char.isDigit ∧ natOfDigits digits < UInt64.size then
    some (UInt64.ofNat (natOfDigits digits))
  else none

end LedgerWatch.Decimal
