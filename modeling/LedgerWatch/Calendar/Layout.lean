import LedgerWatch.Calendar.Moment
import LedgerWatch.Number.Reading
import LedgerWatch.Text.Blank

namespace LedgerWatch.Calendar

inductive Part
  | year
  | month
  | day
  | hour
  | minute
  | second
  deriving DecidableEq, Repr

inductive Item
  | number (part : Part)
  | literal (c : Char)
  /-- Any number of blanks, also none. -/
  | gap
  deriving DecidableEq, Repr

abbrev Layout := List Item

def Part.maxDigits : Part → Nat
  | .year => 4
  | _ => 2

/-- At most `n` digits at the front of a text. -/
def spanDigitsUpTo (n : Nat) (s : List Char) : List Char × List Char :=
  let digits := (s.take n).takeWhile Char.isDigit
  (digits, s.drop digits.length)

def unsigned? (span : List Char × List Char) : Option (Nat × List Char) :=
  if span.1 = [] then none else some (Decimal.natOfDigits span.1, span.2)

/-- The number of a part; a year may carry a sign and then as many digits as are there. -/
def Part.read? (part : Part) (s : List Char) : Option (Int × List Char) :=
  match part, s with
  | .year, '-' :: r => (unsigned? (Decimal.spanDigits r)).map fun v => (-(v.1 : Int), v.2)
  | .year, '+' :: r => (unsigned? (Decimal.spanDigits r)).map fun v => ((v.1 : Int), v.2)
  | p, s => (unsigned? (spanDigitsUpTo p.maxDigits s)).map fun v => ((v.1 : Int), v.2)

def Layout.read? : Layout → List Char → Option (List (Part × Int))
  | [], [] => some []
  | [], _ :: _ => none
  | .number part :: items, s =>
    (part.read? (Text.trimStart s)).bind fun v =>
      (Layout.read? items v.2).map fun fs => (part, v.1) :: fs
  | .literal c :: items, d :: s => if c = d then Layout.read? items s else none
  | .literal _ :: _, [] => none
  | .gap :: items, s => Layout.read? items (Text.trimStart s)

/-- The moment that numbers make up; a missing time of day is midnight. -/
def momentOf? (fs : List (Part × Int)) : Option Moment := do
  let year ← fs.lookup .year
  let month ← fs.lookup .month
  let day ← fs.lookup .day
  let time (part : Part) : Nat := ((fs.lookup part).getD 0).toNat
  if Date.firstYear ≤ year ∧ year ≤ Date.lastYear then
    Moment.ofFields? ⟨year, month.toNat, day.toNat⟩ (time .hour) (time .minute) (time .second) 0
  else none

def Layout.moment? (layout : Layout) (s : List Char) : Option Moment :=
  (layout.read? s).bind momentOf?

def Item.sequence (parts : List Part) (separator : Char) : Layout :=
  (parts.map Item.number).intersperse (.literal separator)

/-- `2024-03-15`. -/
def dashedDate : Layout := Item.sequence [.year, .month, .day] '-'

/-- `03/15/2024`. -/
def monthFirstDate : Layout := Item.sequence [.month, .day, .year] '/'

/-- `2024/03/15`. -/
def slashedDate : Layout := Item.sequence [.year, .month, .day] '/'

def clock : Layout := Item.sequence [.hour, .minute, .second] ':'

def shortClock : Layout := Item.sequence [.hour, .minute] ':'

/-- The layouts in the order in which they are tried. -/
def layouts : List Layout :=
  [dashedDate ++ .gap :: clock, dashedDate ++ .literal 'T' :: clock,
    dashedDate ++ .gap :: shortClock, monthFirstDate ++ .gap :: shortClock,
    dashedDate, monthFirstDate, slashedDate]

end LedgerWatch.Calendar
