import LedgerWatch.Calendar.Layout

namespace LedgerWatch.Calendar

def exactDigits? (n : Nat) (s : List Char) : Option (Nat × List Char) :=
  let digits := s.take n
  if digits.length = n ∧ digits.all Char.isDigit then
    some (Decimal.natOfDigits digits, s.drop n)
  else none

def exactChar? (accepted : List Char) : List Char → Option (List Char)
  | c :: s => if accepted.contains c then some s else none
  | [] => none

/-- Nanoseconds after a point: at least one digit, of which the first nine count. -/
def fraction? : List Char → Option (Nat × List Char)
  | '.' :: s =>
    let (digits, rest) := Decimal.spanDigits s
    if digits = [] then none
    else
      let leading := digits.take 9
      some (Decimal.natOfDigits leading * Nat.pow 10 (9 - leading.length), rest)
  | s => some (0, s)

/-- An offset from universal time in minutes, at the end of a text. -/
def offset? : List Char → Option Int
  | [] => none
  | c :: s =>
    if c = 'Z' ∨ c = 'z' then if s = [] then some 0 else none
    else if c = '+' ∨ c = '-' ∨ c = '\u2212' then do
      let (hours, s) ← exactDigits? 2 s
      let s ← exactChar? [':'] s
      let (minutes, s) ← exactDigits? 2 s
      if hours ≤ 23 ∧ minutes ≤ 59 ∧ s = [] then
        let total : Int := hours * 60 + minutes
        some (if c = '+' then total else -total)
      else none
    else none

/-- A timestamp with an offset, in universal time. -/
def timestamp? (s : List Char) : Option Moment := do
  let (year, s) ← exactDigits? 4 s
  let s ← exactChar? ['-'] s
  let (month, s) ← exactDigits? 2 s
  let s ← exactChar? ['-'] s
  let (day, s) ← exactDigits? 2 s
  let s ← exactChar? ['T', 't', ' '] s
  let (hour, s) ← exactDigits? 2 s
  let s ← exactChar? [':'] s
  let (minute, s) ← exactDigits? 2 s
  let s ← exactChar? [':'] s
  let (second, s) ← exactDigits? 2 s
  let (nanosecond, s) ← fraction? s
  let offset ← offset? s
  let localTime ← Moment.ofFields? ⟨year, month, day⟩ hour minute second nanosecond
  return localTime.addMinutes (-offset)

def moment? (text : String) : Option Moment :=
  let s := Text.trim text.toList
  timestamp? s <|> layouts.findSome? fun layout => layout.moment? s

end LedgerWatch.Calendar
