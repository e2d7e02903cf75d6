import LedgerWatch.Json.Value

namespace LedgerWatch.Json

def float? : Json → Option Float
  | .number n => some n.toFloat
  | _ => none

/-- A whole number that is not negative; a literal with a point or an exponent is none. -/
def nat? : Json → Option Nat
  | .number (.whole i _) => if 0 ≤ i then some i.toNat else none
  | _ => none

def word? (j : Json) : Option UInt64 := (nat? j).map UInt64.ofNat

def bool? : Json → Option Bool
  | .bool b => some b
  | _ => none

def string? : Json → Option String
  | .string s => some s
  | _ => none

def optional? {α : Type} (read : Json → Option α) : Json → Option (Option α)
  | .null => some none
  | j => (read j).map some

def list? {α : Type} (read : Json → Option α) : Json → Option (List α)
  | .array items => items.mapM read
  | _ => none

def pair? {α : Type} (read : Json → Option α) : Json → Option (α × α)
  | .array [a, b] => do return (← read a, ← read b)
  | _ => none

/-- One of a set of names, alone or as the only member of an object, with a blank value. -/
def choiceWith? {α : Type} (blank : Json → Bool) (names : List (String × α)) : Json → Option α
  | .string s => names.lookup s
  | .object [(s, j)] => if blank j then names.lookup s else none
  | _ => none

def isNull : Json → Bool
  | .null => true
  | _ => false

def isNullOrEmpty : Json → Bool
  | .null => true
  | .object [] => true
  | _ => false

/-- One of a set of names, where only null is blank. -/
def choice? {α : Type} (names : List (String × α)) : Json → Option α := choiceWith? isNull names

abbrev Fields := List (String × Json)

def fields? (names : List String) : Json → Option Fields
  | .object members =>
    let known := members.filter fun m => names.contains m.1
    if (known.map Prod.fst).Nodup then some known else none
  | .array items => if items.length ≤ names.length then some (names.zip items) else none
  | _ => none

namespace Fields

def required {α : Type} (fs : Fields) (name : String) (read : Json → Option α) : Option α :=
  (fs.lookup name).bind read

def withDefault {α : Type} (fs : Fields) (name : String) (read : Json → Option α) (default : α) :
    Option α :=
  match fs.lookup name with
  | none => some default
  | some j => read j

end Fields

end LedgerWatch.Json
