import LedgerWatch.Number.Binary64

namespace LedgerWatch

/-- The range of signed and unsigned 64-bit words. -/
abbrev Json.Number.InRange (value : Int) : Prop :=
  -0x8000000000000000 ≤ value ∧ value < 0x10000000000000000

/-- A JSON number: a whole number in the range of signed or unsigned 64-bit words, or a double. -/
inductive Json.Number
  | whole (value : Int) (inRange : Json.Number.InRange value)
  | real (value : Float) (finite : value.isFinite = true)

inductive Json
  | null
  | bool (value : Bool)
  | number (value : Json.Number)
  | string (value : String)
  | array (items : List Json)
  | object (members : List (String × Json))

namespace Json

def Number.toFloat : Number → Float
  | .whole (.ofNat n) _ => Float.ofNat n
  | .whole (.negSucc n) _ => -Float.ofNat (n + 1)
  | .real x _ => x

/-- A double as a JSON value: a number, or null when it has no finite value. -/
def ofFloat (x : Float) : Json :=
  if h : x.isFinite = true then .number (.real x h) else .null

def ofWord (n : UInt64) : Json :=
  have hlt := n.toNat_lt
  .number (.whole n.toNat ⟨by omega, by omega⟩)

/-- A whole number; one beyond 64 bits falls back to the nearest double. -/
def ofInt (i : Int) : Json :=
  if h : Number.InRange i then .number (.whole i h) else ofFloat (Float.ofInt i)

def ofNat (n : Nat) : Json := ofInt n

def kind : Json → String
  | .null => "null"
  | .bool _ => "a boolean"
  | .number _ => "a number"
  | .string _ => "a string"
  | .array _ => "an array"
  | .object _ => "an object"

/-- Sets a member: in place when the name is there, at the end when it is new. -/
def setMember {α : Type} (name : String) (value : α) : List (String × α) → List (String × α)
  | [] => [(name, value)]
  | (n, v) :: rest =>
    if n = name then (n, value) :: rest else (n, v) :: setMember name value rest

mutual

/-- Every object with each name once, holding the value that was written last. -/
def merged : Json → Json
  | .array items => .array (mergedItems items)
  | .object members => .object (mergedMembers members [])
  | j => j

def mergedItems : List Json → List Json
  | [] => []
  | j :: js => merged j :: mergedItems js

def mergedMembers : List (String × Json) → List (String × Json) → List (String × Json)
  | [], done => done
  | (name, j) :: ms, done => mergedMembers ms (setMember name (merged j) done)

end

end Json

end LedgerWatch
