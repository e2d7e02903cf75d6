import LedgerWatch.Json.Value

/-!
What a JSON text spells, before any of it is valued. A number may be too large for a double, a text
may hold half of a surrogate pair, and brackets may be nested to any depth. An outline says what is
wanted of a draft; `select?` gives the value of that, and the rest only has to be spelled well.
-/

namespace LedgerWatch.Json

/-- A number or a text without a value is `none`. -/
inductive Draft
  | null
  | bool (value : Bool)
  | number (value : Option Number)
  | string (value : Option String)
  | array (items : List Draft)
  | object (members : List (Option String × Draft))

/-- What is wanted of a value: all of it, or the members with known names. An array stands for the
known members in their order. -/
inductive Outline
  | whole
  | members (known : List (String × Outline))

namespace Outline

def ofNames (names : List String) : Outline := members (names.map fun n => (n, whole))

def item : Outline → Nat → Outline
  | whole, _ => whole
  | members known, i => (known[i]?).elim whole Prod.snd

def member? : Outline → String → Option Outline
  | whole, _ => some whole
  | members known, name => known.lookup name

end Outline

/-- How many arrays and objects may be open at once. -/
def maxDepth : Nat := 127

namespace Draft

mutual

/-- The value of what is wanted, with room for so many open arrays and objects. -/
def select? (o : Outline) (room : Nat) : Draft → Option Json
  | null => some .null
  | bool b => some (.bool b)
  | number n => n.map .number
  | string s => s.map .string
  | array items =>
    match room with
    | 0 => none
    | room + 1 => (selectItems? o room 0 items).map .array
  | object members =>
    match room with
    | 0 => none
    | room + 1 => (selectMembers? o room members).map .object

def selectItems? (o : Outline) (room i : Nat) : List Draft → Option (List Json)
  | [] => some []
  | d :: ds => do
    let j ← select? (o.item i) room d
    let js ← selectItems? o room (i + 1) ds
    return j :: js

/-- The wanted members. The name of a member has a value, whether the member is wanted or not. -/
def selectMembers? (o : Outline) (room : Nat) :
    List (Option String × Draft) → Option (List (String × Json))
  | [] => some []
  | (none, _) :: _ => none
  | (some name, d) :: ms =>
    match o.member? name with
    | none => selectMembers? o room ms
    | some wanted => do
      let j ← select? wanted room d
      let js ← selectMembers? o room ms
      return (name, j) :: js

end

end Draft

end LedgerWatch.Json
