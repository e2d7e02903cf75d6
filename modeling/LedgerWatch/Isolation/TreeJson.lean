import LedgerWatch.Isolation.Tree
import LedgerWatch.Json.Decode
import LedgerWatch.Json.Draft

namespace LedgerWatch.Isolation.Tree

def toJson : Tree → Json
  | leaf size => .object [("Leaf", .object [("size", .ofNat size)])]
  | split feature value left right =>
    .object [("Internal", .object [("feature", .ofNat feature), ("split_value", .ofFloat value),
      ("left", left.toJson), ("right", right.toJson)])]

def splitFields : List String := ["feature", "split_value", "left", "right"]

def read? : Nat → Json → Option Tree
  | 0, _ => none
  | depth + 1, .object [(kind, .object members)] =>
    if kind = "Leaf" then do
      let fs ← (Json.object members).fields? ["size"]
      return .leaf (← fs.required "size" Json.nat?)
    else if kind = "Internal" then do
      let fs ← (Json.object members).fields? splitFields
      return .split (← fs.required "feature" Json.nat?) (← fs.required "split_value" Json.float?)
        (← fs.required "left" (read? depth)) (← fs.required "right" (read? depth))
    else none
  | _, _ => none

def ofJson? (j : Json) : Option Tree := read? Json.maxDepth j

end LedgerWatch.Isolation.Tree
