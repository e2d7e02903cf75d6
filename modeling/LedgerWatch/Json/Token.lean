import LedgerWatch.Json.Draft

namespace LedgerWatch.Json

/-- A token; a number or a text without a value is `none`. -/
inductive Token
  | openArray
  | closeArray
  | openObject
  | closeObject
  | comma
  | colon
  | null
  | bool (value : Bool)
  | number (value : Option Number)
  /-- A text: a value, or the name of a member. -/
  | text (value : Option String)

mutual

def tokens : Json → List Token
  | .array items => .openArray :: itemTokens items
  | .object members => .openObject :: memberTokens members
  | .string s => [.text (some s)]
  | .number n => [.number (some n)]
  | .bool b => [.bool b]
  | .null => [.null]

def itemTokens : List Json → List Token
  | [] => [.closeArray]
  | j :: js => tokens j ++ moreItemTokens js

def moreItemTokens : List Json → List Token
  | [] => [.closeArray]
  | j :: js => .comma :: tokens j ++ moreItemTokens js

def memberTokens : List (String × Json) → List Token
  | [] => [.closeObject]
  | (n, j) :: ms => .text (some n) :: .colon :: tokens j ++ moreMemberTokens ms

def moreMemberTokens : List (String × Json) → List Token
  | [] => [.closeObject]
  | (n, j) :: ms => .comma :: .text (some n) :: .colon :: tokens j ++ moreMemberTokens ms

end

namespace Draft

/-- An array or object that is still open, its finished parts last first. -/
inductive Frame
  | array (done : List Draft)
  | object (done : List (Option String × Draft)) (name : Option String)

inductive Partial
  | wantsValue (outer : List Frame)
  | wantsItem (outer : List Frame)
  | wantsMember (outer : List Frame)
  | wantsName (done : List (Option String × Draft)) (outer : List Frame)
  | wantsColon (done : List (Option String × Draft)) (name : Option String) (outer : List Frame)
  | finished (value : Draft) (outer : List Frame)

def Partial.start (outer : List Frame) : Token → Option Partial
  | .null => some (.finished .null outer)
  | .bool b => some (.finished (.bool b) outer)
  | .number n => some (.finished (.number n) outer)
  | .text s => some (.finished (.string s) outer)
  | .openArray => some (.wantsItem outer)
  | .openObject => some (.wantsMember outer)
  | _ => none

def Partial.step : Partial → Token → Option Partial
  | .wantsValue fs, t => start fs t
  | .wantsItem fs, .closeArray => some (.finished (.array []) fs)
  | .wantsItem fs, t => start (.array [] :: fs) t
  | .wantsMember fs, .closeObject => some (.finished (.object []) fs)
  | .wantsMember fs, .text n => some (.wantsColon [] n fs)
  | .wantsName done fs, .text n => some (.wantsColon done n fs)
  | .wantsColon done n fs, .colon => some (.wantsValue (.object done n :: fs))
  | .finished d (.array done :: fs), .comma => some (.wantsValue (.array (d :: done) :: fs))
  | .finished d (.array done :: fs), .closeArray =>
    some (.finished (.array (d :: done).reverse) fs)
  | .finished d (.object done n :: fs), .comma => some (.wantsName ((n, d) :: done) fs)
  | .finished d (.object done n :: fs), .closeObject =>
    some (.finished (.object ((n, d) :: done).reverse) fs)
  | _, _ => none

def Partial.draft? : Partial → Option Draft
  | .finished d [] => some d
  | _ => none

def ofTokens? (ts : List Token) : Option Draft :=
  (ts.foldlM Partial.step (.wantsValue [])).bind Partial.draft?

end Draft

end LedgerWatch.Json
