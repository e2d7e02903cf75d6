import LedgerWatch.Json.Number
import LedgerWatch.Json.Token

namespace LedgerWatch.Json

def hexDigit (n : Nat) : Char := Char.ofNat (if n < 10 then 48 + n else 87 + n)

def escape (c : Char) : List Char :=
  if c = '"' then ['\\', '"']
  else if c = '\\' then ['\\', '\\']
  else if c = '\x08' then ['\\', 'b']
  else if c = '\t' then ['\\', 't']
  else if c = '\n' then ['\\', 'n']
  else if c = '\x0c' then ['\\', 'f']
  else if c = '\r' then ['\\', 'r']
  else if c.toNat < 0x20 then
    ['\\', 'u', '0', '0', hexDigit (c.toNat / 16), hexDigit (c.toNat % 16)]
  else [c]

def quoted (s : String) : List Char := '"' :: s.toList.flatMap escape ++ ['"']

def Token.write : Token → List Char
  | .openArray => ['[']
  | .closeArray => [']']
  | .openObject => ['\x7b']
  | .closeObject => ['\x7d']
  | .comma => [',']
  | .colon => [':']
  | .null => "null".toList
  | .bool b => (if b then "true" else "false").toList
  | .number n => (n.elim "" Number.write).toList
  | .text s => s.elim [] quoted

def compact (j : Json) : String := String.ofList ((tokens j).flatMap Token.write)

def newline (depth : Nat) : List Char := '\n' :: List.replicate (2 * depth) ' '

def Token.opens : Token → Bool
  | .openArray => true
  | .openObject => true
  | _ => false

def Token.closes : Token → Bool
  | .closeArray => true
  | .closeObject => true
  | _ => false

/-- What stands between two tokens: a line break behind an opening bracket or a comma and in front
of a closing bracket, and a blank behind a colon. Empty arrays and objects stay on their line. -/
def gap (depth : Nat) : Option Token → Token → List Char
  | some .openArray, .closeArray => []
  | some .openObject, .closeObject => []
  | some .colon, _ => [' ']
  | last, t =>
    if t.closes || last.any (fun u => u.opens || u matches .comma) then newline depth else []

/-- A text under way: how many brackets are open, the last token, and the pieces written so far,
the last one first. -/
structure Layout where
  depth : Nat
  last : Option Token
  pieces : List (List Char)

def Layout.add (l : Layout) (t : Token) : Layout :=
  let depth := if t.closes then l.depth - 1 else l.depth
  { depth := if t.opens then depth + 1 else depth
    last := some t
    pieces := t.write :: gap depth l.last t :: l.pieces }

def pretty (j : Json) : String :=
  String.ofList ((tokens j).foldl Layout.add ⟨0, none, []⟩).pieces.reverse.flatten

end LedgerWatch.Json
