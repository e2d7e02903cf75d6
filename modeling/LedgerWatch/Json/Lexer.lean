import LedgerWatch.Json.Number
import LedgerWatch.Json.Token

/-!
Reading JSON texts. The lexer looks at each character once: `Scan.step` says what a character does
to the token under way and which tokens it finishes.
-/

namespace LedgerWatch.Json

/-- The token under way; collected characters stand last first. In a quoted text there are none
any more once half of a pair has come without its other half. -/
inductive Scan
  | blank
  | word (read : List Char)
  | literal (read : List Char)
  | quoted (read : Option (List Char))
  | escaped (read : Option (List Char))
  /-- `left` hexadecimal digits are still missing; `high` is the first half of a pair. -/
  | unicode (read : Option (List Char)) (high : Option Nat) (left : Nat) (code : Nat)
  | pairBackslash (read : Option (List Char)) (high : Nat)
  | pairLetter (read : Option (List Char)) (high : Nat)

def isSpace (c : Char) : Bool := c = ' ' || c = '\t' || c = '\n' || c = '\r'

def isLiteralChar (c : Char) : Bool :=
  c.isDigit || c = '-' || c = '+' || c = '.' || c = 'e' || c = 'E'

def hexValue? (c : Char) : Option Nat :=
  if c.isDigit then some (c.toNat - '0'.toNat)
  else if 'a' ≤ c ∧ c ≤ 'f' then some (c.toNat - 'a'.toNat + 10)
  else if 'A' ≤ c ∧ c ≤ 'F' then some (c.toNat - 'A'.toNat + 10)
  else none

/-- The character that a letter after a backslash stands for. -/
def unescape? : Char → Option Char
  | '"' => some '"'
  | '\\' => some '\\'
  | '/' => some '/'
  | 'b' => some '\x08'
  | 'f' => some '\x0c'
  | 'n' => some '\n'
  | 'r' => some '\r'
  | 't' => some '\t'
  | _ => none

def wordToken? (read : List Char) : Option Token :=
  match read.reverse with
  | ['n', 'u', 'l', 'l'] => some (.null)
  | ['t', 'r', 'u', 'e'] => some (.bool true)
  | ['f', 'a', 'l', 's', 'e'] => some (.bool false)
  | _ => none

def literalToken? (read : List Char) : Option Token :=
  (Literal.ofChars? read.reverse).map fun l => .number l.number?

def Scan.add (read : Option (List Char)) (c : Char) : Scan := .quoted (read.map (c :: ·))

/-- A code unit written with four hexadecimal digits: a character, or half of a pair. -/
def Scan.afterUnit (read : Option (List Char)) (high : Option Nat) (code : Nat) : Scan :=
  match high with
  | none =>
    if 0xD800 ≤ code ∧ code < 0xDC00 then .pairBackslash read code
    else if 0xDC00 ≤ code ∧ code < 0xE000 then .quoted none
    else add read (Char.ofNat code)
  | some high =>
    if 0xDC00 ≤ code ∧ code < 0xE000 then
      add read (Char.ofNat (0x10000 + (high - 0xD800) * 0x400 + (code - 0xDC00)))
    else .quoted none

def Scan.inQuotes (read : Option (List Char)) (c : Char) : Option (Scan × List Token) :=
  if c = '"' then some (.blank, [.text (read.map fun cs => String.ofList cs.reverse)])
  else if c = '\\' then some (.escaped read, [])
  else if c.toNat < 0x20 then none
  else some (add read c, [])

def Scan.afterBackslash (read : Option (List Char)) (c : Char) : Option (Scan × List Token) :=
  if c = 'u' then some (.unicode read none 4 0, [])
  else (unescape? c).map fun d => (add read d, [])

def Scan.fresh (c : Char) : Option (Scan × List Token) :=
  if isSpace c then some (.blank, [])
  else if c = '[' then some (.blank, [.openArray])
  else if c = ']' then some (.blank, [.closeArray])
  else if c = '\x7b' then some (.blank, [.openObject])
  else if c = '\x7d' then some (.blank, [.closeObject])
  else if c = ',' then some (.blank, [.comma])
  else if c = ':' then some (.blank, [.colon])
  else if c = '"' then some (.quoted (some []), [])
  else if c.isLower then some (.word [c], [])
  else if c = '-' ∨ c.isDigit then some (.literal [c], [])
  else none

/-- A finished token in front of what the next character brings. -/
def Scan.emit (t : Option Token) (next : Option (Scan × List Token)) :
    Option (Scan × List Token) :=
  match t, next with
  | some t, some (s, ts) => some (s, t :: ts)
  | _, _ => none

def Scan.step : Scan → Char → Option (Scan × List Token)
  | .blank, c => fresh c
  | .word read, c =>
    if c.isLower then some (.word (c :: read), []) else emit (wordToken? read) (fresh c)
  | .literal read, c =>
    if isLiteralChar c then some (.literal (c :: read), []) else emit (literalToken? read) (fresh c)
  | .quoted read, c => inQuotes read c
  | .escaped read, c => afterBackslash read c
  | .unicode read high left code, c =>
    (hexValue? c).map fun d =>
      if left ≤ 1 then (afterUnit read high (16 * code + d), [])
      else (.unicode read high (left - 1) (16 * code + d), [])
  | .pairBackslash read high, c =>
    if c = '\\' then some (.pairLetter read high, []) else inQuotes none c
  | .pairLetter read high, c =>
    if c = 'u' then some (.unicode read (some high) 4 0, []) else afterBackslash none c

def Scan.finish : Scan → Option (List Token)
  | .blank => some []
  | .word read => (wordToken? read).map ([·])
  | .literal read => (literalToken? read).map ([·])
  | _ => none

/-- The tokens of a text behind those already done, which stand last first. -/
def Scan.run (s : Scan) (done : List Token) : List Char → Option (List Token)
  | [] => s.finish.map (done.reverse ++ ·)
  | c :: cs =>
    match s.step c with
    | none => none
    | some (next, ts) => next.run (ts.reverse ++ done) cs

def lex? (s : List Char) : Option (List Token) := Scan.blank.run [] s

def Draft.read? (text : String) : Option Draft := (lex? text.toList).bind ofTokens?

def readWanted? (o : Outline) (text : String) : Option Json :=
  (Draft.read? text).bind (Draft.select? o maxDepth)

/-- The value written in a text, with repeated member names as they stand. -/
def read? (text : String) : Option Json := readWanted? .whole text

def readMerged? (text : String) : Option Json := (read? text).map merged

end LedgerWatch.Json
