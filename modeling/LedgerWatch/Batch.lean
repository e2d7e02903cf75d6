import LedgerWatch.Json.Lexer
import LedgerWatch.Record.Basic

namespace LedgerWatch.Batch

inductive Format
  | array
  | lines
  deriving DecidableEq, Repr

inductive Failure
  | unreadable
  | malformed
  /-- A line, counted from one, that is not JSON. -/
  | line (number : Nat)
  | refused (fault : Fault)
  deriving DecidableEq, Repr

def cut (mark : Char) (s : List Char) : List (List Char) :=
  s.foldr (fun c pieces =>
    if c = mark then [] :: pieces
    else
      match pieces with
      | [] => [[c]]
      | piece :: rest => (c :: piece) :: rest) [[]]

theorem cut_cons (mark c : Char) (s : List Char) :
    cut mark (c :: s) =
      if c = mark then [] :: cut mark s
      else (c :: (cut mark s).headD []) :: (cut mark s).tail := by
  show (if c = mark then _ else match cut mark s with | [] => _ | piece :: rest => _) = _
  split
  · rfl
  · cases cut mark s <;> rfl

theorem cut_ne_nil (mark : Char) (s : List Char) : cut mark s ≠ [] := by
  cases s with
  | nil => simp [cut]
  | cons c s => rw [cut_cons]; split <;> simp

/-- Nothing is lost: the pieces with the mark between them are the text. -/
theorem intercalate_cut (mark : Char) (s : List Char) :
    [mark].intercalate (cut mark s) = s := by
  induction s with
  | nil => rfl
  | cons c s ih =>
    obtain ⟨piece, rest, h⟩ := List.exists_cons_of_ne_nil (cut_ne_nil mark s)
    rw [h] at ih
    rw [cut_cons, h]
    split
    · rename_i hc
      subst hc
      simpa using ih
    · cases rest <;> simp_all

/-- The last part of a path that names something. -/
def fileName? (path : List Char) : Option (List Char) :=
  ((cut '/' path).filter fun part => part ≠ [] ∧ part ≠ ['.']).getLast?.filter (· ≠ ['.', '.'])

/-- What follows the last point of a file name that does not begin with it. -/
def extension? (path : List Char) : Option (List Char) := do
  let name ← fileName? path
  let pieces := cut '.' name
  if pieces.length < 2 ∨ pieces.dropLast = [[]] then none else pieces.getLast?

def Format.ofPath (path : String) : Format :=
  if (extension? path.toList).map (List.map Char.toLower) = some "jsonl".toList then .lines
  else .array

def recordOfJson (j : Json) : Except Failure Record := (Record.ofJson? j).mapError .refused

def recordOfLine (line : List Char × Nat) : Except Failure Record :=
  match Json.readMerged? (String.ofList line.1) with
  | none => .error (.line line.2)
  | some j => recordOfJson j

/-- The lines that are not blank, with their numbers. -/
def numberedLines (content : List Char) : List (List Char × Nat) :=
  ((cut '\n' content).zipIdx 1).filter fun line => !line.1.all Text.isBlank

/-- The records on the lines of a text; the first bad line is the one reported. -/
def ofLines? (content : String) : Except Failure (List Record) :=
  (numberedLines content.toList).mapM recordOfLine

def ofArray? (content : String) : Except Failure (List Record) :=
  match Json.readMerged? content with
  | none => .error .malformed
  | some j => (Record.listOfJson? j).mapError .refused

def Format.read? : Format → String → Except Failure (List Record)
  | .array => ofArray?
  | .lines => ofLines?

def load? (path : String) : Option String → Except Failure (List Record)
  | none => .error .unreadable
  | some content => (Format.ofPath path).read? content

end LedgerWatch.Batch
