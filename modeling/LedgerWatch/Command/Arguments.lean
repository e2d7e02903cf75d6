import LedgerWatch.Number.Reading

/-!
The arguments of the command line. An option takes its value from the same argument, behind an
equals sign or right behind its letter, or from the next one; it is settled only when the next
option comes or the arguments end, so that an unknown argument is refused before a bad value.
-/

namespace LedgerWatch.Command

structure Options where
  data : String
  config : Option String := none
  output : Option String := none
  seed : Option UInt64 := none
  sequential : Bool := false
  top : UInt64 := 10
  deriving DecidableEq, Repr

inductive Action
  | detect (options : Options)
  | config (output : Option String)
  deriving DecidableEq, Repr

/-- Why the arguments do not name a command to run. -/
inductive Refusal
  | help
  | version
  | missingCommand
  | unknownCommand
  | unknownArgument
  | missingArgument
  | missingValue
  | badNumber
  | repeated
  | unexpectedValue
  deriving DecidableEq, Repr

inductive Key
  | data
  | config
  | output
  | seed
  | top
  | sequential
  | help
  | version
  deriving DecidableEq, Repr

def Key.takesValue : Key → Bool
  | .sequential => false
  | .help => false
  | .version => false
  | _ => true

/-- The keys that a command knows, by their long name and their letter. -/
abbrev Grammar := List (Key × String × Option Char)

namespace Grammar

def top : Grammar := [(.help, "help", some 'h'), (.version, "version", some 'V')]

def detect : Grammar :=
  [(.data, "data", some 'd'), (.config, "config", some 'c'), (.output, "output", some 'o'),
    (.seed, "seed", none), (.sequential, "sequential", none), (.top, "top", none),
    (.help, "help", some 'h')]

def config : Grammar := [(.output, "output", some 'o'), (.help, "help", some 'h')]

def long? (g : Grammar) (name : List Char) : Option Key :=
  (g.find? fun k => k.2.1.toList = name).map Prod.fst

def letter? (g : Grammar) (c : Char) : Option Key :=
  (g.find? fun k => k.2.2 = some c).map Prod.fst

end Grammar

/-- An argument by its form. A lone hyphen is a plain one. -/
inductive Word
  | escape
  | long (name : List Char) (value : Option (List Char))
  | letters (c : Char) (rest : List Char)
  | plain (text : List Char)
  deriving DecidableEq, Repr

def attached? : List Char → Option (List Char)
  | [] => none
  | '=' :: rest => some rest
  | _ :: cs => attached? cs

def Word.of : List Char → Word
  | ['-', '-'] => .escape
  | '-' :: '-' :: rest => .long (rest.takeWhile (· ≠ '=')) (attached? rest)
  | '-' :: c :: rest => .letters c rest
  | text => .plain text

structure Settled where
  data : Option String := none
  config : Option String := none
  output : Option String := none
  seed : Option UInt64 := none
  top : Option UInt64 := none
  sequential : Bool := false

def path? (text : List Char) : Except Refusal String :=
  if text = [] then .error .missingValue else .ok (String.ofList text)

def number? (text : List Char) : Except Refusal UInt64 :=
  match Decimal.word64? text with
  | none => .error .badNumber
  | some n => .ok n

def once {α : Type} (old : Option α) (read : Except Refusal α) : Except Refusal (Option α) :=
  if old.isSome then .error .repeated else read.map some

namespace Settled

def setValue (s : Settled) (text : List Char) : Key → Except Refusal Settled
  | .data => (once s.data (path? text)).map fun v => { s with data := v }
  | .config => (once s.config (path? text)).map fun v => { s with config := v }
  | .output => (once s.output (path? text)).map fun v => { s with output := v }
  | .seed => (once s.seed (number? text)).map fun v => { s with seed := v }
  | .top => (once s.top (number? text)).map fun v => { s with top := v }
  | _ => .error .unexpectedValue

def setFlag (s : Settled) : Key → Except Refusal Settled
  | .sequential => if s.sequential then .error .repeated else .ok { s with sequential := true }
  | .help => .error .help
  | .version => .error .version
  | _ => .error .missingValue

end Settled

structure Progress where
  settled : Settled := {}
  /-- The option whose turn it is, with its value once that has come. -/
  pending : Option (Key × Option (List Char)) := none
  /-- Whether only plain arguments may follow. -/
  escaped : Bool := false

namespace Progress

def settle (p : Progress) : Except Refusal Settled :=
  match p.pending with
  | none => .ok p.settled
  | some (_, none) => .error .missingValue
  | some (key, some text) => p.settled.setValue text key

def give (p : Progress) (key : Key) (text : List Char) : Except Refusal Progress := do
  return { settled := ← (← p.settle).setValue text key }

def await (p : Progress) (key : Key) : Except Refusal Progress := do
  return { settled := ← p.settle, pending := some (key, none) }

def flag (p : Progress) (key : Key) : Except Refusal Progress := do
  return { settled := ← (← p.settle).setFlag key }

def long (g : Grammar) (p : Progress) (name : List Char) (value : Option (List Char)) :
    Except Refusal Progress :=
  match g.long? name, value with
  | none, _ => .error .unknownArgument
  | some key, none => if key.takesValue then p.await key else p.flag key
  | some key, some text => if key.takesValue then p.give key text else .error .unexpectedValue

/-- Letters behind one hyphen. What follows the letter of an option is its value. -/
def letters (g : Grammar) : Progress → Char → List Char → Except Refusal Progress
  | p, c, [] =>
    match g.letter? c with
    | none => .error .unknownArgument
    | some key => if key.takesValue then p.await key else p.flag key
  | p, c, d :: rest =>
    match g.letter? c with
    | none => .error .unknownArgument
    | some key =>
      if key.takesValue then p.give key (if d = '=' then rest else d :: rest)
      else do letters g (← p.flag key) d rest

def plain (p : Progress) (text : List Char) : Except Refusal Progress :=
  match p.pending with
  | some (key, none) => .ok { p with pending := some (key, some text) }
  | _ => .error .unknownArgument

def step (g : Grammar) (p : Progress) (arg : String) : Except Refusal Progress :=
  if p.escaped then .error .unknownArgument
  else
    match Word.of arg.toList with
    | .escape => .ok { p with escaped := true }
    | .long name value => p.long g name value
    | .letters c rest => letters g p c rest
    | .plain text => p.plain text

end Progress

def settled? (g : Grammar) (args : List String) : Except Refusal Settled := do
  (← args.foldlM (Progress.step g) {}).settle

def Settled.options? (s : Settled) : Except Refusal Options :=
  match s.data with
  | none => .error .missingArgument
  | some data => .ok { data, config := s.config, output := s.output, seed := s.seed,
                       sequential := s.sequential, top := s.top.getD 10 }

def commandNames : List String := ["detect", "config", "help"]

def helpOn : List String → Refusal
  | [] => .help
  | [name] => if commandNames.contains name then .help else .unknownCommand
  | _ => .unknownCommand

def withoutCommand (arg : String) (rest : List String) : Refusal :=
  match Word.of arg.toList with
  | .plain _ => .unknownCommand
  | .escape =>
    match rest with
    | [] => .missingCommand
    | name :: _ => if commandNames.contains name then .unknownArgument else .unknownCommand
  | _ =>
    match Progress.step .top {} arg with
    | .error refusal => refusal
    | .ok _ => .missingCommand

def Action.ofArguments? : List String → Except Refusal Action
  | [] => .error .missingCommand
  | arg :: rest =>
    if arg = "detect" then do return .detect (← (← settled? .detect rest).options?)
    else if arg = "config" then do return .config (← settled? .config rest).output
    else if arg = "help" then .error (helpOn rest)
    else .error (withoutCommand arg rest)

end LedgerWatch.Command
