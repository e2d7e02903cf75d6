import LedgerWatch.Finding.Basic
import LedgerWatch.Record.Features

namespace LedgerWatch

/-- What is left of a crash: its text, if it had one. -/
inductive Crash
  | text (message : String)
  | unknown
  deriving DecidableEq, Repr

def Crash.message : Crash → String
  | .text message => "panic: " ++ message
  | .unknown => "panic: unknown payload"

/-- A position outside of a table or a list was asked for. -/
def Crash.outOfBounds : Crash := .text "index out of bounds"

/-- A list was asked for that is longer than any. -/
def Crash.overCapacity : Crash := .text "capacity overflow"

/-- What a look-up finds; without it there is a crash. -/
def Crash.unlessFound {α : Type} : Option α → Except Crash α
  | none => .error .outOfBounds
  | some x => .ok x

theorem Crash.unlessFound_eq_ok {α : Type} {found : Option α} {x : α} :
    Crash.unlessFound found = .ok x ↔ found = some x := by
  cases found <;> simp [Crash.unlessFound]

inductive Outcome
  | found (findings : List Finding)
  | failed (fault : Fault)
  | crashed (crash : Crash)

structure Detector where
  method : Method
  name : String
  detect : List Record → Outcome

namespace Detector

def ofMethod (method : Method) (detect : List Record → Outcome) : Detector :=
  ⟨method, method.name, detect⟩

end Detector

namespace Fault

def ofCount (name : String) (value : UInt64) (reason : String) : Fault :=
  .invalidParameter name (toString value.toNat) reason

def ofNumber (name : String) (value : Float) (reason : String) : Fault :=
  .invalidParameter name (Decimal.Style.plain.write value) reason

/-- Accepts what meets a condition and refuses anything else. -/
def require (condition : Bool) (fault : Fault) : Except Fault Unit :=
  if condition then .ok () else .error fault

end Fault

end LedgerWatch
