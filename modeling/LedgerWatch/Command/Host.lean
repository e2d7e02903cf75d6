import LedgerWatch.Command.Detect

namespace LedgerWatch.Command

class Host (m : Type → Type) where
  read? (path : String) : m (Option String)
  /-- Makes a text the content of a file, and tells whether that was possible. -/
  write (path text : String) : m Bool
  print (text : String) : m Unit
  complain (text : String) : m Unit
  words : m Words
  now : m Nat
  freshSeed : m UInt64
  /-- Works out a value at its place among the other actions. -/
  workOut {α : Type} (make : Unit → α) : m α
  /-- The results of actions that do not wait for each other. -/
  sideBySide {α : Type} (actions : List (m α)) : m (List α)

def elapsedText (milliseconds : Float) : String := Decimal.fixed 1 milliseconds ++ "ms"

def milliseconds (start stop : Nat) : Float := Float.ofNat (stop - start) / 1000000

variable {m : Type → Type} [Monad m] [Host m]

def printLines (lines : List String) : m Unit := lines.forM fun line => Host.print (line ++ "\n")

/-- A result, and the milliseconds that it took. -/
def timed {α : Type} (make : Unit → α) : m (α × Float) := do
  let start ← Host.now
  let made ← Host.workOut make
  let stop ← Host.now
  return (made, milliseconds start stop)

def timedContributions (e : Ensemble.Engine) (records : List Record) :
    m (List (Ensemble.Contribution × Float)) :=
  let actions := e.detectors.map fun d => timed fun _ => Ensemble.contribution d records
  if e.settings.parallel then Host.sideBySide actions else actions.mapM id

def fail (failure : Failure) : m UInt32 := do
  Host.complain ("Error: " ++ failure.message (← Host.words) ++ "\n")
  return 1

/-- Writes a text to the file that is asked for, if one is, and shows some lines then. -/
def save (output : Option String) (text : String) (lines : List String) : m UInt32 := do
  match output with
  | none =>
    printLines lines
    return 0
  | some path =>
    if ← Host.write path text then
      printLines lines
      return 0
    else fail (.output path)

def Options.report (o : Options) (records : List Record) (engine : Ensemble.Engine)
    (loading : Float) : m UInt32 := do
  let start ← Host.now
  let contributions ← timedContributions engine records
  let stop ← Host.now
  let report := Ensemble.assemble engine.settings records (contributions.map Prod.fst)
  let elapsed := contributions.map Prod.snd
  let times : Times :=
    ⟨elapsedText loading, elapsedText (milliseconds start stop),
      elapsed.map fun time => Text.padStart 10 (elapsedText time)⟩
  let course := Course.finished records report
  printLines (course.opening o times)
  save o.output (report.toJson elapsed).pretty (course.closing o)

def Options.stop (o : Options) (course : Course) (loading : Float) : m UInt32 := do
  printLines (course.opening o ⟨elapsedText loading, "", []⟩)
  Host.print (course.broken?.getD "")
  match course.failure? with
  | none => return 0
  | some failure => fail failure

def Options.run (o : Options) : m UInt32 := do
  let data ← Host.read? o.data
  let (loaded, loading) ← timed fun _ => Batch.load? o.data data
  let config ← match o.config with
    | none => pure none
    | some path => Host.read? path
  match o.prepare ⟨data, config⟩ (← Host.freshSeed) loaded with
  | .error course => o.stop course loading
  | .ok (records, engine) => o.report records engine loading

def runConfig (output : Option String) : m UInt32 :=
  save output defaultSettings (configLines output)

end LedgerWatch.Command
