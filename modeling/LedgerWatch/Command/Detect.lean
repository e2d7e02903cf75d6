import LedgerWatch.Batch
import LedgerWatch.Command.Arguments
import LedgerWatch.Command.Display
import LedgerWatch.Ensemble.Engine

namespace LedgerWatch.Command

/-- What the disk holds: the content of the records file, and that of the settings file where one
is asked for. -/
structure Files where
  data : Option String
  config : Option String

/-- What files and texts get in the way of. -/
inductive Trouble
  | unreadable (path : String)
  | unwritable (path : String)
  | notJson (path : String)
  | badLine (path : String) (number : Nat)
  | notSettings (path : String)
  deriving DecidableEq, Repr

/-- The words of the system, or of the reader of JSON, for what is wrong. -/
abbrev Words := Trouble → String

inductive Failure
  | records (path : String) (failure : Batch.Failure)
  | settings (path : String) (failure : Ensemble.Settings.Failure)
  | engine (fault : Fault)
  | output (path : String)
  deriving DecidableEq, Repr

def Failure.message (words : Words) : Failure → String
  | .records path .unreadable => "cannot read " ++ path ++ ": " ++ words (.unreadable path)
  | .records path .malformed => words (.notJson path)
  | .records path (.line number) =>
    "line " ++ toString number ++ ": " ++ words (.badLine path number)
  | .records _ (.refused fault) => fault.message
  | .settings path .unreadable =>
    (Fault.configuration ("cannot read " ++ path ++ ": " ++ words (.unreadable path))).message
  | .settings path .malformed => (Fault.serialization (words (.notSettings path))).message
  | .settings _ (.refused fault) => fault.message
  | .engine fault => fault.message
  | .output path => words (.unwritable path)

/-- How far a run of the detectors came. -/
inductive Course
  | notLoaded (failure : Failure)
  | notConfigured (records : List Record) (failure : Failure)
  | notStarted (records : List Record) (failure : Failure)
  | finished (records : List Record) (report : Ensemble.Report)

namespace Options

def records? (o : Options) (files : Files) : Except Batch.Failure (List Record) :=
  Batch.load? o.data files.data

def baseSettings? (o : Options) (files : Files) : Except Failure Ensemble.Settings :=
  match o.config with
  | none => .ok {}
  | some path => (Ensemble.Settings.ofFileContent? files.config).mapError (.settings path)

def withSeed (o : Options) (c : Ensemble.Settings) : Ensemble.Settings :=
  match o.seed with
  | none => c
  | some seed => c.withSeed seed

def withOrder (o : Options) (c : Ensemble.Settings) : Ensemble.Settings :=
  if o.sequential then { c with parallel := false } else c

def settings? (o : Options) (files : Files) : Except Failure Ensemble.Settings :=
  (o.baseSettings? files).map fun c => o.withOrder (o.withSeed c)

/-- The records and the engine that is to look at them, or the step that fails before. `entropy`
is the seed where neither the arguments nor the settings have one. -/
def prepare (o : Options) (files : Files) (entropy : UInt64)
    (loaded : Except Batch.Failure (List Record)) : Except Course (List Record × Ensemble.Engine) :=
  match loaded with
  | .error failure => .error (.notLoaded (.records o.data failure))
  | .ok records =>
    match o.settings? files with
    | .error failure => .error (.notConfigured records failure)
    | .ok settings =>
      match Ensemble.Engine.ofSettings? settings entropy with
      | .error fault => .error (.notStarted records (.engine fault))
      | .ok engine => .ok (records, engine)

def course (o : Options) (files : Files) (entropy : UInt64) : Course :=
  match o.prepare files entropy (o.records? files) with
  | .error course => course
  | .ok (records, engine) => .finished records (engine.run records)

end Options

structure Times where
  loading : String
  running : String
  runs : List String

def loadingStep : String := "  › Loading records... "

def runningStep : String := "  › Running detectors... "

def loadedLine (records : List Record) (times : Times) : String :=
  loadingStep ++ "done " ++ toString records.length ++ " records in " ++ times.loading

def writtenLines (o : Options) : List String :=
  match o.output with
  | none => []
  | some path => ["", "  ✓ report written to " ++ path]

namespace Course

def failure? : Course → Option Failure
  | notLoaded failure => some failure
  | notConfigured _ failure => some failure
  | notStarted _ failure => some failure
  | finished _ _ => none

def report? : Course → Option Ensemble.Report
  | finished _ report => some report
  | _ => none

/-- The lines shown before the report is written. -/
def opening (o : Options) (times : Times) (course : Course) : List String :=
  sectionLines "Anomaly Detection" ++
    match course with
    | notLoaded _ => []
    | notConfigured records _ => [loadedLine records times]
    | notStarted records _ => [loadedLine records times]
    | finished records report =>
      [loadedLine records times, runningStep ++ "done " ++ times.running] ++
        reportLines o.top.toNat report times.runs

/-- A step that is announced and then fails leaves its line open. -/
def broken? : Course → Option String
  | notLoaded _ => some loadingStep
  | notStarted _ _ => some runningStep
  | _ => none

/-- The lines shown once the report is written. -/
def closing (o : Options) : Course → List String
  | finished _ _ => writtenLines o ++ [""]
  | _ => []

def lines (o : Options) (times : Times) (course : Course) : List String :=
  course.opening o times ++ course.broken?.toList ++ course.closing o

end Course

def defaultSettings : String := ({} : Ensemble.Settings).write

def configLines : Option String → List String
  | none => [defaultSettings]
  | some path => ["  ✓ default configuration written to " ++ path]

end LedgerWatch.Command
