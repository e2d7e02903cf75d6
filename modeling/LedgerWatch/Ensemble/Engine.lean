import LedgerWatch.Ensemble.Report
import LedgerWatch.Ensemble.SettingsJson
import LedgerWatch.Text.Quoted

namespace LedgerWatch.Ensemble

structure Engine where
  settings : Settings
  detectors : List Detector

/-- The findings of a detector that lie in the batch, and how it fared. -/
structure Contribution where
  findings : List Finding
  run : Run

def Contribution.failed (d : Detector) (reason : String) : Contribution :=
  ⟨[], d.name, d.method, .failed reason, 0⟩

def inBatch (records : List Record) (fs : List Finding) : List Finding :=
  fs.filter fun f => f.record < records.length

def contribution (d : Detector) (records : List Record) : Contribution :=
  match d.detect records with
  | .found fs =>
    let inside := inBatch records fs
    ⟨inside, d.name, d.method, .ok, inside.length⟩
  | .failed fault => .failed d fault.message
  | .crashed crash => .failed d crash.message

/-- The contributions of the detectors in their order, made one after another or side by side. -/
def contributions (parallel : Bool) (ds : List Detector) (records : List Record) :
    List Contribution :=
  if parallel then
    (ds.map fun d => Task.spawn fun _ => contribution d records).map Task.get
  else ds.map fun d => contribution d records

/-- What is contributed does not depend on whether the detectors run side by side. -/
theorem contributions_eq (parallel : Bool) (ds : List Detector) (records : List Record) :
    contributions parallel ds records = ds.map fun d => contribution d records := by
  unfold contributions
  split
  · rw [List.map_map]; rfl
  · rfl

def assemble (settings : Settings) (records : List Record) (cs : List Contribution) : Report :=
  let anomalies := Ranking.rank (cs.flatMap Contribution.findings)
  { anomalies
    summary := .of records anomalies
    patterns := settings.patterns.patterns records anomalies
    runs := cs.map Contribution.run }

namespace Engine

def ofSettings? (c : Settings) (entropy : UInt64) : Except Fault Engine := do
  c.check
  return ⟨c, c.detectors entropy⟩

/-- Adds a detector behind the others. -/
def register (e : Engine) (d : Detector) : Engine := { e with detectors := e.detectors ++ [d] }

def names (e : Engine) : List String := e.detectors.map Detector.name

/-- The names in quotation marks, as a list. -/
def listing (e : Engine) : String := "[" ++ ", ".intercalate (e.names.map Text.quoted) ++ "]"

def run (e : Engine) (records : List Record) : Report :=
  assemble e.settings records (contributions e.settings.parallel e.detectors records)

end Engine

end LedgerWatch.Ensemble
