import LedgerWatch.Ensemble.Report

namespace LedgerWatch.Command

open Ensemble (Report Run Status Pattern)

def rule : String := String.ofList (List.replicate 56 '─')

def sectionLines (title : String) : List String := ["", "  " ++ title, "  " ++ rule]

/-- Columns with one blank between them, indented by two. -/
def columns (parts : List String) : String := "  " ++ " ".intercalate parts

def entry (label value : String) : String := columns [Text.padEnd 18 label, value]

def percent (share : Float) : String := Decimal.fixed 2 (share * 100) ++ "%"

def summaryLines (s : Ensemble.Summary) : List String :=
  sectionLines "Summary" ++
    [entry "Records" (toString s.records), entry "Anomalies" (toString s.anomalies),
      entry "Flagged records" (toString s.flagged), entry "Detection rate" (percent s.rate), ""] ++
    s.bySeverity.map fun p => entry p.1.name (toString p.2)

def statusText : Status → String
  | .ok => "ok"
  | .failed reason => "failed: " ++ reason

def runLine (run : Run × String) : String :=
  columns [Text.padEnd 22 run.1.detector, Text.padStart 6 (toString run.1.findings), run.2,
    " " ++ statusText run.1.status]

def runLines (runs : List (Run × String)) : List String :=
  sectionLines "Detectors" ++ runs.map runLine

def findingColumns (record method severity score : String) : String :=
  columns [Text.padEnd 6 record, Text.padEnd 22 method, Text.padEnd 10 severity,
    Text.padStart 8 score]

def findingLine (f : Finding) : String :=
  findingColumns (toString f.record) f.method.name f.severity.name (Decimal.fixed 3 f.score)

def findingLines (top : Nat) (findings : List Finding) : List String :=
  if findings.isEmpty then []
  else
    let shown := findings.take top
    sectionLines ("Top " ++ toString shown.length ++ " findings") ++
      findingColumns "Record" "Method" "Severity" "Score" :: shown.map findingLine

def patternLines (patterns : List Pattern) : List String :=
  if patterns.isEmpty then []
  else sectionLines "Patterns" ++ patterns.map fun p => "  • " ++ p.description

def reportLines (top : Nat) (r : Report) (times : List String) : List String :=
  summaryLines r.summary ++ runLines (r.runs.zip times) ++ findingLines top r.anomalies ++
    patternLines r.patterns

end LedgerWatch.Command
