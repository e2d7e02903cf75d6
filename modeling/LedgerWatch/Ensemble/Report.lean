import LedgerWatch.Ensemble.Settings
import LedgerWatch.Finding.Json

namespace LedgerWatch.Ensemble

inductive Status
  | ok
  | failed (reason : String)
  deriving DecidableEq, Repr

namespace Status

def isFailed : Status → Bool
  | .ok => false
  | .failed _ => true

def toJson : Status → Json
  | .ok => .object [("status", .string "ok")]
  | .failed reason => .object [("status", .string "failed"), ("reason", .string reason)]

end Status

structure Run where
  detector : String
  method : Method
  status : Status
  findings : Nat

structure Summary where
  anomalies : Nat
  records : Nat
  flagged : Nat
  bySeverity : List (Severity × Nat)
  byMethod : List (Method × Nat)
  byCategory : List (String × Nat)

/-- The category of a record that names none. -/
def unknownCategory : String := "unknown"

def recordOf? (records : Array Record) (f : Finding) : Option Record := records[f.record]?

def categoryOf (records : Array Record) (f : Finding) : String :=
  ((recordOf? records f).bind Record.merchantCategory?).getD unknownCategory

namespace Summary

def of (records : List Record) (findings : List Finding) : Summary :=
  let batch := records.toArray
  { anomalies := findings.length
    records := records.length
    flagged := (Sorted.distinct (findings.map Finding.record)).length
    bySeverity := Sorted.countAmong Severity.all (findings.map Finding.severity)
    byMethod := Sorted.countAmong Method.all (findings.map Finding.method)
    byCategory := Sorted.count (findings.map (categoryOf batch)) }

/-- The share of records with a finding; zero for an empty batch. -/
def rate (s : Summary) : Float :=
  if s.records = 0 then 0 else Float.ofNat s.flagged / Float.ofNat s.records

def toJson (s : Summary) : Json :=
  .object [("totalAnomalies", .ofNat s.anomalies), ("totalRecords", .ofNat s.records),
    ("flaggedRecords", .ofNat s.flagged),
    ("severityDistribution", .object (s.bySeverity.map fun p => (p.1.name, .ofNat p.2))),
    ("methodDistribution", .object (s.byMethod.map fun p => (p.1.name, .ofNat p.2))),
    ("categoryDistribution", .object (s.byCategory.map fun p => (p.1, .ofNat p.2))),
    ("detectionRate", .ofFloat s.rate)]

end Summary

inductive Pattern
  | highValue (limit : Float) (count : Nat)
  | geographic (state : String) (count : Nat)
  | temporal (count : Nat)

namespace Pattern

def kind : Pattern → String
  | .highValue .. => "high_value"
  | .geographic .. => "geographic_clustering"
  | .temporal _ => "temporal_clustering"

def count : Pattern → Nat
  | .highValue _ n => n
  | .geographic _ n => n
  | .temporal n => n

def key? : Pattern → Option String
  | .geographic state _ => some state
  | _ => none

def description : Pattern → String
  | .highValue limit n =>
    toString n ++ " anomalies involve amounts above " ++ Decimal.fixed 2 limit
  | .geographic state n => toString n ++ " anomalies concentrated in merchant state " ++ state
  | .temporal n => toString n ++ " anomalies flagged by temporal analysis"

def toJson (p : Pattern) : Json :=
  .object ([("kind", .string p.kind), ("description", .string p.description),
    ("count", .ofNat p.count)] ++ (p.key?.toList.map fun k => ("key", .string k)))

end Pattern

namespace PatternSettings

def isHighValue (c : PatternSettings) (batch : Array Record) (f : Finding) : Bool :=
  match (recordOf? batch f).bind Record.amount? with
  | none => false
  | some amount => c.highValue < amount

def states (batch : Array Record) (findings : List Finding) : List (String × Nat) :=
  Sorted.count (findings.filterMap fun f => (recordOf? batch f).bind Record.merchantState?)

def patterns (c : PatternSettings) (records : List Record) (findings : List Finding) :
    List Pattern :=
  let batch := records.toArray
  let high := findings.countP (c.isHighValue batch)
  let byDate := findings.countP fun f => f.method == .temporal
  let crowded := (states batch findings).filter fun s => c.geographicMin.toNat < s.2
  (if 0 < high then [.highValue c.highValue high] else []) ++
    crowded.map (fun s => .geographic s.1 s.2) ++
    if c.temporalMin.toNat < byDate then [.temporal byDate] else []

end PatternSettings

structure Report where
  anomalies : List Finding
  summary : Summary
  patterns : List Pattern
  runs : List Run

namespace Report

def isEmpty (r : Report) : Bool := r.anomalies.isEmpty

def failedRuns (r : Report) : List Run := r.runs.filter fun run => run.status.isFailed

/-- The report with the time that each run took, in milliseconds. -/
def toJson (r : Report) (elapsed : List Float) : Json :=
  let run (p : Run × Float) : Json :=
    .object [("detector", .string p.1.detector), ("method", .string p.1.method.name),
      ("status", p.1.status.toJson), ("findings", .ofNat p.1.findings),
      ("elapsed_ms", .ofFloat p.2)]
  .object [("anomalies", .array (r.anomalies.map Finding.toJson)),
    ("summary", r.summary.toJson), ("patterns", .array (r.patterns.map Pattern.toJson)),
    ("detector_runs", .array ((r.runs.zip elapsed).map run))]

end Report

end LedgerWatch.Ensemble
