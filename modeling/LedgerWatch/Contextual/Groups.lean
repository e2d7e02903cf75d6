import LedgerWatch.Detector
import LedgerWatch.Finding.Ranking
import LedgerWatch.Sorted
import LedgerWatch.Stats.Peers

namespace LedgerWatch.Contextual

structure Settings where
  zThreshold : Float := 3.0
  scoreScale : Float := 5.0
  /-- The expected range reaches this many standard deviations to both sides of the mean. -/
  rangeWidth : Float := 2.0

def Settings.check (c : Settings) : Except Fault Unit := do
  Fault.require (0 < c.zThreshold)
    (.ofNumber "contextual.z_threshold" c.zThreshold "must be positive")
  Fault.require (0 < c.scoreScale)
    (.ofNumber "contextual.score_scale" c.scoreScale "must be positive")

def key? : Grouping → Record → Option String
  | .category, r => r.merchantCategory?
  | .state, r => r.merchantState?
  | .type, r => r.transactionType?

def fields : Grouping → List String
  | .category => ["amount", "fraud_score"]
  | .state => ["amount"]
  | .type => ["amount"]

abbrev Member := Record × Nat

def readings (field : String) (members : List Member) : List (Nat × Float) :=
  members.filterMap fun (r, i) => (r.numeric? field).map fun x => (i, x)

/-- The score of a value against its baseline, if it stands out. -/
def Settings.fieldScore? (c : Settings) (field : String) (value : Float)
    (baseline : Option (Stats.Summary Float)) : Option FieldScore := do
  let baseline ← baseline
  let z ← baseline.zScore? value
  if c.zThreshold < z.abs then return ⟨field, value, z, baseline.range c.rangeWidth⟩ else none

def Settings.fieldScores (c : Settings) (members : List Member) (field : String) :
    List (Nat × FieldScore) :=
  let observed := readings field members
  match Stats.PeerStats.ofValues? (observed.map Prod.snd) with
  | none => []
  | some peers =>
    (observed.zip peers.baselines).filterMap fun ((i, x), baseline) =>
      (c.fieldScore? field x baseline).map fun s => (i, s)

/-- The largest z-score, without its sign. -/
def largest (scores : List FieldScore) : Float :=
  (scores.map fun s => s.zScore.abs).foldl Binary64.larger 0

def Settings.groupFindings (c : Settings) (bands : Bands) (grouping : Grouping)
    (group : String × List Member) : List Finding :=
  let scores := (fields grouping).flatMap (c.fieldScores group.2)
  group.2.filterMap fun (_, i) =>
    let own := (scores.filter fun p => p.1 == i).map Prod.snd
    if own.isEmpty then none
    else some (.of bands .contextual i (largest own / c.scoreScale)
      (.contextual grouping group.1 group.2.length own))

def groups (grouping : Grouping) (records : List Record) : List (String × List Member) :=
  Sorted.groupBy (fun m => key? grouping m.1) records.zipIdx

def Settings.groupingFindings (c : Settings) (bands : Bands) (records : List Record)
    (grouping : Grouping) : List Finding :=
  (groups grouping records).flatMap (c.groupFindings bands grouping)

def Settings.detect (c : Settings) (bands : Bands) (records : List Record) : Outcome :=
  match c.check with
  | .error fault => .failed fault
  | .ok () => .found (Ranking.firsts (Grouping.all.flatMap (c.groupingFindings bands records)))

def detector (c : Settings) (bands : Bands) : Detector := .ofMethod .contextual (c.detect bands)

end LedgerWatch.Contextual
