import LedgerWatch.Detector
import LedgerWatch.Finding.Ranking
import LedgerWatch.Sorted
import LedgerWatch.Stats.Peers
import LedgerWatch.Stats.Line

namespace LedgerWatch.Temporal

structure Settings where
  /-- How many amounts before a record form its window. -/
  window : UInt64 := 100
  zThreshold : Float := 3.0
  /-- A residual counts from this many standard deviations on. -/
  trendSigma : Float := 2.0
  /-- A z-score of this size has score one. -/
  scoreScale : Float := 5.0
  /-- The expected range reaches this many standard deviations to both sides of the mean. -/
  rangeWidth : Float := 2.0

def Settings.check (c : Settings) : Except Fault Unit := do
  Fault.require (2 ≤ c.window) (.ofCount "temporal.window_size" c.window "must be at least 2")
  let write := Decimal.Style.plain.write
  Fault.require (0 < c.zThreshold && 0 < c.trendSigma && 0 < c.scoreScale)
    (.invalidParameter "temporal"
      ("z=" ++ write c.zThreshold ++ " sigma=" ++ write c.trendSigma ++ " scale=" ++
        write c.scoreScale)
      "thresholds must be positive")

/-- A record with a date and an amount. -/
structure Point where
  record : Nat
  date : Moment
  amount : Float

def point? (m : Record × Nat) : Option Point := do
  return ⟨m.2, ← m.1.transactionDate?, ← m.1.amount?⟩

/-- The dated records from the earliest to the latest; those of one date keep their order. -/
def series (records : List Record) : List Point :=
  (records.zipIdx.filterMap point?).mergeSort fun p q => p.date.rank ≤ q.date.rank

def Settings.finding (c : Settings) (bands : Bands) (p : Point) (z : Float) (evidence : Evidence) :
    Finding :=
  .of bands .temporal p.record (z.abs / c.scoreScale) evidence

def Settings.rolling? (c : Settings) (bands : Bands) (window : List Point) (p : Point) :
    Option Finding := do
  let stats ← Stats.summarize? (window.map Point.amount)
  let z ← stats.zScore? p.amount
  if c.zThreshold < z.abs then
    return c.finding bands p z (.rolling stats.mean stats.std z (.of z))
  else none

/-- The windows of a series: so many points in a row, each with the point that follows them. -/
def windows (w : Nat) (points : List Point) : List (List Point × Point) :=
  (points.drop w).zipIdx.map fun (p, start) => ((points.drop start).take w, p)

def Settings.rolling (c : Settings) (bands : Bands) (points : List Point) : List Finding :=
  (windows c.window.toNat points).filterMap fun (window, p) => c.rolling? bands window p

def Settings.seasonal? (c : Settings) (bands : Bands) (month : Nat) (p : Point)
    (baseline : Option (Stats.Summary Float)) : Option Finding := do
  let baseline ← baseline
  let z ← baseline.zScore? p.amount
  if c.zThreshold < z.abs then
    return c.finding bands p z (.seasonal month (baseline.range c.rangeWidth) z)
  else none

/-- The findings in one calendar month of all years. -/
def Settings.monthFindings (c : Settings) (bands : Bands) (month : Nat × List Point) :
    List Finding :=
  match Stats.PeerStats.ofValues? (month.2.map Point.amount) with
  | none => []
  | some peers =>
    (month.2.zip peers.baselines).filterMap fun (p, baseline) =>
      c.seasonal? bands month.1 p baseline

def Settings.seasonal (c : Settings) (bands : Bands) (points : List Point) : List Finding :=
  (Sorted.groupBy (fun p => some p.date.date.month) points).flatMap (c.monthFindings bands)

/-- The line through a series and its spread, if it has any. -/
def trend? (points : List Point) : Option (Stats.Line Float × Stats.Summary Float) := do
  let amounts := points.map Point.amount
  let stats ← Stats.summarize? amounts
  if stats.isFlat then none
  else return (← Stats.fit? amounts, stats)

def Settings.trend (c : Settings) (bands : Bands) (points : List Point) : List Finding :=
  match trend? points with
  | none => []
  | some (line, stats) =>
    let threshold := c.trendSigma * stats.std
    points.zipIdx.filterMap fun (p, position) =>
      let predicted := line.at (Float.ofNat position)
      let residual := p.amount - predicted
      if threshold < residual.abs then
        some (c.finding bands p (residual / stats.std)
          (.trend position predicted residual threshold))
      else none

def Settings.detect (c : Settings) (bands : Bands) (records : List Record) : Outcome :=
  match c.check with
  | .error fault => .failed fault
  | .ok () =>
    let points := series records
    .found (Ranking.firsts
      (c.rolling bands points ++ c.seasonal bands points ++ c.trend bands points))

def detector (c : Settings) (bands : Bands) : Detector := .ofMethod .temporal (c.detect bands)

end LedgerWatch.Temporal
