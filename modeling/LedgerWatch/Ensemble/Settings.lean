import LedgerWatch.Isolation.Forest
import LedgerWatch.Density.LocalOutlier
import LedgerWatch.Similarity.OneClass
import LedgerWatch.Contextual.Groups
import LedgerWatch.Temporal.Series
import LedgerWatch.Network.Behavior

namespace LedgerWatch.Ensemble

structure PatternSettings where
  /-- More findings than this in one merchant state are a cluster. -/
  geographicMin : UInt64 := 5
  /-- More findings than this by date are a cluster. -/
  temporalMin : UInt64 := 10
  /-- Amounts above this are of high value. -/
  highValue : Float := 1000.0

structure Settings where
  isolation : Isolation.Settings := {}
  density : Density.Settings := {}
  similarity : Similarity.Settings := {}
  contextual : Contextual.Settings := {}
  temporal : Temporal.Settings := {}
  network : Network.Settings := {}
  scaling : Scaling := .none
  bands : Bands := {}
  patterns : PatternSettings := {}
  /-- Whether the detectors run side by side. -/
  parallel : Bool := true

/-- The bands as they are shown when they are refused. -/
def bandsText (b : Bands) : String :=
  let write := Decimal.Style.debug.write
  "SeverityThresholds \x7b critical: " ++ write b.critical ++ ", high: " ++ write b.high ++
    ", medium: " ++ write b.medium ++ ", low: " ++ write b.low ++ " \x7d"

namespace Settings

/-- Every section in turn; the first fault is the one reported. -/
def check (c : Settings) : Except Fault Unit := do
  c.isolation.check
  c.density.check
  c.similarity.check
  c.contextual.check
  c.temporal.check
  c.network.check
  Fault.require c.bands.isOrdered
    (.invalidParameter "severity" (bandsText c.bands) "bands must be strictly decreasing")

def withSeed (c : Settings) (seed : UInt64) : Settings :=
  { c with isolation := { c.isolation with seed := some seed } }

/-- The detectors of the six methods, in the order in which they run. -/
def detectors (c : Settings) (entropy : UInt64) : List Detector :=
  [Isolation.detector c.isolation c.scaling c.bands entropy,
    Density.detector c.density c.scaling c.bands,
    Similarity.detector c.similarity c.scaling c.bands,
    Contextual.detector c.contextual c.bands,
    Temporal.detector c.temporal c.bands,
    Network.detector c.network c.bands]

end Settings

end LedgerWatch.Ensemble
