import LedgerWatch.Ensemble.Settings
import LedgerWatch.Json.Lexer
import LedgerWatch.Json.Printer

namespace LedgerWatch

namespace Bands

def toJson (b : Bands) : Json :=
  .object [("critical", .ofFloat b.critical), ("high", .ofFloat b.high),
    ("medium", .ofFloat b.medium), ("low", .ofFloat b.low)]

def fieldNames : List String := ["critical", "high", "medium", "low"]

def ofJson? (j : Json) : Option Bands := do
  let fs ← j.fields? fieldNames
  let default : Bands := {}
  return {
    critical := ← fs.withDefault "critical" Json.float? default.critical
    high := ← fs.withDefault "high" Json.float? default.high
    medium := ← fs.withDefault "medium" Json.float? default.medium
    low := ← fs.withDefault "low" Json.float? default.low }

end Bands

namespace Isolation.Settings

def toJson (c : Settings) : Json :=
  .object [("n_trees", .ofWord c.trees), ("max_samples", .ofWord c.maxSamples),
    ("contamination", .ofFloat c.contamination), ("score_threshold", .ofFloat c.scoreThreshold),
    ("seed", (c.seed.map Json.ofWord).getD .null)]

def fieldNames : List String :=
  ["n_trees", "max_samples", "contamination", "score_threshold", "seed"]

def ofJson? (j : Json) : Option Settings := do
  let fs ← j.fields? fieldNames
  let default : Settings := {}
  return {
    trees := ← fs.withDefault "n_trees" Json.word? default.trees
    maxSamples := ← fs.withDefault "max_samples" Json.word? default.maxSamples
    contamination := ← fs.withDefault "contamination" Json.float? default.contamination
    scoreThreshold := ← fs.withDefault "score_threshold" Json.float? default.scoreThreshold
    seed := ← fs.withDefault "seed" (Json.optional? Json.word?) default.seed }

end Isolation.Settings

namespace Density.Settings

def toJson (c : Settings) : Json :=
  .object [("k", .ofWord c.neighbors), ("threshold", .ofFloat c.threshold),
    ("score_scale", .ofFloat c.scoreScale)]

def fieldNames : List String := ["k", "threshold", "score_scale"]

def ofJson? (j : Json) : Option Settings := do
  let fs ← j.fields? fieldNames
  let default : Settings := {}
  return {
    neighbors := ← fs.withDefault "k" Json.word? default.neighbors
    threshold := ← fs.withDefault "threshold" Json.float? default.threshold
    scoreScale := ← fs.withDefault "score_scale" Json.float? default.scoreScale }

end Density.Settings

namespace Similarity.Settings

def toJson (c : Settings) : Json :=
  .object [("nu", .ofFloat c.nu), ("gamma", .ofFloat c.gamma)]

def fieldNames : List String := ["nu", "gamma"]

def ofJson? (j : Json) : Option Settings := do
  let fs ← j.fields? fieldNames
  let default : Settings := {}
  return {
    nu := ← fs.withDefault "nu" Json.float? default.nu
    gamma := ← fs.withDefault "gamma" Json.float? default.gamma }

end Similarity.Settings

namespace Contextual.Settings

def toJson (c : Settings) : Json :=
  .object [("z_threshold", .ofFloat c.zThreshold), ("score_scale", .ofFloat c.scoreScale),
    ("range_width", .ofFloat c.rangeWidth)]

def fieldNames : List String := ["z_threshold", "score_scale", "range_width"]

def ofJson? (j : Json) : Option Settings := do
  let fs ← j.fields? fieldNames
  let default : Settings := {}
  return {
    zThreshold := ← fs.withDefault "z_threshold" Json.float? default.zThreshold
    scoreScale := ← fs.withDefault "score_scale" Json.float? default.scoreScale
    rangeWidth := ← fs.withDefault "range_width" Json.float? default.rangeWidth }

end Contextual.Settings

namespace Temporal.Settings

def toJson (c : Settings) : Json :=
  .object [("window_size", .ofWord c.window), ("z_threshold", .ofFloat c.zThreshold),
    ("trend_sigma", .ofFloat c.trendSigma), ("score_scale", .ofFloat c.scoreScale),
    ("range_width", .ofFloat c.rangeWidth)]

def fieldNames : List String :=
  ["window_size", "z_threshold", "trend_sigma", "score_scale", "range_width"]

def ofJson? (j : Json) : Option Settings := do
  let fs ← j.fields? fieldNames
  let default : Settings := {}
  return {
    window := ← fs.withDefault "window_size" Json.word? default.window
    zThreshold := ← fs.withDefault "z_threshold" Json.float? default.zThreshold
    trendSigma := ← fs.withDefault "trend_sigma" Json.float? default.trendSigma
    scoreScale := ← fs.withDefault "score_scale" Json.float? default.scoreScale
    rangeWidth := ← fs.withDefault "range_width" Json.float? default.rangeWidth }

end Temporal.Settings

namespace Network.Settings

def toJson (c : Settings) : Json :=
  .object [("min_cluster_size", .ofWord c.minClusterSize),
    ("merchant_z_threshold", .ofFloat c.merchantThreshold),
    ("customer_fraud_rate", .ofFloat c.customerFraudRate),
    ("customer_min_diversity", .ofFloat c.customerMinDiversity)]

def fieldNames : List String :=
  ["min_cluster_size", "merchant_z_threshold", "customer_fraud_rate", "customer_min_diversity"]

def ofJson? (j : Json) : Option Settings := do
  let fs ← j.fields? fieldNames
  let default : Settings := {}
  return {
    minClusterSize := ← fs.withDefault "min_cluster_size" Json.word? default.minClusterSize
    merchantThreshold :=
      ← fs.withDefault "merchant_z_threshold" Json.float? default.merchantThreshold
    customerFraudRate :=
      ← fs.withDefault "customer_fraud_rate" Json.float? default.customerFraudRate
    customerMinDiversity :=
      ← fs.withDefault "customer_min_diversity" Json.float? default.customerMinDiversity }

end Network.Settings

namespace Ensemble

/-- The section on features holds nothing but the scaling. -/
def scalingJson (s : Scaling) : Json := .object [("scaling", s.toJson)]

def scalingNames : List String := ["scaling"]

def scaling? (j : Json) : Option Scaling := do
  (← j.fields? scalingNames).withDefault "scaling" Scaling.ofJson? .none

namespace PatternSettings

def toJson (c : PatternSettings) : Json :=
  .object [("geographic_min_findings", .ofWord c.geographicMin),
    ("temporal_min_findings", .ofWord c.temporalMin), ("high_value_amount", .ofFloat c.highValue)]

def fieldNames : List String :=
  ["geographic_min_findings", "temporal_min_findings", "high_value_amount"]

def ofJson? (j : Json) : Option PatternSettings := do
  let fs ← j.fields? fieldNames
  let default : PatternSettings := {}
  return {
    geographicMin := ← fs.withDefault "geographic_min_findings" Json.word? default.geographicMin
    temporalMin := ← fs.withDefault "temporal_min_findings" Json.word? default.temporalMin
    highValue := ← fs.withDefault "high_value_amount" Json.float? default.highValue }

end PatternSettings

namespace Settings

/-- The sections, and what is wanted of each. -/
def sections : List (String × Json.Outline) :=
  [("isolation_forest", .ofNames Isolation.Settings.fieldNames),
    ("lof", .ofNames Density.Settings.fieldNames),
    ("one_class", .ofNames Similarity.Settings.fieldNames),
    ("contextual", .ofNames Contextual.Settings.fieldNames),
    ("temporal", .ofNames Temporal.Settings.fieldNames),
    ("graph", .ofNames Network.Settings.fieldNames),
    ("features", .ofNames scalingNames),
    ("severity", .ofNames Bands.fieldNames),
    ("report", .ofNames PatternSettings.fieldNames),
    ("parallel", .whole)]

def toJson (c : Settings) : Json :=
  .object [("isolation_forest", c.isolation.toJson), ("lof", c.density.toJson),
    ("one_class", c.similarity.toJson), ("contextual", c.contextual.toJson),
    ("temporal", c.temporal.toJson), ("graph", c.network.toJson),
    ("features", scalingJson c.scaling), ("severity", c.bands.toJson),
    ("report", c.patterns.toJson), ("parallel", .bool c.parallel)]

def ofJson? (j : Json) : Option Settings := do
  let fs ← j.fields? (sections.map Prod.fst)
  let default : Settings := {}
  return {
    isolation := ← fs.withDefault "isolation_forest" Isolation.Settings.ofJson? default.isolation
    density := ← fs.withDefault "lof" Density.Settings.ofJson? default.density
    similarity := ← fs.withDefault "one_class" Similarity.Settings.ofJson? default.similarity
    contextual := ← fs.withDefault "contextual" Contextual.Settings.ofJson? default.contextual
    temporal := ← fs.withDefault "temporal" Temporal.Settings.ofJson? default.temporal
    network := ← fs.withDefault "graph" Network.Settings.ofJson? default.network
    scaling := ← fs.withDefault "features" scaling? default.scaling
    bands := ← fs.withDefault "severity" Bands.ofJson? default.bands
    patterns := ← fs.withDefault "report" PatternSettings.ofJson? default.patterns
    parallel := ← fs.withDefault "parallel" Json.bool? default.parallel }

inductive Failure
  | unreadable
  | malformed
  | refused (fault : Fault)
  deriving DecidableEq, Repr

def accepted? (c : Settings) : Except Failure Settings := do
  c.check.mapError .refused
  return c

theorem accepted?_eq_ok_iff {c c' : Settings} :
    c.accepted? = .ok c' ↔ c.check = .ok () ∧ c' = c := by
  unfold accepted?
  cases c.check with
  | ok _ => exact ⟨fun h => ⟨rfl, (Except.ok.inj h).symm⟩, fun h => congrArg Except.ok h.2.symm⟩
  | error _ => exact ⟨nofun, fun h => nomatch h.1⟩

theorem accepted?_eq_error_iff {c : Settings} {failure : Failure} :
    c.accepted? = .error failure ↔
      ∃ fault, failure = .refused fault ∧ c.check = .error fault := by
  unfold accepted?
  cases c.check with
  | ok _ => exact ⟨nofun, fun ⟨_, _, h⟩ => nomatch h⟩
  | error fault =>
    constructor
    · intro h
      exact ⟨fault, (Except.error.inj h).symm, rfl⟩
    · rintro ⟨_, rfl, h⟩
      exact congrArg (Except.error ∘ Failure.refused) (Except.error.inj h)

def read? (text : String) : Except Failure Settings :=
  match (Json.readWanted? (.members sections) text).bind ofJson? with
  | none => .error .malformed
  | some c => c.accepted?

def ofFileContent? : Option String → Except Failure Settings
  | none => .error .unreadable
  | some text => read? text

def write (c : Settings) : String := c.toJson.pretty

end Settings

end Ensemble

end LedgerWatch
