import LedgerWatch.Ensemble.SettingsJson
import LedgerWatch.Proofs.Json.Drafts

namespace LedgerWatch

namespace Bands

variable {f : Float → Option Float}

def floats (b : Bands) : List Float := [b.critical, b.high, b.medium, b.low]

def mapFloats? (f : Float → Option Float) (b : Bands) : Option Bands := do
  return {
    critical := ← f b.critical, high := ← f b.high, medium := ← f b.medium, low := ← f b.low }

theorem mapFloats?_eq_self_iff (b : Bands) :
    b.mapFloats? f = some b ↔ ∀ x ∈ b.floats, f x = some x := by
  cases b
  simp [mapFloats?, floats, Option.bind_eq_some_iff]

theorem mapFloats?_of_eq_none (b : Bands) :
    ∀ x ∈ b.floats, f x = none → b.mapFloats? f = none := by
  rw [floats]
  simp +contextual [mapFloats?]

theorem reread_toJson (b : Bands) (room : ℕ) :
    (b.toJson.draft.select? (.ofNames fieldNames) (room + 1)).bind ofJson? =
      b.mapFloats? Json.rereadFloat? := by
  refine Json.bind_select?_draft (by rfl) (by decide) (by simp [floats])
    b.mapFloats?_of_eq_none fun fs hfs => ?_
  simp only [hfs (n := "critical") rfl, hfs (n := "high") rfl, hfs (n := "medium") rfl,
    hfs (n := "low") rfl, Json.select?_draft_ofFloat, ← Json.rereadFloat?_eq, mapFloats?]

end Bands

namespace Isolation.Settings

variable {f : Float → Option Float}

def floats (c : Settings) : List Float := [c.contamination, c.scoreThreshold]

def mapFloats? (f : Float → Option Float) (c : Settings) : Option Settings := do
  return { c with contamination := ← f c.contamination, scoreThreshold := ← f c.scoreThreshold }

theorem mapFloats?_eq_self_iff (c : Settings) :
    c.mapFloats? f = some c ↔ ∀ x ∈ c.floats, f x = some x := by
  cases c
  simp [mapFloats?, floats, Option.bind_eq_some_iff]

theorem mapFloats?_of_eq_none (c : Settings) :
    ∀ x ∈ c.floats, f x = none → c.mapFloats? f = none := by
  rw [floats]
  simp +contextual [mapFloats?]

theorem reread_toJson (c : Settings) (room : ℕ) :
    (c.toJson.draft.select? (.ofNames fieldNames) (room + 1)).bind ofJson? =
      c.mapFloats? Json.rereadFloat? := by
  refine Json.bind_select?_draft (by rfl) (by decide)
    (by simp [floats, Json.select?_draft_ofWord, Json.select?_draft_optional])
    c.mapFloats?_of_eq_none fun fs hfs => ?_
  simp only [hfs (n := "n_trees") rfl, hfs (n := "max_samples") rfl, hfs (n := "contamination") rfl,
    hfs (n := "score_threshold") rfl, hfs (n := "seed") rfl, Json.select?_draft_ofFloat,
    Json.select?_draft_ofWord, ← Json.rereadFloat?_eq, mapFloats?, Option.bind_eq_bind,
    Option.bind_some, Json.word?_ofWord, Json.select?_draft_optional, Json.optional?_word]

end Isolation.Settings

namespace Density.Settings

variable {f : Float → Option Float}

def floats (c : Settings) : List Float := [c.threshold, c.scoreScale]

def mapFloats? (f : Float → Option Float) (c : Settings) : Option Settings := do
  return { c with threshold := ← f c.threshold, scoreScale := ← f c.scoreScale }

theorem mapFloats?_eq_self_iff (c : Settings) :
    c.mapFloats? f = some c ↔ ∀ x ∈ c.floats, f x = some x := by
  cases c
  simp [mapFloats?, floats, Option.bind_eq_some_iff]

theorem mapFloats?_of_eq_none (c : Settings) :
    ∀ x ∈ c.floats, f x = none → c.mapFloats? f = none := by
  rw [floats]
  simp +contextual [mapFloats?]

theorem reread_toJson (c : Settings) (room : ℕ) :
    (c.toJson.draft.select? (.ofNames fieldNames) (room + 1)).bind ofJson? =
      c.mapFloats? Json.rereadFloat? := by
  refine Json.bind_select?_draft (by rfl) (by decide) (by simp [floats, Json.select?_draft_ofWord])
    c.mapFloats?_of_eq_none fun fs hfs => ?_
  simp only [hfs (n := "k") rfl, hfs (n := "threshold") rfl, hfs (n := "score_scale") rfl,
    Json.select?_draft_ofFloat, Json.select?_draft_ofWord, ← Json.rereadFloat?_eq, mapFloats?,
    Option.bind_eq_bind, Option.bind_some, Json.word?_ofWord]

end Density.Settings

namespace Similarity.Settings

variable {f : Float → Option Float}

def floats (c : Settings) : List Float := [c.nu, c.gamma]

def mapFloats? (f : Float → Option Float) (c : Settings) : Option Settings := do
  return { nu := ← f c.nu, gamma := ← f c.gamma }

theorem mapFloats?_eq_self_iff (c : Settings) :
    c.mapFloats? f = some c ↔ ∀ x ∈ c.floats, f x = some x := by
  cases c
  simp [mapFloats?, floats, Option.bind_eq_some_iff]

theorem mapFloats?_of_eq_none (c : Settings) :
    ∀ x ∈ c.floats, f x = none → c.mapFloats? f = none := by
  rw [floats]
  simp +contextual [mapFloats?]

theorem reread_toJson (c : Settings) (room : ℕ) :
    (c.toJson.draft.select? (.ofNames fieldNames) (room + 1)).bind ofJson? =
      c.mapFloats? Json.rereadFloat? := by
  refine Json.bind_select?_draft (by rfl) (by decide) (by simp [floats])
    c.mapFloats?_of_eq_none fun fs hfs => ?_
  simp only [hfs (n := "nu") rfl, hfs (n := "gamma") rfl, Json.select?_draft_ofFloat,
    ← Json.rereadFloat?_eq, mapFloats?]

end Similarity.Settings

namespace Contextual.Settings

variable {f : Float → Option Float}

def floats (c : Settings) : List Float := [c.zThreshold, c.scoreScale, c.rangeWidth]

def mapFloats? (f : Float → Option Float) (c : Settings) : Option Settings := do
  return {
    zThreshold := ← f c.zThreshold, scoreScale := ← f c.scoreScale, rangeWidth := ← f c.rangeWidth }

theorem mapFloats?_eq_self_iff (c : Settings) :
    c.mapFloats? f = some c ↔ ∀ x ∈ c.floats, f x = some x := by
  cases c
  simp [mapFloats?, floats, Option.bind_eq_some_iff]

theorem mapFloats?_of_eq_none (c : Settings) :
    ∀ x ∈ c.floats, f x = none → c.mapFloats? f = none := by
  rw [floats]
  simp +contextual [mapFloats?]

theorem reread_toJson (c : Settings) (room : ℕ) :
    (c.toJson.draft.select? (.ofNames fieldNames) (room + 1)).bind ofJson? =
      c.mapFloats? Json.rereadFloat? := by
  refine Json.bind_select?_draft (by rfl) (by decide) (by simp [floats])
    c.mapFloats?_of_eq_none fun fs hfs => ?_
  simp only [hfs (n := "z_threshold") rfl, hfs (n := "score_scale") rfl,
    hfs (n := "range_width") rfl, Json.select?_draft_ofFloat, ← Json.rereadFloat?_eq, mapFloats?]

end Contextual.Settings

namespace Temporal.Settings

variable {f : Float → Option Float}

def floats (c : Settings) : List Float :=
  [c.zThreshold, c.trendSigma, c.scoreScale, c.rangeWidth]

def mapFloats? (f : Float → Option Float) (c : Settings) : Option Settings := do
  return { c with
    zThreshold := ← f c.zThreshold, trendSigma := ← f c.trendSigma
    scoreScale := ← f c.scoreScale, rangeWidth := ← f c.rangeWidth }

theorem mapFloats?_eq_self_iff (c : Settings) :
    c.mapFloats? f = some c ↔ ∀ x ∈ c.floats, f x = some x := by
  cases c
  simp [mapFloats?, floats, Option.bind_eq_some_iff]

theorem mapFloats?_of_eq_none (c : Settings) :
    ∀ x ∈ c.floats, f x = none → c.mapFloats? f = none := by
  rw [floats]
  simp +contextual [mapFloats?]

theorem reread_toJson (c : Settings) (room : ℕ) :
    (c.toJson.draft.select? (.ofNames fieldNames) (room + 1)).bind ofJson? =
      c.mapFloats? Json.rereadFloat? := by
  refine Json.bind_select?_draft (by rfl) (by decide) (by simp [floats, Json.select?_draft_ofWord])
    c.mapFloats?_of_eq_none fun fs hfs => ?_
  simp only [hfs (n := "window_size") rfl, hfs (n := "z_threshold") rfl,
    hfs (n := "trend_sigma") rfl, hfs (n := "score_scale") rfl, hfs (n := "range_width") rfl,
    Json.select?_draft_ofFloat, Json.select?_draft_ofWord, ← Json.rereadFloat?_eq, mapFloats?,
    Option.bind_eq_bind, Option.bind_some, Json.word?_ofWord]

end Temporal.Settings

namespace Network.Settings

variable {f : Float → Option Float}

def floats (c : Settings) : List Float :=
  [c.merchantThreshold, c.customerFraudRate, c.customerMinDiversity]

def mapFloats? (f : Float → Option Float) (c : Settings) : Option Settings := do
  return { c with
    merchantThreshold := ← f c.merchantThreshold, customerFraudRate := ← f c.customerFraudRate
    customerMinDiversity := ← f c.customerMinDiversity }

theorem mapFloats?_eq_self_iff (c : Settings) :
    c.mapFloats? f = some c ↔ ∀ x ∈ c.floats, f x = some x := by
  cases c
  simp [mapFloats?, floats, Option.bind_eq_some_iff]

theorem mapFloats?_of_eq_none (c : Settings) :
    ∀ x ∈ c.floats, f x = none → c.mapFloats? f = none := by
  rw [floats]
  simp +contextual [mapFloats?]

theorem reread_toJson (c : Settings) (room : ℕ) :
    (c.toJson.draft.select? (.ofNames fieldNames) (room + 1)).bind ofJson? =
      c.mapFloats? Json.rereadFloat? := by
  refine Json.bind_select?_draft (by rfl) (by decide) (by simp [floats, Json.select?_draft_ofWord])
    c.mapFloats?_of_eq_none fun fs hfs => ?_
  simp only [hfs (n := "min_cluster_size") rfl, hfs (n := "merchant_z_threshold") rfl,
    hfs (n := "customer_fraud_rate") rfl, hfs (n := "customer_min_diversity") rfl,
    Json.select?_draft_ofFloat, Json.select?_draft_ofWord, ← Json.rereadFloat?_eq, mapFloats?,
    Option.bind_eq_bind, Option.bind_some, Json.word?_ofWord]

end Network.Settings

namespace Ensemble

theorem select?_draft_scalingJson (s : Scaling) (room : ℕ) :
    (scalingJson s).draft.select? (.ofNames scalingNames) (room + 1) = some (scalingJson s) := by
  cases s <;> rfl

theorem scaling?_scalingJson (s : Scaling) : scaling? (scalingJson s) = some s := by
  cases s <;> rfl

namespace PatternSettings

variable {f : Float → Option Float}

def floats (c : PatternSettings) : List Float := [c.highValue]

def mapFloats? (f : Float → Option Float) (c : PatternSettings) : Option PatternSettings := do
  return { c with highValue := ← f c.highValue }

theorem mapFloats?_eq_self_iff (c : PatternSettings) :
    c.mapFloats? f = some c ↔ ∀ x ∈ c.floats, f x = some x := by
  cases c
  simp [mapFloats?, floats, Option.bind_eq_some_iff]

theorem mapFloats?_of_eq_none (c : PatternSettings) :
    ∀ x ∈ c.floats, f x = none → c.mapFloats? f = none := by
  rw [floats]
  simp +contextual [mapFloats?]

theorem reread_toJson (c : PatternSettings) (room : ℕ) :
    (c.toJson.draft.select? (.ofNames fieldNames) (room + 1)).bind ofJson? =
      c.mapFloats? Json.rereadFloat? := by
  refine Json.bind_select?_draft (by rfl) (by decide) (by simp [floats, Json.select?_draft_ofWord])
    c.mapFloats?_of_eq_none fun fs hfs => ?_
  simp only [hfs (n := "geographic_min_findings") rfl, hfs (n := "temporal_min_findings") rfl,
    hfs (n := "high_value_amount") rfl, Json.select?_draft_ofFloat, Json.select?_draft_ofWord,
    ← Json.rereadFloat?_eq, mapFloats?, Option.bind_eq_bind, Option.bind_some, Json.word?_ofWord]

end PatternSettings

namespace Settings

variable {f : Float → Option Float} {c : Settings}

def floats (c : Settings) : List Float :=
  c.isolation.floats ++ c.density.floats ++ c.similarity.floats ++ c.contextual.floats ++
    c.temporal.floats ++ c.network.floats ++ c.bands.floats ++ c.patterns.floats

def mapFloats? (f : Float → Option Float) (c : Settings) : Option Settings := do
  return { c with
    isolation := ← c.isolation.mapFloats? f
    density := ← c.density.mapFloats? f
    similarity := ← c.similarity.mapFloats? f
    contextual := ← c.contextual.mapFloats? f
    temporal := ← c.temporal.mapFloats? f
    network := ← c.network.mapFloats? f
    bands := ← c.bands.mapFloats? f
    patterns := ← c.patterns.mapFloats? f }

theorem mapFloats?_eq_self_iff (c : Settings) :
    c.mapFloats? f = some c ↔ ∀ x ∈ c.floats, f x = some x := by
  simp only [floats, List.forall_mem_append, ← Isolation.Settings.mapFloats?_eq_self_iff,
    ← Density.Settings.mapFloats?_eq_self_iff, ← Similarity.Settings.mapFloats?_eq_self_iff,
    ← Contextual.Settings.mapFloats?_eq_self_iff, ← Temporal.Settings.mapFloats?_eq_self_iff,
    ← Network.Settings.mapFloats?_eq_self_iff, ← Bands.mapFloats?_eq_self_iff,
    ← PatternSettings.mapFloats?_eq_self_iff]
  cases c
  simp [mapFloats?, Option.bind_eq_some_iff, and_assoc]

theorem reread_toJson (c : Settings) (room : ℕ) :
    (c.toJson.draft.select? (.members sections) (room + 2)).bind ofJson? =
      c.mapFloats? Json.rereadFloat? := by
  have hread : ∀ isolation density similarity contextual temporal network features bands patterns :
      Json, ofJson? (.object [("isolation_forest", isolation), ("lof", density),
        ("one_class", similarity), ("contextual", contextual), ("temporal", temporal),
        ("graph", network), ("features", features), ("severity", bands), ("report", patterns),
        ("parallel", .bool c.parallel)]) = do
          return ⟨← Isolation.Settings.ofJson? isolation, ← Density.Settings.ofJson? density,
            ← Similarity.Settings.ofJson? similarity, ← Contextual.Settings.ofJson? contextual,
            ← Temporal.Settings.ofJson? temporal, ← Network.Settings.ofJson? network,
            ← scaling? features, ← Bands.ofJson? bands, ← PatternSettings.ofJson? patterns,
            c.parallel⟩ := by
    intro isolation density similarity contextual temporal network features bands patterns
    rw [ofJson?, Json.fields?_object (by rfl) (by decide)]
    rfl
  have hparallel : (Json.bool c.parallel).draft.select? .whole (room + 1) =
      some (.bool c.parallel) := rfl
  rw [toJson, Json.select?_draft_object (by decide) (by rfl)]
  simp only [mapFloats?, ← Isolation.Settings.reread_toJson _ room,
    ← Density.Settings.reread_toJson _ room, ← Similarity.Settings.reread_toJson _ room,
    ← Contextual.Settings.reread_toJson _ room, ← Temporal.Settings.reread_toJson _ room,
    ← Network.Settings.reread_toJson _ room, ← Bands.reread_toJson _ room,
    ← PatternSettings.reread_toJson _ room, sections, List.zip_cons_cons, List.zip_nil_left,
    List.mapM_cons, List.mapM_nil, select?_draft_scalingJson, hparallel, Option.map_some,
    Option.bind_eq_bind, Option.pure_def, Option.bind_some]
  rcases c.isolation.toJson.draft.select? _ (room + 1) with _ | isolation
  · simp
  rcases c.density.toJson.draft.select? _ (room + 1) with _ | density
  · simp
  rcases c.similarity.toJson.draft.select? _ (room + 1) with _ | similarity
  · simp
  rcases c.contextual.toJson.draft.select? _ (room + 1) with _ | contextual
  · simp
  rcases c.temporal.toJson.draft.select? _ (room + 1) with _ | temporal
  · simp
  rcases c.network.toJson.draft.select? _ (room + 1) with _ | network
  · simp
  rcases c.bands.toJson.draft.select? _ (room + 1) with _ | bands
  · simp
  rcases c.patterns.toJson.draft.select? _ (room + 1) with _ | patterns
  · simp
  have hall := hread isolation density similarity contextual temporal network
    (scalingJson c.scaling) bands patterns
  simp only [Option.map_some, Option.bind_some, hall, scaling?_scalingJson, Option.bind_eq_bind,
    Option.pure_def]

/-- What is read in a text of settings: all of them as they were, but for the doubles. -/
theorem read?_write_eq (c : Settings) : read? c.write =
    match c.mapFloats? Json.rereadFloat? with
    | none => .error .malformed
    | some c' => c'.accepted? := by
  have hroom : Json.maxDepth = 125 + 2 := rfl
  have hread : (Json.readWanted? (.members sections) c.write).bind ofJson? =
      c.mapFloats? Json.rereadFloat? := by
    rw [write, Json.readWanted?, Json.read?_pretty, Option.bind_some, hroom, reread_toJson]
  cases hmap : c.mapFloats? Json.rereadFloat? with
  | none => simp only [read?, hread, hmap]
  | some c' => simp only [read?, hread, hmap]

/-- Accepted settings are read again exactly when each of their doubles is, and all doubles with
short literals are. Whatever is read differs from what was written in the doubles alone. -/
theorem reread_of_accepted {c : Settings} (hc : c.check = .ok ()) :
    (read? c.write = .ok c ↔ ∀ x ∈ c.floats, Json.rereadFloat? x = some x) ∧
      ((∀ x ∈ c.floats, Json.HasShortLiteral x) → read? c.write = .ok c) ∧
      ∀ c', read? c.write = .ok c' → c.mapFloats? Json.rereadFloat? = some c' := by
  have hkept : ∀ c', read? c.write = .ok c' → c.mapFloats? Json.rereadFloat? = some c' := by
    intro c' hread
    rw [read?_write_eq] at hread
    cases hmap : c.mapFloats? Json.rereadFloat? with
    | none =>
      rw [hmap] at hread
      cases hread
    | some d =>
      rw [hmap] at hread
      rw [(accepted?_eq_ok_iff.1 hread).2]
  have hback : (∀ x ∈ c.floats, Json.rereadFloat? x = some x) → read? c.write = .ok c := by
    intro hfloats
    rw [read?_write_eq, (mapFloats?_eq_self_iff c).2 hfloats]
    exact accepted?_eq_ok_iff.2 ⟨hc, rfl⟩
  have hshort : (∀ x ∈ c.floats, Json.HasShortLiteral x) → read? c.write = .ok c := fun h =>
    hback fun x hx => Json.rereadFloat?_of_short (h x hx)
  have hfloats : read? c.write = .ok c → ∀ x ∈ c.floats, Json.rereadFloat? x = some x := fun h =>
    (mapFloats?_eq_self_iff c).1 (hkept c h)
  exact ⟨⟨hfloats, hback⟩, hshort, hkept⟩

theorem reread_of_accepted_default :
    (({} : Settings).withSeed 0xFFFFFFFFFFFFFFFF).check = .ok () ∧
      read? (({} : Settings).withSeed 0xFFFFFFFFFFFFFFFF).write =
        .ok (({} : Settings).withSeed 0xFFFFFFFFFFFFFFFF) := by
  have hc : (({} : Settings).withSeed 0xFFFFFFFFFFFFFFFF).check = .ok () := rfl
  have hshort : ∀ x ∈ (({} : Settings).withSeed 0xFFFFFFFFFFFFFFFF).floats,
      Json.HasShortLiteral x := by decide +kernel
  exact ⟨hc, (reread_of_accepted hc).2.1 hshort⟩

/-- The double below one is written with sixteen digits and read as one. -/
example : (Json.rereadFloat? 0.9999999999999999).map Binary64.parts = some (Binary64.parts 1) := by
  decide +kernel

end Settings

end Ensemble

end LedgerWatch
