import LedgerWatch.Proofs.Ensemble.SettingsText
import LedgerWatch.Proofs.Json.Edits

namespace LedgerWatch

variable {kept : String → Bool}

namespace Bands

def overlay (kept : String → Bool) (b : Bands) : Bands :=
  let default : Bands := {}
  { critical := if kept "critical" then b.critical else default.critical
    high := if kept "high" then b.high else default.high
    medium := if kept "medium" then b.medium else default.medium
    low := if kept "low" then b.low else default.low }

theorem fits_toJson (b : Bands) : (Json.Outline.ofNames fieldNames).Fits b.toJson :=
  Json.Outline.fits_object (by simp [fieldNames])

theorem ofJson?_restrict {b : Bands} (h : ∀ x ∈ b.floats, x.isFinite = true) :
    ofJson? (b.toJson.restrict kept) = some (b.overlay kept) := by
  simp only [floats, List.forall_mem_cons] at h
  obtain ⟨hcritical, hhigh, hmedium, hlow, -⟩ := h
  rw [toJson, Json.restrict, ofJson?]
  simp only [Option.bind_eq_bind, Option.bind_eq_some_iff]
  exact ⟨_, Json.fields?_filter kept (by rfl) (by decide), _,
    Json.Fields.withDefault_kept kept rfl (Json.float?_ofFloat hcritical) _, _,
    Json.Fields.withDefault_kept kept rfl (Json.float?_ofFloat hhigh) _, _,
    Json.Fields.withDefault_kept kept rfl (Json.float?_ofFloat hmedium) _, _,
    Json.Fields.withDefault_kept kept rfl (Json.float?_ofFloat hlow) _, rfl⟩

end Bands

namespace Isolation.Settings

def overlay (kept : String → Bool) (c : Settings) : Settings :=
  let default : Settings := {}
  { trees := if kept "n_trees" then c.trees else default.trees
    maxSamples := if kept "max_samples" then c.maxSamples else default.maxSamples
    contamination := if kept "contamination" then c.contamination else default.contamination
    scoreThreshold := if kept "score_threshold" then c.scoreThreshold else default.scoreThreshold
    seed := if kept "seed" then c.seed else default.seed }

theorem fits_toJson (c : Settings) : (Json.Outline.ofNames fieldNames).Fits c.toJson := by
  have hseed : ((c.seed.map Json.ofWord).getD .null).IsSingle := by cases c.seed <;> trivial
  exact Json.Outline.fits_object (by simp [fieldNames, hseed])

theorem ofJson?_restrict {c : Settings} (h : ∀ x ∈ c.floats, x.isFinite = true) :
    ofJson? (c.toJson.restrict kept) = some (c.overlay kept) := by
  simp only [floats, List.forall_mem_cons] at h
  obtain ⟨hcontamination, hthreshold, -⟩ := h
  rw [toJson, Json.restrict, ofJson?]
  simp only [Option.bind_eq_bind, Option.bind_eq_some_iff]
  exact ⟨_, Json.fields?_filter kept (by rfl) (by decide), _,
    Json.Fields.withDefault_kept kept rfl (Json.word?_ofWord _) _, _,
    Json.Fields.withDefault_kept kept rfl (Json.word?_ofWord _) _, _,
    Json.Fields.withDefault_kept kept rfl (Json.float?_ofFloat hcontamination) _, _,
    Json.Fields.withDefault_kept kept rfl (Json.float?_ofFloat hthreshold) _, _,
    Json.Fields.withDefault_kept kept rfl (Json.optional?_word _) _, rfl⟩

end Isolation.Settings

namespace Density.Settings

def overlay (kept : String → Bool) (c : Settings) : Settings :=
  let default : Settings := {}
  { neighbors := if kept "k" then c.neighbors else default.neighbors
    threshold := if kept "threshold" then c.threshold else default.threshold
    scoreScale := if kept "score_scale" then c.scoreScale else default.scoreScale }

theorem fits_toJson (c : Settings) : (Json.Outline.ofNames fieldNames).Fits c.toJson :=
  Json.Outline.fits_object (by simp [fieldNames])

theorem ofJson?_restrict {c : Settings} (h : ∀ x ∈ c.floats, x.isFinite = true) :
    ofJson? (c.toJson.restrict kept) = some (c.overlay kept) := by
  simp only [floats, List.forall_mem_cons] at h
  obtain ⟨hthreshold, hscale, -⟩ := h
  rw [toJson, Json.restrict, ofJson?]
  simp only [Option.bind_eq_bind, Option.bind_eq_some_iff]
  exact ⟨_, Json.fields?_filter kept (by rfl) (by decide), _,
    Json.Fields.withDefault_kept kept rfl (Json.word?_ofWord _) _, _,
    Json.Fields.withDefault_kept kept rfl (Json.float?_ofFloat hthreshold) _, _,
    Json.Fields.withDefault_kept kept rfl (Json.float?_ofFloat hscale) _, rfl⟩

end Density.Settings

namespace Similarity.Settings

def overlay (kept : String → Bool) (c : Settings) : Settings :=
  let default : Settings := {}
  { nu := if kept "nu" then c.nu else default.nu
    gamma := if kept "gamma" then c.gamma else default.gamma }

theorem fits_toJson (c : Settings) : (Json.Outline.ofNames fieldNames).Fits c.toJson :=
  Json.Outline.fits_object (by simp [fieldNames])

theorem ofJson?_restrict {c : Settings} (h : ∀ x ∈ c.floats, x.isFinite = true) :
    ofJson? (c.toJson.restrict kept) = some (c.overlay kept) := by
  simp only [floats, List.forall_mem_cons] at h
  obtain ⟨hnu, hgamma, -⟩ := h
  rw [toJson, Json.restrict, ofJson?]
  simp only [Option.bind_eq_bind, Option.bind_eq_some_iff]
  exact ⟨_, Json.fields?_filter kept (by rfl) (by decide), _,
    Json.Fields.withDefault_kept kept rfl (Json.float?_ofFloat hnu) _, _,
    Json.Fields.withDefault_kept kept rfl (Json.float?_ofFloat hgamma) _, rfl⟩

end Similarity.Settings

namespace Contextual.Settings

def overlay (kept : String → Bool) (c : Settings) : Settings :=
  let default : Settings := {}
  { zThreshold := if kept "z_threshold" then c.zThreshold else default.zThreshold
    scoreScale := if kept "score_scale" then c.scoreScale else default.scoreScale
    rangeWidth := if kept "range_width" then c.rangeWidth else default.rangeWidth }

theorem fits_toJson (c : Settings) : (Json.Outline.ofNames fieldNames).Fits c.toJson :=
  Json.Outline.fits_object (by simp [fieldNames])

theorem ofJson?_restrict {c : Settings} (h : ∀ x ∈ c.floats, x.isFinite = true) :
    ofJson? (c.toJson.restrict kept) = some (c.overlay kept) := by
  simp only [floats, List.forall_mem_cons] at h
  obtain ⟨hthreshold, hscale, hwidth, -⟩ := h
  rw [toJson, Json.restrict, ofJson?]
  simp only [Option.bind_eq_bind, Option.bind_eq_some_iff]
  exact ⟨_, Json.fields?_filter kept (by rfl) (by decide), _,
    Json.Fields.withDefault_kept kept rfl (Json.float?_ofFloat hthreshold) _, _,
    Json.Fields.withDefault_kept kept rfl (Json.float?_ofFloat hscale) _, _,
    Json.Fields.withDefault_kept kept rfl (Json.float?_ofFloat hwidth) _, rfl⟩

end Contextual.Settings

namespace Temporal.Settings

def overlay (kept : String → Bool) (c : Settings) : Settings :=
  let default : Settings := {}
  { window := if kept "window_size" then c.window else default.window
    zThreshold := if kept "z_threshold" then c.zThreshold else default.zThreshold
    trendSigma := if kept "trend_sigma" then c.trendSigma else default.trendSigma
    scoreScale := if kept "score_scale" then c.scoreScale else default.scoreScale
    rangeWidth := if kept "range_width" then c.rangeWidth else default.rangeWidth }

theorem fits_toJson (c : Settings) : (Json.Outline.ofNames fieldNames).Fits c.toJson :=
  Json.Outline.fits_object (by simp [fieldNames])

theorem ofJson?_restrict {c : Settings} (h : ∀ x ∈ c.floats, x.isFinite = true) :
    ofJson? (c.toJson.restrict kept) = some (c.overlay kept) := by
  simp only [floats, List.forall_mem_cons] at h
  obtain ⟨hthreshold, hsigma, hscale, hwidth, -⟩ := h
  rw [toJson, Json.restrict, ofJson?]
  simp only [Option.bind_eq_bind, Option.bind_eq_some_iff]
  exact ⟨_, Json.fields?_filter kept (by rfl) (by decide), _,
    Json.Fields.withDefault_kept kept rfl (Json.word?_ofWord _) _, _,
    Json.Fields.withDefault_kept kept rfl (Json.float?_ofFloat hthreshold) _, _,
    Json.Fields.withDefault_kept kept rfl (Json.float?_ofFloat hsigma) _, _,
    Json.Fields.withDefault_kept kept rfl (Json.float?_ofFloat hscale) _, _,
    Json.Fields.withDefault_kept kept rfl (Json.float?_ofFloat hwidth) _, rfl⟩

end Temporal.Settings

namespace Network.Settings

def overlay (kept : String → Bool) (c : Settings) : Settings :=
  let default : Settings := {}
  { minClusterSize := if kept "min_cluster_size" then c.minClusterSize else default.minClusterSize
    merchantThreshold :=
      if kept "merchant_z_threshold" then c.merchantThreshold else default.merchantThreshold
    customerFraudRate :=
      if kept "customer_fraud_rate" then c.customerFraudRate else default.customerFraudRate
    customerMinDiversity :=
      if kept "customer_min_diversity" then c.customerMinDiversity
      else default.customerMinDiversity }

theorem fits_toJson (c : Settings) : (Json.Outline.ofNames fieldNames).Fits c.toJson :=
  Json.Outline.fits_object (by simp [fieldNames])

theorem ofJson?_restrict {c : Settings} (h : ∀ x ∈ c.floats, x.isFinite = true) :
    ofJson? (c.toJson.restrict kept) = some (c.overlay kept) := by
  simp only [floats, List.forall_mem_cons] at h
  obtain ⟨hthreshold, hrate, hdiversity, -⟩ := h
  rw [toJson, Json.restrict, ofJson?]
  simp only [Option.bind_eq_bind, Option.bind_eq_some_iff]
  exact ⟨_, Json.fields?_filter kept (by rfl) (by decide), _,
    Json.Fields.withDefault_kept kept rfl (Json.word?_ofWord _) _, _,
    Json.Fields.withDefault_kept kept rfl (Json.float?_ofFloat hthreshold) _, _,
    Json.Fields.withDefault_kept kept rfl (Json.float?_ofFloat hrate) _, _,
    Json.Fields.withDefault_kept kept rfl (Json.float?_ofFloat hdiversity) _, rfl⟩

end Network.Settings

namespace Ensemble

def overlayScaling (kept : String → Bool) (s : Scaling) : Scaling :=
  if kept "scaling" then s else .none

theorem fits_scalingJson (s : Scaling) :
    (Json.Outline.ofNames scalingNames).Fits (scalingJson s) := by
  have hsingle : s.toJson.IsSingle := by cases s <;> trivial
  exact Json.Outline.fits_object (by simp [scalingNames, hsingle])

theorem scaling?_restrict (s : Scaling) :
    scaling? ((scalingJson s).restrict kept) = some (overlayScaling kept s) := by
  have hread : Scaling.ofJson? s.toJson = some s := by cases s <;> rfl
  rw [scalingJson, Json.restrict, scaling?]
  simp only [Option.bind_eq_bind, Option.bind_eq_some_iff]
  exact ⟨_, Json.fields?_filter kept (by rfl) (by decide),
    Json.Fields.withDefault_kept kept rfl hread _⟩

namespace PatternSettings

def overlay (kept : String → Bool) (c : PatternSettings) : PatternSettings :=
  let default : PatternSettings := {}
  { geographicMin :=
      if kept "geographic_min_findings" then c.geographicMin else default.geographicMin
    temporalMin := if kept "temporal_min_findings" then c.temporalMin else default.temporalMin
    highValue := if kept "high_value_amount" then c.highValue else default.highValue }

theorem fits_toJson (c : PatternSettings) : (Json.Outline.ofNames fieldNames).Fits c.toJson :=
  Json.Outline.fits_object (by simp [fieldNames])

theorem ofJson?_restrict {c : PatternSettings} (h : ∀ x ∈ c.floats, x.isFinite = true) :
    ofJson? (c.toJson.restrict kept) = some (c.overlay kept) := by
  simp only [floats, List.forall_mem_cons] at h
  obtain ⟨hvalue, -⟩ := h
  rw [toJson, Json.restrict, ofJson?]
  simp only [Option.bind_eq_bind, Option.bind_eq_some_iff]
  exact ⟨_, Json.fields?_filter kept (by rfl) (by decide), _,
    Json.Fields.withDefault_kept kept rfl (Json.word?_ofWord _) _, _,
    Json.Fields.withDefault_kept kept rfl (Json.word?_ofWord _) _, _,
    Json.Fields.withDefault_kept kept rfl (Json.float?_ofFloat hvalue) _, rfl⟩

end PatternSettings

namespace Settings

structure Kept where
  sections : String → Bool
  fields : String → String → Bool

variable {c : Settings} {kept : Kept} {d : Json.Draft}

/-- The fields that are kept in sections that are, and the defaults of the others. -/
def overlay (kept : Kept) (c : Settings) : Settings :=
  let default : Settings := {}
  { isolation :=
      if kept.sections "isolation_forest" then
        c.isolation.overlay (kept.fields "isolation_forest")
      else default.isolation
    density :=
      if kept.sections "lof" then c.density.overlay (kept.fields "lof") else default.density
    similarity :=
      if kept.sections "one_class" then c.similarity.overlay (kept.fields "one_class")
      else default.similarity
    contextual :=
      if kept.sections "contextual" then c.contextual.overlay (kept.fields "contextual")
      else default.contextual
    temporal :=
      if kept.sections "temporal" then c.temporal.overlay (kept.fields "temporal")
      else default.temporal
    network :=
      if kept.sections "graph" then c.network.overlay (kept.fields "graph") else default.network
    scaling :=
      if kept.sections "features" then overlayScaling (kept.fields "features") c.scaling
      else default.scaling
    bands :=
      if kept.sections "severity" then c.bands.overlay (kept.fields "severity") else default.bands
    patterns :=
      if kept.sections "report" then c.patterns.overlay (kept.fields "report")
      else default.patterns
    parallel := if kept.sections "parallel" then c.parallel else default.parallel }

/-- What may be found where the settings were written and keys were deleted and unknown ones
added, between the sections and inside of them. -/
def Edited (kept : Kept) (c : Settings) (d : Json.Draft) : Prop :=
  ∃ ms ds, c.toJson = .object ms ∧ d = .object ds ∧
    Json.EditedMembers (sections.map Prod.fst) kept.sections
      (fun s j e => ∃ o, sections.lookup s = some o ∧ o.Edited (kept.fields s) j e) ms ds

theorem fits_toJson {s : String} {j : Json} (h : c.toJson.HasMember s j) :
    ∃ o, sections.lookup s = some o ∧ o.Fits j ∧ (o = .whole → j = .bool c.parallel) := by
  obtain ⟨ms, hms, hmem⟩ := h
  cases hms
  simp only [List.mem_cons, Prod.mk.injEq, List.not_mem_nil, or_false] at hmem
  rcases hmem with h | h | h | h | h | h | h | h | h | h <;> obtain ⟨rfl, rfl⟩ := h
  · exact ⟨_, rfl, c.isolation.fits_toJson, nofun⟩
  · exact ⟨_, rfl, c.density.fits_toJson, nofun⟩
  · exact ⟨_, rfl, c.similarity.fits_toJson, nofun⟩
  · exact ⟨_, rfl, c.contextual.fits_toJson, nofun⟩
  · exact ⟨_, rfl, c.temporal.fits_toJson, nofun⟩
  · exact ⟨_, rfl, c.network.fits_toJson, nofun⟩
  · exact ⟨_, rfl, fits_scalingJson c.scaling, nofun⟩
  · exact ⟨_, rfl, c.bands.fits_toJson, nofun⟩
  · exact ⟨_, rfl, c.patterns.fits_toJson, nofun⟩
  · exact ⟨_, rfl, trivial, fun _ => rfl⟩

theorem ofJson?_restrict (hfinite : ∀ x ∈ c.floats, x.isFinite = true)
    {ms : List (String × Json)} (hms : c.toJson = .object ms) :
    ofJson? (.object ((ms.map fun m => (m.1, m.2.restrict (kept.fields m.1))).filter fun m =>
      kept.sections m.1)) = some (c.overlay kept) := by
  cases hms
  simp only [floats, List.forall_mem_append] at hfinite
  obtain ⟨⟨⟨⟨⟨⟨⟨hisolation, hdensity⟩, hsimilarity⟩, hcontextual⟩, htemporal⟩, hnetwork⟩, hbands⟩,
    hpatterns⟩ := hfinite
  have hparallel : ((Json.bool c.parallel).restrict (kept.fields "parallel")).bool? =
      some c.parallel := rfl
  rw [ofJson?]
  simp only [Option.bind_eq_bind, Option.bind_eq_some_iff]
  exact ⟨_, Json.fields?_filter kept.sections (by rfl) (by decide),
    _, Json.Fields.withDefault_kept _ rfl (Isolation.Settings.ofJson?_restrict hisolation) _,
    _, Json.Fields.withDefault_kept _ rfl (Density.Settings.ofJson?_restrict hdensity) _,
    _, Json.Fields.withDefault_kept _ rfl (Similarity.Settings.ofJson?_restrict hsimilarity) _,
    _, Json.Fields.withDefault_kept _ rfl (Contextual.Settings.ofJson?_restrict hcontextual) _,
    _, Json.Fields.withDefault_kept _ rfl (Temporal.Settings.ofJson?_restrict htemporal) _,
    _, Json.Fields.withDefault_kept _ rfl (Network.Settings.ofJson?_restrict hnetwork) _,
    _, Json.Fields.withDefault_kept _ rfl (scaling?_restrict c.scaling) _,
    _, Json.Fields.withDefault_kept _ rfl (Bands.ofJson?_restrict hbands) _,
    _, Json.Fields.withDefault_kept _ rfl (PatternSettings.ofJson?_restrict hpatterns) _,
    _, Json.Fields.withDefault_kept _ rfl hparallel _, rfl⟩

/-- The settings that are described in an edited text, whether they are acceptable or not. -/
theorem ofJson?_of_edited (hfinite : ∀ x ∈ c.floats, x.isFinite = true) (hedited : c.Edited kept d)
    (hreread : ∀ s j n x, c.toJson.HasMember s j → j.HasMember n (.number x) →
      kept.sections s = true → kept.fields s n = true → x.reread? = some x) :
    (d.select? (.members sections) Json.maxDepth).bind ofJson? = some (c.overlay kept) := by
  obtain ⟨ms, ds, hms, rfl, hedited⟩ := hedited
  have hroom : Json.maxDepth = 125 + 1 + 1 := rfl
  have hkept : ∀ s j, (s, j) ∈ ms → kept.sections s = true → ∀ e,
      (∃ o, sections.lookup s = some o ∧ o.Edited (kept.fields s) j e) →
        ∃ o, sections.lookup s = some o ∧
          e.select? o (125 + 1) = some (j.restrict (kept.fields s)) := by
    rintro s j hmem hs e ⟨o, ho, he⟩
    have hmember : c.toJson.HasMember s j := ⟨ms, hms, hmem⟩
    obtain ⟨o', ho', hfits, hwhole⟩ := fits_toJson hmember
    obtain rfl : o = o' := Option.some.inj (ho.symm.trans ho')
    refine ⟨o, ho, he.select? hfits ?_ fun n x hx hn => hreread s j n x hmember hx hs hn⟩
    -- what is wanted whole is a choice, so it is no number that has to be found again
    intro hall x hx
    cases (hwhole hall).symm.trans hx
  rw [hroom, Json.Draft.select?, hedited.selectMembers? hkept]
  exact ofJson?_restrict hfinite hms

/-- An edited text is read as the settings with the defaults of the deleted fields. It is accepted
exactly when these settings are, and refused with the fault that is found in them otherwise. -/
theorem read?_of_edited (hfinite : ∀ x ∈ c.floats, x.isFinite = true) (hedited : c.Edited kept d)
    (hreread : ∀ s j n x, c.toJson.HasMember s j → j.HasMember n (.number x) →
      kept.sections s = true → kept.fields s n = true → x.reread? = some x)
    {text : String} (htext : Json.Draft.read? text = some d) :
    (∀ c', read? text = .ok c' ↔ (c.overlay kept).check = .ok () ∧ c' = c.overlay kept) ∧
      ∀ failure, read? text = .error failure ↔
        ∃ fault, failure = .refused fault ∧ (c.overlay kept).check = .error fault := by
  have hread : read? text = (c.overlay kept).accepted? := by
    simp only [read?, Json.readWanted?, htext, Option.bind_some,
      ofJson?_of_edited hfinite hedited hreread]
  rw [hread]
  exact ⟨fun _ => accepted?_eq_ok_iff, fun _ => accepted?_eq_error_iff⟩

/-- One field and one choice are kept, and an unknown member is added at both levels. -/
theorem read?_of_edited_neighbors :
    read? (Json.object [("lof", .object [("k", .ofWord 5), ("metric", .string "cosine")]),
      ("version", .null), ("parallel", .bool false)]).pretty =
        .ok { density := { neighbors := 5 }, parallel := false } := by
  let kept : Kept := ⟨fun s => s == "lof" || s == "parallel", fun _ n => n == "k"⟩
  let c : Settings := { density := { neighbors := 5, threshold := 2.5 }, parallel := false }
  have hfinite : ∀ x ∈ c.floats, x.isFinite = true := by decide +kernel
  have hedited : c.Edited kept (Json.object [("lof", .object [("k", .ofWord 5),
      ("metric", .string "cosine")]), ("version", .null), ("parallel", .bool false)]).draft := by
    refine ⟨_, _, rfl, rfl, .delete rfl (.keep rfl ⟨_, rfl, _, _, rfl, rfl, ?_⟩ ?_)⟩
    · exact .keep rfl rfl (.delete rfl (.delete rfl (.add (by decide) .nil)))
    · refine .delete rfl (.delete rfl (.delete rfl (.delete rfl (.delete rfl (.delete rfl
        (.delete rfl (.add (by decide) ?_)))))))
      exact .keep rfl ⟨_, rfl, rfl⟩ .nil
  have hreread : ∀ s j n x, c.toJson.HasMember s j → j.HasMember n (.number x) →
      kept.sections s = true → kept.fields s n = true → x.reread? = some x := by
    rintro s j n x ⟨ms, hms, hj⟩ ⟨ns, hns, hx⟩ hs hn
    cases hms
    obtain rfl : n = "k" := by simpa [kept] using hn
    obtain rfl | rfl : s = "lof" ∨ s = "parallel" := by simpa [kept] using hs
    · obtain rfl : j = c.density.toJson := by simpa using hj
      cases hns
      obtain rfl : x = .whole 5 (by decide) := by simpa [Json.ofWord, c] using hx
      exact Json.Number.number?_literal_whole _
    · obtain rfl : j = .bool c.parallel := by simpa using hj
      cases hns
  have hoverlay : c.overlay kept = { density := { neighbors := 5 }, parallel := false } := rfl
  have haccepted : (c.overlay kept).check = .ok () := by
    rw [hoverlay]
    rfl
  exact ((read?_of_edited hfinite hedited hreread (Json.read?_pretty _)).1 _).2
    ⟨haccepted, hoverlay.symm⟩

end Settings

end Ensemble

end LedgerWatch
