import LedgerWatch.Proofs.Features
import LedgerWatch.Proofs.Stats.Distances
import LedgerWatch.Proofs.Stats.Spread

namespace LedgerWatch

open Binary64

namespace Stats

variable {column xs : List Float} {s : Summary Float} {x : Float}

theorem rescale_of_isNaN (hx : x.isNaN = true) (s : Option (Summary Float)) :
    rescale s x = x := by
  cases s with
  | none => rfl
  | some s => exact if_pos hx

theorem scale_away_from_zero (hs : summarize? xs = some s) :
    (scale s).isFinite = true ∧ 2 ^ (-30 : ℤ) ≤ |value (scale s)| := by
  unfold scale
  split
  · refine ⟨rfl, ?_⟩
    change (2 : ℝ) ^ (-30 : ℤ) ≤ |value 1|
    rw [value_one]
    norm_num
  · rename_i hflat
    have hspread := spread_of_summarize? hs (Bool.eq_false_iff.2 hflat)
    exact ⟨hspread.std.isFinite, hspread.le_std.trans (le_abs_self _)⟩

theorem isFinite_rescale (hmem : x ∈ column) (hx : x.isFinite = true) :
    (rescale (columnSummary? column) x).isFinite = true := by
  have hnan := not_isNaN_of_isFinite hx
  cases hs : columnSummary? column with
  | none => exact hx
  | some s =>
    have hpresent : x ∈ present column := by
      refine List.mem_filter.2 ⟨hmem, ?_⟩
      change (!x.isNaN) = true
      rw [hnan]
      rfl
    have hdeviation := (summarized_of_summarize? hs).deviation x hpresent
    obtain ⟨hfinite, hle⟩ := scale_away_from_zero hs
    change (if x.isNaN = true then x else (x - s.mean) / scale s).isFinite = true
    rw [hnan, if_neg Bool.false_ne_true]
    exact (hdeviation.div hfinite hle (by decide)).isFinite

end Stats

namespace Table

variable {t : Table} {row : List Float}

def Measured (t : Table) : Prop := ∀ row ∈ t.rows.toList, Stats.Measured row

def summaries (t : Table) : List (Option (Stats.Summary Float)) :=
  (List.range t.width).map fun j => Stats.columnSummary? (t.column j)

theorem toList_rows_standardize (t : Table) :
    t.standardize.rows.toList = t.rows.toList.map (List.zipWith Stats.rescale t.summaries) := by
  rw [standardize, Array.toList_map]
  rfl

theorem mem_column (hrow : row ∈ t.rows.toList) {j : ℕ} (hj : j < row.length) :
    row[j] ∈ t.column j := by
  refine List.mem_map.2 ⟨row, hrow, ?_⟩
  rw [List.getElem?_eq_getElem hj]
  rfl

/-- A cell that is present stays finite, and one that is missing stays missing. -/
theorem rescaled_cell (hm : t.Measured) (hrow : row ∈ t.rows.toList) {j : ℕ} (hj : j < row.length) :
    (Stats.rescale (Stats.columnSummary? (t.column j)) row[j]).isFinite = true ∧
        row[j].isNaN = false ∨
      (Stats.rescale (Stats.columnSummary? (t.column j)) row[j]).isNaN = true ∧
        row[j].isNaN = true := by
  rcases hm row hrow row[j] (List.getElem_mem hj) with hfinite | hnan
  · exact .inl ⟨Stats.isFinite_rescale (mem_column hrow hj) hfinite, not_isNaN_of_isFinite hfinite⟩
  · rw [Stats.rescale_of_isNaN hnan]
    exact .inr ⟨hnan, hnan⟩

theorem presence_rescaled (h : t.Regular) (hm : t.Measured) (hrow : row ∈ t.rows.toList) :
    Stats.presence (List.zipWith Stats.rescale t.summaries row) = Stats.presence row := by
  have hlen := h row hrow
  apply List.ext_getElem
  · simp [Stats.presence, summaries, hlen]
  · intro j _ hj
    have hj' : j < row.length := by simpa [Stats.presence] using hj
    simp only [Stats.presence, summaries, List.getElem_map, List.getElem_zipWith,
      List.getElem_range]
    rcases rescaled_cell hm hrow hj' with ⟨hfinite, hpresent⟩ | ⟨hnan, hmissing⟩
    · rw [not_isNaN_of_isFinite hfinite, hpresent]
    · rw [hnan, hmissing]

theorem Measured.standardize (hm : t.Measured) : t.standardize.Measured := by
  intro scaled hscaled x hx
  rw [toList_rows_standardize] at hscaled
  obtain ⟨row, hrow, rfl⟩ := List.mem_map.1 hscaled
  obtain ⟨j, hj, rfl⟩ := List.mem_iff_getElem.1 hx
  have hj' : j < row.length := by
    simp only [List.length_zipWith] at hj
    omega
  simp only [summaries, List.getElem_map, List.getElem_zipWith, List.getElem_range]
  exact (rescaled_cell hm hrow hj').imp And.left And.left

theorem presence_standardize (h : t.Regular) (hm : t.Measured) :
    t.standardize.rows.toList.map Stats.presence = t.rows.toList.map Stats.presence := by
  rw [toList_rows_standardize, List.map_map]
  exact List.map_congr_left fun row hrow => presence_rescaled h hm hrow

end Table

def Record.presence (r : Record) : List Bool := Feature.all.map fun f => (r.feature? f).isSome

def Record.sharesFeature (r r' : Record) : Bool :=
  Feature.all.any fun f => (r.feature? f).isSome && (r'.feature? f).isSome

section Records

variable {r r' : Record}

theorem isFinite_of_feature? {f : Feature} {x : Float} (h : r.feature? f = some x) :
    x.isFinite = true :=
  (Option.filter_eq_some_iff.1 h).2

theorem measured_features (r : Record) : Stats.Measured r.features := by
  intro x hx
  obtain ⟨f, -, rfl⟩ := List.mem_map.1 hx
  cases hf : r.feature? f with
  | none => exact .inr (by decide)
  | some x => exact .inl (isFinite_of_feature? hf)

theorem presence_features (r : Record) : Stats.presence r.features = r.presence := by
  rw [Stats.presence, Record.features, List.map_map, Record.presence]
  apply List.map_congr_left
  intro f _
  rw [Function.comp]
  cases hf : r.feature? f with
  | none => decide
  | some x =>
    rw [Option.getD_some, not_isNaN_of_isFinite (isFinite_of_feature? hf)]
    rfl

theorem measured_featureTable (records : List Record) : (featureTable records).Measured := by
  intro row hrow
  simp only [featureTable, List.mem_map] at hrow
  obtain ⟨r, -, rfl⟩ := hrow
  exact measured_features r

theorem measured_scaledFeatures (records : List Record) (scaling : Scaling) :
    (scaledFeatures records scaling).Measured := by
  cases scaling with
  | none => exact measured_featureTable records
  | standard => exact (measured_featureTable records).standardize

/-- Whatever is done to the features, a row has those that its record has. -/
theorem presence_scaledFeatures (records : List Record) (scaling : Scaling) :
    (scaledFeatures records scaling).rows.toList.map Stats.presence =
      records.map Record.presence := by
  have hraw : (featureTable records).rows.toList.map Stats.presence =
      records.map Record.presence := by
    rw [featureTable, List.map_map]
    exact List.map_congr_left fun r _ => presence_features r
  cases scaling with
  | none => exact hraw
  | standard =>
    exact (Table.presence_standardize (regular_featureTable records)
      (measured_featureTable records)).trans hraw

end Records

end LedgerWatch
