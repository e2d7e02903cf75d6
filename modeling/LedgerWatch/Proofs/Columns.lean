import LedgerWatch.Proofs.Presence
import LedgerWatch.Proofs.Stats.Standardized

namespace LedgerWatch.Table

open Exact

variable {t : Table} {i j : ℕ}

theorem column_standardize (h : t.Regular) (hj : j < t.width) :
    t.standardize.column j = Stats.standardizeColumn (t.column j) := by
  rw [column, toList_rows_standardize, List.map_map, Stats.standardizeColumn]
  conv_rhs => rw [column, List.map_map]
  apply List.map_congr_left
  intro row hrow
  have hj' : j < row.length := (h row hrow).symm ▸ hj
  have hsummary : t.summaries[j]? = some (Stats.columnSummary? (t.column j)) := by
    simp [summaries, hj]
  rw [Function.comp, Function.comp, List.getElem?_zipWith, hsummary,
    List.getElem?_eq_getElem hj']
  rfl

theorem column_standardize_of_missing (h : t.Regular) (hj : j < t.width)
    (hmissing : ∀ x ∈ t.column j, x.isNaN = true) :
    t.standardize.column j = t.column j := by
  rw [column_standardize h hj, Stats.standardizeColumn]
  exact (List.map_congr_left fun x hx => Stats.rescale_of_isNaN (hmissing x hx) _).trans
    (List.map_id _)

/-- Whether a cell is missing, read off the cells that the rows have. -/
theorem isNaN_cell (t : Table) (i j : ℕ) : (t.cell i j).isNaN =
    !((((t.rows.toList.map Stats.presence)[i]?).getD [])[j]?).getD false := by
  have hnan : Binary64.nan.isNaN = true := by decide
  rw [List.getElem?_map, cell, row, ← Array.getElem?_toList]
  cases t.rows.toList[i]? with
  | none => exact hnan
  | some row =>
    rw [Option.map_some, Option.getD_some, Option.getD_some, Stats.presence, List.getElem?_map]
    cases row[j]? with
    | none => exact hnan
    | some x => exact (Bool.not_not _).symm

theorem isNaN_cell_standardize (h : t.Regular) (hm : t.Measured) (i j : ℕ) :
    (t.standardize.cell i j).isNaN = (t.cell i j).isNaN := by
  rw [isNaN_cell, isNaN_cell, presence_standardize h hm]

/-- A standardized table is as large as the table was, and its cells are finite or missing as they
were. Each column is standardized without regard to the others, and one without a value is left as
it is. Without rounding the values that are present in a column keep their order; they have mean
zero and variance one afterwards, or are moved by their mean alone where they have no spread. -/
theorem standardize_by_columns :
    (∀ t : Table, t.Regular → t.Measured →
      (t.standardize.width = t.width ∧ t.standardize.height = t.height ∧
        t.standardize.Regular) ∧
      t.standardize.Measured ∧
      (∀ i j, (t.standardize.cell i j).isNaN = (t.cell i j).isNaN) ∧
      ∀ j < t.width, t.standardize.column j = Stats.standardizeColumn (t.column j) ∧
        ((∀ x ∈ t.column j, x.isNaN = true) → t.standardize.column j = t.column j)) ∧
    ∀ column : List (Option ℝ), column.reduceOption ≠ [] →
      ∃ f : ℝ → ℝ, StrictMono f ∧
        Stats.standardizeColumn column = column.map (Option.map f) ∧
        Stats.average (Stats.standardizeColumn column).reduceOption = 0 ∧
        if Stats.isDegenerate √(Stats.variance column.reduceOption)
            (Stats.average column.reduceOption) = true then
          ∀ x, f x = x - Stats.average column.reduceOption
        else Stats.variance (Stats.standardizeColumn column).reduceOption = 1 := by
  constructor
  · intro t h hm
    exact ⟨⟨rfl, Array.size_map, h.standardize⟩, hm.standardize, isNaN_cell_standardize h hm,
      fun j hj => ⟨column_standardize h hj, column_standardize_of_missing h hj⟩⟩
  · intro column hne
    have hcolumn := Stats.standardizeColumn_eq hne
    have hpresent : (Stats.standardizeColumn column).reduceOption =
        column.reduceOption.map (Stats.standardized column.reduceOption) := by
      rw [hcolumn, List.reduceOption_map]
    refine ⟨_, Stats.strictMono_standardized _, hcolumn, ?_, ?_⟩
    · rw [hpresent]
      exact Stats.average_standardized hne
    · split
      · rename_i hflat
        exact Stats.standardized_of_flat hflat
      · rename_i hspread
        rw [hpresent]
        exact Stats.variance_standardized hne (Bool.eq_false_iff.2 hspread)

/-- Three rows of two columns: one with a spread, and one of equal values with a gap. -/
theorem standardize_by_columns_gap :
    let t : Table := ⟨2, #[[1, 5], [3, Binary64.nan], [5, 5]]⟩
    t.Regular ∧ t.Measured ∧ (t.standardize.cell 1 1).isNaN = true ∧
      (t.standardize.cell 2 1).isNaN = false ∧
      Stats.variance (Stats.standardizeColumn [some (1 : ℝ), some 3, some 5]).reduceOption = 1 ∧
      Stats.standardizeColumn [some (5 : ℝ), none, some 5] = [some 0, none, some 0] := by
  intro t
  obtain ⟨htables, hexact⟩ := standardize_by_columns
  have hregular : t.Regular := by
    unfold Regular
    decide
  have hmeasured : t.Measured := by
    unfold Measured
    decide
  obtain ⟨-, -, hmissing, -⟩ := htables t hregular hmeasured
  refine ⟨hregular, hmeasured, (hmissing 1 1).trans (by decide), (hmissing 2 1).trans (by decide),
    ?_, ?_⟩
  · obtain ⟨f, -, -, -, hspread⟩ := hexact [some 1, some 3, some 5] (List.cons_ne_nil _ _)
    rwa [if_neg] at hspread
    have haverage : Stats.average [(1 : ℝ), 3, 5] = 3 := by norm_num [Stats.average]
    have hvariance : Stats.variance [(1 : ℝ), 3, 5] = 8 / 3 := by
      norm_num [Stats.variance, Stats.deviation, haverage]
    change ¬Stats.isDegenerate √(Stats.variance [(1 : ℝ), 3, 5]) (Stats.average [1, 3, 5]) = true
    rw [Stats.isDegenerate_iff, not_le, hvariance, haverage]
    apply Real.lt_sqrt_of_sq_lt
    norm_num
  · obtain ⟨f, -, hcolumn, -, hflat⟩ := hexact [some 5, none, some 5] (List.cons_ne_nil _ _)
    have haverage : Stats.average [(5 : ℝ), 5] = 5 := by norm_num [Stats.average]
    have hvariance : Stats.variance [(5 : ℝ), 5] = 0 := Stats.variance_eq_zero (c := 5) (by simp)
    rw [if_pos] at hflat
    · have hzero : f 5 = 0 := (hflat 5).trans (by
        change (5 : ℝ) - Stats.average [5, 5] = 0
        rw [haverage, sub_self])
      rw [hcolumn]
      simp [hzero]
    · change Stats.isDegenerate √(Stats.variance [(5 : ℝ), 5]) (Stats.average [5, 5]) = true
      rw [hvariance, Real.sqrt_zero]
      exact Stats.isDegenerate_zero _

end LedgerWatch.Table
