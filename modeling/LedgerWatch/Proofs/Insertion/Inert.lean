import LedgerWatch.Proofs.Features
import LedgerWatch.Proofs.Insertion.Position
import LedgerWatch.Stats.Distance

namespace LedgerWatch

/-- A record without numbers, without a group, and with an end of its transfer missing. -/
structure Record.IsInert (r : Record) : Prop where
  amount : r.amount? = none
  fraudScore : r.fraudScore? = none
  balance : r.balance? = none
  merchantCategory : r.merchantCategory? = none
  merchantState : r.merchantState? = none
  transactionType : r.transactionType? = none
  unlinked : r.customerId? = none ∨ r.merchantId? = none

def Blank (row : List Float) : Prop := ∀ x ∈ row, x.isNaN = true

theorem Record.IsInert.blank {r : Record} (h : r.IsInert) : Blank r.features := by
  intro x hx
  obtain ⟨f, -, rfl⟩ := List.mem_map.1 hx
  have hnone : r.feature? f = none := by
    cases f with
    | amount => exact h.amount
    | fraudScore => exact h.fraudScore
    | balance => exact h.balance
  rw [hnone]
  decide

namespace Blank

variable {row : List Float}

theorem any_eq_false (h : Blank row) : (row.any fun x => !x.isNaN) = false := by
  rw [List.any_eq_false]
  intro x hx
  rw [h x hx]
  decide

theorem isNaN_cell (h : Blank row) (j : Nat) : ((row[j]?).getD Binary64.nan).isNaN = true := by
  cases hx : row[j]? with
  | none => decide
  | some x => exact h x (List.mem_of_getElem? hx)

theorem shared_left (h : Blank row) (other : List Float) : Stats.shared row other = [] := by
  rw [Stats.shared, List.filter_eq_nil_iff]
  intro p hp
  rw [h p.1 (List.of_mem_zip hp).1, Bool.not_true, Bool.false_and]
  decide

theorem shared_right (h : Blank row) (other : List Float) : Stats.shared other row = [] := by
  rw [Stats.shared, List.filter_eq_nil_iff]
  intro p hp
  rw [h p.2 (List.of_mem_zip hp).2, Bool.not_true, Bool.and_false]
  decide

theorem squaredDistance?_left (h : Blank row) (other : List Float) :
    Stats.squaredDistance? row other = none := by
  simp only [Stats.squaredDistance?, h.shared_left, if_true]

theorem squaredDistance?_right (h : Blank row) (other : List Float) :
    Stats.squaredDistance? other row = none := by
  simp only [Stats.squaredDistance?, h.shared_right, if_true]

theorem rescale (h : Blank row) (summaries : List (Option (Stats.Summary Float))) :
    Blank (List.zipWith Stats.rescale summaries row) := by
  intro y hy
  rw [← List.map_uncurry_zip_eq_zipWith] at hy
  obtain ⟨⟨s, x⟩, hp, rfl⟩ := List.mem_map.1 hy
  have hx : x.isNaN = true := h x (List.of_mem_zip hp).2
  cases s with
  | none => exact hx
  | some s =>
    change (if x.isNaN = true then x else (x - s.mean) / Stats.scale s).isNaN = true
    rw [if_pos hx]
    exact hx

end Blank

/-- The second table is the first one with a row put in at position `k` that has no value. -/
structure BlankAt (k : Nat) (t t' : Table) : Prop where
  width : t'.width = t.width
  rows : ∃ row, Blank row ∧ Inserted k row t.rows.toList t'.rows.toList

namespace BlankAt

variable {k : Nat} {t t' : Table}

theorem height (h : BlankAt k t t') : t'.height = t.height + 1 := by
  obtain ⟨row, -, hrows⟩ := h.rows
  simpa [Table.height] using hrows.length_eq

theorem le_height (h : BlankAt k t t') : k ≤ t.height := by
  obtain ⟨row, -, hrows⟩ := h.rows
  simpa [Table.height] using hrows.le_length

theorem row_past (h : BlankAt k t t') (i : Nat) : t'.row (past k i) = t.row i := by
  obtain ⟨row, -, hrows⟩ := h.rows
  have hget := hrows.getElem?_past i
  simp only [Array.getElem?_toList] at hget
  rw [Table.row, Table.row, hget]

theorem blank_row (h : BlankAt k t t') : Blank (t'.row k) := by
  obtain ⟨row, hblank, hrows⟩ := h.rows
  have hget := hrows.getElem?_self
  rw [Array.getElem?_toList] at hget
  rw [Table.row, hget]
  exact hblank

theorem cell_past (h : BlankAt k t t') (i j : Nat) : t'.cell (past k i) j = t.cell i j := by
  rw [Table.cell, Table.cell, h.row_past]

theorem columnSummary? (h : BlankAt k t t') (j : Nat) :
    Stats.columnSummary? (t'.column j) = Stats.columnSummary? (t.column j) := by
  obtain ⟨row, hblank, hrows⟩ := h.rows
  have hcolumn := hrows.map fun r => (r[j]?).getD Binary64.nan
  have hpresent : Stats.present (t'.column j) = Stats.present (t.column j) := by
    apply hcolumn.filter
    simpa [Quantity.isMissing] using hblank.isNaN_cell j
  rw [Stats.columnSummary?, Stats.columnSummary?, hpresent]

theorem standardize (h : BlankAt k t t') : BlankAt k t.standardize t'.standardize := by
  obtain ⟨row, hblank, hrows⟩ := h.rows
  -- both tables are scaled by the summaries of the smaller one
  let summaries := (List.range t.width).map fun j => Stats.columnSummary? (t.column j)
  refine ⟨h.width, List.zipWith Stats.rescale summaries row, hblank.rescale summaries, ?_⟩
  simp only [Table.standardize, h.columnSummary?, h.width, Array.toList_map]
  exact hrows.map _

end BlankAt

variable {r : Record}

theorem blankAt_scaledFeatures (h : r.IsInert) (before after : List Record) (scaling : Scaling) :
    BlankAt before.length (scaledFeatures (before ++ after) scaling)
      (scaledFeatures (before ++ r :: after) scaling) := by
  have hraw : BlankAt before.length (featureTable (before ++ after))
      (featureTable (before ++ r :: after)) :=
    ⟨rfl, _, h.blank, (Inserted.intro before after r).map Record.features⟩
  cases scaling with
  | none => exact hraw
  | standard => exact hraw.standardize

end LedgerWatch
