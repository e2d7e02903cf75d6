import LedgerWatch.Record.Features

namespace LedgerWatch

def Table.Regular (t : Table) : Prop := ∀ row ∈ t.rows.toList, row.length = t.width

theorem regular_featureTable (records : List Record) : (featureTable records).Regular := by
  intro row hrow
  simp only [featureTable, List.mem_map] at hrow
  obtain ⟨r, -, rfl⟩ := hrow
  simp [featureTable, Record.features]

theorem Table.Regular.standardize {t : Table} (h : t.Regular) : t.standardize.Regular := by
  intro row hrow
  simp only [Table.standardize, Array.toList_map, List.mem_map] at hrow
  obtain ⟨raw, hraw, rfl⟩ := hrow
  simp [Table.standardize, h raw hraw]

theorem regular_scaledFeatures (records : List Record) (scaling : Scaling) :
    (scaledFeatures records scaling).Regular := by
  cases scaling with
  | none => exact regular_featureTable records
  | standard => exact (regular_featureTable records).standardize

theorem height_scaledFeatures (records : List Record) (scaling : Scaling) :
    (scaledFeatures records scaling).rows.toList.length = records.length := by
  cases scaling <;> simp [scaledFeatures, featureTable, Table.standardize]

end LedgerWatch
