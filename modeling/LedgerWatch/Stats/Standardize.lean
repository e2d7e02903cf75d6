import LedgerWatch.Stats.Summary

namespace LedgerWatch.Stats

variable {α : Type} [Quantity α]

@[specialize] def present (column : List α) : List α :=
  column.filter fun x => !Quantity.isMissing x

/-- What the deviations of a column are divided by. -/
@[specialize] def scale (s : Summary α) : α :=
  if s.isFlat then Quantity.ofNat 1 else s.std

@[specialize] def columnSummary? (column : List α) : Option (Summary α) :=
  summarize? (present column)

/-- A cell of a column with a given summary; a column that has none stays as it is. -/
@[specialize] def rescale (s : Option (Summary α)) (x : α) : α :=
  match s with
  | none => x
  | some s => if Quantity.isMissing x then x else (x - s.mean) / scale s

@[specialize] def standardizeColumn (column : List α) : List α :=
  column.map (rescale (columnSummary? column))

end LedgerWatch.Stats
