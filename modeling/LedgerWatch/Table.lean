import LedgerWatch.Fault
import LedgerWatch.Stats.Standardize

namespace LedgerWatch

structure Table where
  width : Nat
  rows : Array (List Float)

namespace Table

def height (t : Table) : Nat := t.rows.size

def row (t : Table) (i : Nat) : List Float := (t.rows[i]?).getD []

def cell (t : Table) (i j : Nat) : Float := ((t.row i)[j]?).getD Binary64.nan

def column (t : Table) (j : Nat) : List Float :=
  t.rows.toList.map fun r => (r[j]?).getD Binary64.nan

/-- A list cut into rows of one width. -/
def chunks (width : Nat) : Nat → List Float → List (List Float)
  | 0, _ => []
  | height + 1, values => values.take width :: chunks width height (values.drop width)

/-- A table of given size; there must be exactly as many values as cells. -/
def ofValues? (height width : Nat) (values : List Float) : Except Fault Table :=
  if values.length < height * width then
    .error (.shape "valid shape" "ShapeError/OutOfBounds: out of bounds indexing")
  else if height * width < values.length then
    .error (.shape "valid shape" "ShapeError/IncompatibleShape: incompatible shapes")
  else .ok ⟨width, (chunks width height values).toArray⟩

/-- A table as wide as the first row. -/
def ofRows? (rows : List (List Float)) : Except Fault Table :=
  ofValues? rows.length (rows.headD []).length rows.flatten

def standardize (t : Table) : Table :=
  let summaries := (List.range t.width).map fun j => Stats.columnSummary? (t.column j)
  { t with rows := t.rows.map (List.zipWith Stats.rescale summaries) }

end Table

end LedgerWatch
