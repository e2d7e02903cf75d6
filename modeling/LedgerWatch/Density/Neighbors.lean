import LedgerWatch.Density.Heap
import LedgerWatch.Stats.Distance

namespace LedgerWatch.Density

/-- Keeps an entry among the `k` nearest of those seen so far. -/
def keep (k : Nat) (h : Heap) (e : Entry) : Heap :=
  if h.size < k then h.push e
  else
    match h[0]? with
    | none => h
    | some top => if e.distance < top.distance then h.pop.push e else h

/-- The other rows at their distances from row `i`, in row order. -/
def comparable (rows : List (List Float)) (i : Nat) : List Entry :=
  let point := (rows[i]?).getD []
  rows.zipIdx.filterMap fun (row, j) =>
    if j = i then none else (Stats.distance? point row).map fun d => ⟨d, j⟩

def nearest (rows : List (List Float)) (k i : Nat) : List Entry :=
  ((comparable rows i).foldl (keep k) (#[] : Heap)).toSortedList

end LedgerWatch.Density
