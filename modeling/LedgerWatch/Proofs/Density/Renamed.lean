import LedgerWatch.Proofs.Density.Neighborhood
import LedgerWatch.Proofs.Finding.Subjects

namespace LedgerWatch.Density

/-- The same neighbor at its new position. -/
def Entry.renamed (place : Nat → Nat) (e : Entry) : Entry := { e with row := place e.row }

/-- Every row has the same neighbors as before, all of them at their new positions. -/
def SameNeighbors (c : Settings) (place : Nat → Nat) (rows rows' : List (List Float)) : Prop :=
  ∀ i, (c.near rows')[place i]? = ((c.near rows)[i]?).map (List.map (Entry.renamed place))

section Standings

variable {c : Settings} {place : Nat → Nat} {rows rows' : List (List Float)}

theorem farthestOf_map_renamed (place : Nat → Nat) (es : List Entry) :
    farthestOf (es.map (Entry.renamed place)) = farthestOf es := by
  simp only [farthestOf, List.getLast?_map, Option.map_map]
  rfl

namespace SameNeighbors

theorem getElem?_farthest (h : SameNeighbors c place rows rows') (i : Nat) :
    (c.farthest rows')[place i]? = (c.farthest rows)[i]? := by
  simp only [Settings.farthest, List.getElem?_toArray, List.getElem?_map, h i, Option.map_map,
    Function.comp_def, farthestOf_map_renamed]

theorem density?_map (h : SameNeighbors c place rows rows') (es : List Entry) :
    density? (c.farthest rows') (es.map (Entry.renamed place)) =
      density? (c.farthest rows) es := by
  have hreach : ∀ e : Entry,
      reach (c.farthest rows') (e.renamed place) = reach (c.farthest rows) e := by
    intro e
    simp only [reach, Entry.renamed, h.getElem?_farthest]
  simp only [density?, List.isEmpty_map, List.map_map, Function.comp_def, hreach]

theorem getElem?_densities (h : SameNeighbors c place rows rows') (i : Nat) :
    (c.densities rows')[place i]? = (c.densities rows)[i]? := by
  simp only [Settings.densities, List.getElem?_toArray, List.getElem?_map, h i, Option.map_map,
    Function.comp_def, h.density?_map]

theorem standing_map (h : SameNeighbors c place rows rows') (es : List Entry) :
    c.standing rows' (es.map (Entry.renamed place)) = c.standing rows es := by
  have hfactor : ∀ own, factor? (c.densities rows') (es.map (Entry.renamed place)) own =
      factor? (c.densities rows) es own := by
    intro own
    simp only [factor?, List.filterMap_map, Function.comp_def, Entry.renamed,
      h.getElem?_densities]
  simp only [Settings.standing, hfactor, h.density?_map, farthestOf_map_renamed, List.length_map]

theorem getElem?_standings (h : SameNeighbors c place rows rows') (i : Nat) :
    (c.standings rows')[place i]? = (c.standings rows)[i]? := by
  rw [standings_eq, standings_eq, List.getElem?_map, List.getElem?_map, h i, Option.map_map]
  congr 1
  funext es
  exact h.standing_map es

end SameNeighbors

end Standings

theorem finding?_reindex (c : Settings) (bands : Bands) (place : Nat → Nat) (i : Nat)
    (s : Standing) :
    c.finding? bands (place i) s = (c.finding? bands i s).map (Finding.reindex place) := by
  unfold Settings.finding?
  cases s.factor with
  | none => rfl
  | some factor =>
    simp only [bind, Option.bind_some]
    split <;> rfl

end LedgerWatch.Density
