import LedgerWatch.Proofs.Density.Findings
import LedgerWatch.Proofs.Density.Renamed
import LedgerWatch.Proofs.Insertion.Inert

namespace LedgerWatch.Density

section Neighbors

variable {k : Nat} {row : List Float} {rows rows' : List (List Float)}

theorem comparable_past (hrow : Blank row) (h : Inserted k row rows rows') (i : Nat) :
    comparable rows' (past k i) = (comparable rows i).map (Entry.renamed (past k)) := by
  simp only [comparable, h.getElem?_past]
  apply h.filterMap_zipIdx_map
  · rw [if_neg (past_ne k i).symm, Stats.distance?, hrow.squaredDistance?_right]
    rfl
  · intro other j
    simp only [(past_injective k).eq_iff]
    split
    · rfl
    · rw [Option.map_map]
      rfl

theorem comparable_self (hrow : Blank row) (h : Inserted k row rows rows') :
    comparable rows' k = [] := by
  simp only [comparable, h.getElem?_self, Option.getD_some]
  apply List.filterMap_eq_nil_iff.2
  intro m _
  simp only [Stats.distance?, hrow.squaredDistance?_left]
  split <;> rfl

/-- One more neighbor may be wanted than before, but there is no row that it could be. -/
theorem foldl_keep_wanted (c : Settings) {i : Nat} (hi : i < rows.length) :
    (comparable rows i).foldl (keep (c.wanted (rows.length + 1))) #[] =
      (comparable rows i).foldl (keep (c.wanted rows.length)) #[] := by
  have hlen := length_comparable_le hi
  unfold Settings.wanted
  by_cases hcapped : c.neighbors.toNat ≤ rows.length - 1
  · rw [Nat.min_eq_left hcapped, Nat.min_eq_left (by omega)]
  · -- both bounds are above the number of rows there are to compare with
    rw [Nat.min_eq_right (by omega : rows.length - 1 ≤ c.neighbors.toNat)]
    apply foldl_keep_of_room
    · simp only [List.size_toArray, List.length_nil]
      omega
    · simp only [List.size_toArray, List.length_nil]
      omega

theorem nearest_past (c : Settings) (hrow : Blank row) (h : Inserted k row rows rows') {i : Nat}
    (hi : i < rows.length) :
    nearest rows' (c.wanted rows'.length) (past k i) =
      (nearest rows (c.wanted rows.length) i).map (Entry.renamed (past k)) := by
  have hdistance : ∀ e : Entry, (e.renamed (past k)).distance = e.distance := fun _ => rfl
  have hmoved := Heap.foldl_keep_map hdistance (c.wanted (rows.length + 1)) (comparable rows i) #[]
  rw [nearest, nearest, h.length_eq, comparable_past hrow h, ← foldl_keep_wanted c hi,
    ← Heap.toSortedList_map hdistance, ← hmoved, Array.map_empty]

theorem near_inserted (c : Settings) (hrow : Blank row) (h : Inserted k row rows rows') :
    Inserted k [] ((c.near rows).map (List.map (Entry.renamed (past k)))) (c.near rows') := by
  have hnear := (Inserted.range h.le_length).map (nearest rows' (c.wanted rows'.length))
  rw [nearest_eq_nil (comparable_self hrow h), List.map_map, ← h.length_eq] at hnear
  have hold : (List.range rows.length).map (nearest rows' (c.wanted rows'.length) ∘ past k) =
      (c.near rows).map (List.map (Entry.renamed (past k))) := by
    rw [Settings.near, List.map_map]
    apply List.map_congr_left
    intro i hi
    exact nearest_past c hrow h (List.mem_range.1 hi)
  rw [hold] at hnear
  exact hnear

end Neighbors

section Standings

variable {k : Nat} {row : List Float} {rows rows' : List (List Float)}

theorem sameNeighbors_inserted (c : Settings) (hrow : Blank row) (h : Inserted k row rows rows') :
    SameNeighbors c (past k) rows rows' := by
  intro i
  rw [(near_inserted c hrow h).getElem?_past, List.getElem?_map]

theorem standings_inserted (c : Settings) (hrow : Blank row) (h : Inserted k row rows rows') :
    Inserted k ⟨none, none, none, 0⟩ (c.standings rows) (c.standings rows') := by
  have hstandings := (near_inserted c hrow h).map (c.standing rows')
  rw [standing_nil, List.map_map, show c.standing rows' ∘ List.map (Entry.renamed (past k)) =
    c.standing rows from funext (sameNeighbors_inserted c hrow h).standing_map] at hstandings
  rw [standings_eq, standings_eq]
  exact hstandings

end Standings

theorem detect_inserted {c : Settings} (hc : c.check = .ok ()) (scaling : Scaling) (bands : Bands)
    {r : Record} (hr : r.IsInert) (before after : List Record) :
    c.detect scaling bands (before ++ r :: after) =
      (c.detect scaling bands (before ++ after)).reindex (past before.length) := by
  obtain ⟨row, hrow, hrows⟩ := (blankAt_scaledFeatures hr before after scaling).rows
  rw [detect_eq hc, detect_eq hc, Outcome.reindex]
  congr 1
  apply (standings_inserted c hrow hrows).filterMap_zipIdx_map
  · rfl
  · intro s i
    exact finding?_reindex c bands (past before.length) i s

end LedgerWatch.Density
