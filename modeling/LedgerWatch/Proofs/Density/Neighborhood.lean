import LedgerWatch.Density.LocalOutlier
import LedgerWatch.Proofs.Density.HeapContent
import LedgerWatch.Proofs.Lists
import Mathlib.Data.List.Perm.Subperm

namespace LedgerWatch.Density

theorem mem_comparable_iff {rows : List (List Float)} {i : Nat} {e : Entry} :
    e ∈ comparable rows i ↔ e.row ≠ i ∧
      ∃ row, rows[e.row]? = some row ∧
        Stats.distance? ((rows[i]?).getD []) row = some e.distance := by
  simp only [comparable, List.mem_filterMap]
  constructor
  · rintro ⟨⟨row, j⟩, hj, he⟩
    split at he
    · cases he
    · rename_i hne
      obtain ⟨d, hd, rfl⟩ := Option.map_eq_some_iff.1 he
      exact ⟨hne, row, List.mem_zipIdx_iff_getElem?.1 hj, hd⟩
  · rintro ⟨hne, row, hrow, hd⟩
    refine ⟨(row, e.row), List.mem_zipIdx_iff_getElem?.2 hrow, ?_⟩
    rw [if_neg hne, hd]
    rfl

theorem lt_of_mem_comparable {rows : List (List Float)} {i : Nat} {e : Entry}
    (he : e ∈ comparable rows i) : e.row < rows.length ∧ e.row ≠ i := by
  obtain ⟨hne, row, hrow, -⟩ := mem_comparable_iff.1 he
  exact ⟨(List.getElem?_eq_some_iff.1 hrow).1, hne⟩

theorem nodup_comparable (rows : List (List Float)) (i : Nat) :
    ((comparable rows i).map Entry.row).Nodup := by
  apply Lists.nodup_filterMap_zipIdx
  intro row j e he
  simp only at he
  split at he
  · cases he
  · obtain ⟨d, -, rfl⟩ := Option.map_eq_some_iff.1 he
    rfl

theorem length_comparable_le {rows : List (List Float)} {i : Nat} (hi : i < rows.length) :
    (comparable rows i).length ≤ rows.length - 1 := by
  -- counted without repetition among all rows but the one itself
  have hsub : (comparable rows i).map Entry.row ⊆ (List.range rows.length).erase i := by
    intro j hj
    obtain ⟨e, he, rfl⟩ := List.mem_map.1 hj
    obtain ⟨hlt, hne⟩ := lt_of_mem_comparable he
    exact (List.mem_erase_of_ne hne).2 (List.mem_range.2 hlt)
  have hle := (List.subperm_of_subset (nodup_comparable rows i) hsub).length_le
  rwa [List.length_map, List.length_erase_of_mem (List.mem_range.2 hi), List.length_range] at hle

theorem mem_comparable_of_mem_nearest {rows : List (List Float)} {k i : Nat} {e : Entry}
    (he : e ∈ nearest rows k i) : e ∈ comparable rows i := by
  have hmem := (Heap.toSortedList_perm _).mem_iff.1 he
  rcases mem_of_mem_foldl_keep (Array.mem_toList_iff.1 hmem) with h | h
  · simp at h
  · exact h

theorem lt_of_mem_nearest {rows : List (List Float)} {k i : Nat} {e : Entry}
    (he : e ∈ nearest rows k i) : e.row < rows.length ∧ e.row ≠ i :=
  lt_of_mem_comparable (mem_comparable_of_mem_nearest he)

theorem nearest_eq_nil {rows : List (List Float)} {i : Nat} (h : comparable rows i = [])
    (k : Nat) : nearest rows k i = [] := by
  rw [nearest, h]
  rfl

section Standings

variable (c : Settings) (rows : List (List Float))

def Settings.near : List (List Entry) :=
  (List.range rows.length).map (nearest rows (c.wanted rows.length))

def farthestOf (es : List Entry) : Option Float := es.getLast?.map Entry.distance

def Settings.farthest : Array (Option Float) := ((c.near rows).map farthestOf).toArray

def Settings.densities : Array (Option Float) :=
  ((c.near rows).map (density? (c.farthest rows))).toArray

def Settings.standing (es : List Entry) : Standing :=
  ⟨factor? (c.densities rows) es (density? (c.farthest rows) es),
    density? (c.farthest rows) es, farthestOf es, es.length⟩

theorem standing_nil : c.standing rows [] = ⟨none, none, none, 0⟩ := rfl

/-- A single row needs no rule of its own: it has no other row to be compared with. -/
theorem standings_eq : c.standings rows = (c.near rows).map (c.standing rows) := by
  unfold Settings.standings
  by_cases hfew : rows.length < 2
  · have hnone : ∀ i ∈ List.range rows.length,
        (c.standing rows ∘ nearest rows (c.wanted rows.length)) i = ⟨none, none, none, 0⟩ := by
      intro i hi
      have hlen := length_comparable_le (List.mem_range.1 hi)
      have hnil : comparable rows i = [] := List.length_eq_zero_iff.1 (by omega)
      rw [Function.comp, nearest_eq_nil hnil, standing_nil]
    rw [if_pos hfew, Settings.near, List.map_map, List.map_congr_left hnone, List.map_const',
      List.map_const', List.length_range]
  · rw [if_neg hfew]
    change List.zipWith _ (c.near rows) (List.zip ((c.near rows).map farthestOf)
      ((c.near rows).map (density? (c.farthest rows)))) = _
    rw [List.zip_map', List.zipWith_map_right, List.zipWith_self]
    rfl

end Standings

end LedgerWatch.Density
