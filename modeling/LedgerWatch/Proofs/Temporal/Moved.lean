import LedgerWatch.Proofs.Finding.Subjects
import LedgerWatch.Proofs.Groups
import LedgerWatch.Temporal.Series

namespace LedgerWatch.Temporal

variable {place : Nat → Nat}

def Point.moved (place : Nat → Nat) (p : Point) : Point := { p with record := place p.record }

variable (place) in
theorem point?_moved (r : Record) (i : Nat) :
    point? (r, place i) = (point? (r, i)).map (Point.moved place) := by
  unfold point?
  cases r.transactionDate? with
  | none => rfl
  | some date => cases r.amount? <;> rfl

theorem mergeSort_map_moved (points : List Point) :
    (points.map (Point.moved place)).mergeSort (fun p q => p.date.rank ≤ q.date.rank) =
      (points.mergeSort fun p q => p.date.rank ≤ q.date.rank).map (Point.moved place) := by
  refine (List.map_mergeSort ?_).symm
  intro p _ q _
  rfl

section Passes

variable (c : Settings) (bands : Bands) (points : List Point)

theorem amount_moved (p : Point) : (p.moved place).amount = p.amount := rfl

theorem amount_comp_moved : Point.amount ∘ Point.moved place = Point.amount := rfl

theorem finding_moved (p : Point) (z : Float) (evidence : Evidence) :
    c.finding bands (p.moved place) z evidence =
      (c.finding bands p z evidence).reindex place := rfl

theorem rolling?_map_moved (window : List Point) (p : Point) :
    c.rolling? bands (window.map (Point.moved place)) (p.moved place) =
      (c.rolling? bands window p).map (Finding.reindex place) := by
  simp only [Settings.rolling?, List.map_map, amount_comp_moved]
  cases Stats.summarize? (window.map Point.amount) with
  | none => rfl
  | some stats =>
    simp only [bind, Option.bind_some, Option.map_bind]
    congr 1
    funext z
    simp only [Function.comp]
    split <;> rfl

theorem windows_map_moved (w : Nat) :
    windows w (points.map (Point.moved place)) =
      (windows w points).map fun v => (v.1.map (Point.moved place), v.2.moved place) := by
  simp only [windows, ← List.map_drop, List.zipIdx_map, List.map_map, ← List.map_take]
  rfl

theorem rolling_map_moved :
    c.rolling bands (points.map (Point.moved place)) =
      (c.rolling bands points).map (Finding.reindex place) := by
  rw [Settings.rolling, windows_map_moved, List.filterMap_map, Settings.rolling,
    List.map_filterMap]
  congr 1
  funext v
  exact rolling?_map_moved c bands v.1 v.2

theorem seasonal?_moved (month : Nat) (p : Point) (baseline : Option (Stats.Summary Float)) :
    c.seasonal? bands month (p.moved place) baseline =
      (c.seasonal? bands month p baseline).map (Finding.reindex place) := by
  unfold Settings.seasonal?
  cases baseline with
  | none => rfl
  | some stats =>
    simp only [bind, Option.bind_some, Option.map_bind]
    congr 1
    funext z
    simp only [Function.comp]
    split <;> rfl

theorem monthFindings_map_moved (month : Nat × List Point) :
    c.monthFindings bands (month.1, month.2.map (Point.moved place)) =
      (c.monthFindings bands month).map (Finding.reindex place) := by
  simp only [Settings.monthFindings, List.map_map, amount_comp_moved]
  cases Stats.PeerStats.ofValues? (month.2.map Point.amount) with
  | none => rfl
  | some peers =>
    simp only [List.zip_map_left, List.filterMap_map, List.map_filterMap]
    congr 1
    funext p
    exact seasonal?_moved c bands month.1 p.1 p.2

theorem seasonal_map_moved :
    c.seasonal bands (points.map (Point.moved place)) =
      (c.seasonal bands points).map (Finding.reindex place) := by
  rw [Settings.seasonal, Sorted.groupBy_map, List.flatMap_map, Settings.seasonal,
    List.map_flatMap]
  congr 1
  funext month
  exact monthFindings_map_moved c bands month

theorem trend?_map_moved : trend? (points.map (Point.moved place)) = trend? points := by
  simp only [trend?, List.map_map, amount_comp_moved]

theorem trend_map_moved :
    c.trend bands (points.map (Point.moved place)) =
      (c.trend bands points).map (Finding.reindex place) := by
  simp only [Settings.trend, trend?_map_moved]
  cases trend? points with
  | none => rfl
  | some fitted =>
    simp only [List.zipIdx_map, List.filterMap_map, List.map_filterMap]
    congr 1
    funext p
    simp only [Function.comp, Prod.map, id, amount_moved, finding_moved]
    rw [apply_ite (Option.map (Finding.reindex place))]
    rfl

theorem passes_map_moved :
    c.rolling bands (points.map (Point.moved place)) ++
        c.seasonal bands (points.map (Point.moved place)) ++
        c.trend bands (points.map (Point.moved place)) =
      (c.rolling bands points ++ c.seasonal bands points ++ c.trend bands points).map
        (Finding.reindex place) := by
  rw [rolling_map_moved, seasonal_map_moved, trend_map_moved, List.map_append, List.map_append]

end Passes

end LedgerWatch.Temporal
