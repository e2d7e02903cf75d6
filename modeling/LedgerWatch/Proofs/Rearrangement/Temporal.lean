import LedgerWatch.Finding.Json
import LedgerWatch.Proofs.Rearrangement.Members
import LedgerWatch.Proofs.Temporal.Chronology
import LedgerWatch.Proofs.Temporal.Findings
import LedgerWatch.Proofs.Temporal.Moved

namespace LedgerWatch.Temporal

/-- The date of a record that is a point of a series. -/
def pointDate? (r : Record) : Option Moment := do
  let date ← r.transactionDate?
  let _ ← r.amount?
  return date

def dates (records : List Record) : List Moment := records.filterMap pointDate?

section Dates

variable {records : List Record}

theorem date_of_point? (m : Record × Nat) : (point? m).map Point.date = pointDate? m.1 := by
  unfold point? pointDate?
  cases m.1.transactionDate? with
  | none => rfl
  | some date => cases m.1.amount? <;> rfl

theorem map_date_points (records : List Record) :
    (records.zipIdx.filterMap point?).map Point.date = dates records := by
  rw [List.map_filterMap, dates]
  conv_rhs => rw [← List.zipIdx_map_fst 0 records, List.filterMap_map]
  congr 1
  funext m
  exact date_of_point? m

/-- Two points of one rank are one and the same where all dates differ. -/
theorem eq_of_rank_eq (hdates : (dates records).Nodup) {p q : Point}
    (hp : p ∈ records.zipIdx.filterMap point?) (hq : q ∈ records.zipIdx.filterMap point?)
    (h : p.date.rank = q.date.rank) : p = q := by
  rw [← map_date_points] at hdates
  have hbounded : ∀ p ∈ records.zipIdx.filterMap point?, p.date.Bounded := fun p hp =>
    bounded_of_mem_series (List.mem_mergeSort.2 hp)
  exact List.inj_on_of_nodup_map hdates hp hq
    ((hbounded p hp).eq_of_rank_eq (hbounded q hq) h)

end Dates

variable {place : Nat → Nat} {records records' : List Record}

theorem series_rearranged (h : Rearranged place records records')
    (hdates : (dates records).Nodup) :
    series records' = (series records).map (Point.moved place) := by
  have hpoints := h.filterMap_perm (point?_moved place)
  rw [series, series, ← mergeSort_map_moved]
  -- no two points are level
  refine Lists.mergeSort_eq_of_perm noLater_trans noLater_total ?_ hpoints
  intro p hp q hq hpq hqp
  obtain ⟨p', hp', rfl⟩ := List.mem_map.1 hp
  obtain ⟨q', hq', rfl⟩ := List.mem_map.1 hq
  simp only [noLater, decide_eq_true_eq] at hpq hqp
  rw [eq_of_rank_eq hdates hp' hq' (Int.le_antisymm hpq hqp)]

/-- In a batch in which no two dated amounts have the same date, the order of the records decides
nothing: for any other order of the records the findings are the same, in the same order, at the
new positions of their records. -/
theorem detect_of_distinct_dates {c : Settings} (hc : c.check = .ok ()) (bands : Bands)
    (hdates : (dates records).Nodup) (hperm : records.Perm records') :
    (∃ place, Rearranged place records records') ∧
      ∀ place, Rearranged place records records' →
        ∃ fs, c.detect bands records = .found fs ∧
          c.detect bands records' = .found (fs.map (Finding.reindex place)) := by
  refine ⟨Rearranged.exists_of_perm hperm, ?_⟩
  intro place h
  refine ⟨_, detect_eq hc bands _, ?_⟩
  rw [detect_eq hc, ← Ranking.firsts_reindex h.injective, series_rearranged h hdates,
    passes_map_moved]

/-- The February amount lies above the line through the amounts of four months; its record changes
places with the one before it. A last record has a date that is there already but no amount. -/
theorem detect_of_distinct_dates_swapped :
    let record (date amount : String) : Record :=
      ⟨[("transaction_date", .string date), ("amount", .string amount)]⟩
    let january := record "2024-01-01" "10"
    let february := record "2024-02-01" "90"
    let others := [record "2024-03-01" "11", record "2024-04-01" "12",
      record "2024-04-01" "unknown"]
    let c : Settings := { window := 2, trendSigma := 1 }
    c.check = .ok () ∧ (dates (january :: february :: others)).Nodup ∧
      ∃ fs, c.detect {} (january :: february :: others) = .found fs ∧
        (fs.map fun f => (f.record, f.evidence.kind)) = [(1, "trend")] ∧
        c.detect {} (february :: january :: others) =
          .found (fs.map (Finding.reindex Rearranged.swapFirst)) := by
  intro record january february others c
  have hcheck : c.check = .ok () := by decide +kernel
  have hdates : (dates (january :: february :: others)).Nodup := by decide +kernel
  obtain ⟨fs, hfs, hswapped⟩ := (detect_of_distinct_dates hcheck {} hdates
    (.swap february january others)).2 _ (Rearranged.swap february january others)
  have hseries : series (january :: february :: others) =
      (january :: february :: others).zipIdx.filterMap point? :=
    series_of_pairwise (by decide +kernel)
  have hfound := detect_eq hcheck {} (january :: february :: others)
  rw [hseries] at hfound
  obtain rfl := Outcome.found.inj (hfs.symm.trans hfound)
  exact ⟨hcheck, hdates, _, hfs, by decide +kernel, hswapped⟩

end LedgerWatch.Temporal
