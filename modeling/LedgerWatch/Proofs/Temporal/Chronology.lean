import LedgerWatch.Proofs.Calendar.Ranks
import LedgerWatch.Proofs.Lists
import LedgerWatch.Temporal.Series

namespace LedgerWatch.Temporal

/-- The dated amounts of a batch in the order of their dates; level ones are in record order. -/
structure Chronological (records : List Record) (points : List Point) : Prop where
  mem_iff : ∀ p, p ∈ points ↔ ∃ r, records[p.record]? = some r ∧
    r.transactionDate? = some p.date ∧ r.amount? = some p.amount
  ordered : points.Pairwise fun p q =>
    p.date.Earlier q.date ∨ p.date = q.date ∧ p.record < q.record

variable {records : List Record} {p : Point}

theorem point?_eq_some_iff {r : Record} {i : Nat} :
    point? (r, i) = some p ↔
      p.record = i ∧ r.transactionDate? = some p.date ∧ r.amount? = some p.amount := by
  obtain ⟨j, date, amount⟩ := p
  simp only [point?, bind, Option.bind_eq_some_iff, pure, Option.some.injEq, Point.mk.injEq]
  constructor
  · rintro ⟨_, hdate, _, hamount, rfl, rfl, rfl⟩
    exact ⟨rfl, hdate, hamount⟩
  · rintro ⟨rfl, hdate, hamount⟩
    exact ⟨_, hdate, _, hamount, rfl, rfl, rfl⟩

theorem mem_series_iff :
    p ∈ series records ↔ ∃ r, records[p.record]? = some r ∧
      r.transactionDate? = some p.date ∧ r.amount? = some p.amount := by
  rw [series, List.mem_mergeSort, List.mem_filterMap]
  constructor
  · rintro ⟨⟨r, i⟩, hm, hp⟩
    obtain ⟨rfl, hdate, hamount⟩ := point?_eq_some_iff.1 hp
    exact ⟨r, List.mem_zipIdx_iff_getElem?.1 hm, hdate, hamount⟩
  · rintro ⟨r, hr, hdate, hamount⟩
    exact ⟨(r, p.record), List.mem_zipIdx_iff_getElem?.2 hr,
      point?_eq_some_iff.2 ⟨rfl, hdate, hamount⟩⟩

theorem bounded_of_mem_series (h : p ∈ series records) : p.date.Bounded := by
  obtain ⟨r, -, hdate, -⟩ := mem_series_iff.1 h
  exact Record.bounded_of_transactionDate? hdate

/-- Whether a point may stand in front of another one. -/
def noLater (p q : Point) : Bool := p.date.rank ≤ q.date.rank

theorem series_eq (records : List Record) :
    series records = (records.zipIdx.filterMap point?).mergeSort noLater := rfl

theorem noLater_trans (p q r : Point) : noLater p q → noLater q r → noLater p r := by
  simp only [noLater, decide_eq_true_eq]
  exact Int.le_trans

theorem noLater_total (p q : Point) : noLater p q || noLater q p := by
  simpa only [noLater, Bool.or_eq_true, decide_eq_true_eq] using Int.le_total _ _

/-- What is in the order of dates already stays as it is. -/
theorem series_of_pairwise (h : (records.zipIdx.filterMap point?).Pairwise fun p q => noLater p q) :
    series records = records.zipIdx.filterMap point? := List.mergeSort_of_pairwise h

theorem increasing_points (records : List Record) :
    ((records.zipIdx.filterMap point?).map Point.record).Pairwise (· < ·) :=
  Lists.increasing_filterMap_zipIdx fun _ _ _ hp => (point?_eq_some_iff.1 hp).1

theorem nodup_records_series (records : List Record) :
    ((series records).map Point.record).Nodup :=
  ((List.mergeSort_perm _ noLater).map Point.record).nodup_iff.2
    ((increasing_points records).imp Nat.ne_of_lt)

theorem chronological_series (records : List Record) :
    Chronological records (series records) := by
  refine ⟨fun p => mem_series_iff, ?_⟩
  have hstable := Lists.pairwise_mergeSort_stable noLater_trans noLater_total
    (List.pairwise_map.1 (increasing_points records))
  refine List.Pairwise.imp_of_mem ?_ hstable
  intro p q hp hq ⟨hle, htie⟩
  have hpb := bounded_of_mem_series hp
  have hqb := bounded_of_mem_series hq
  simp only [noLater, decide_eq_true_eq] at hle htie
  rcases Int.lt_or_eq_of_le hle with hlt | heq
  · exact .inl ((hpb.rank_lt_iff hqb).1 hlt)
  · exact .inr ⟨hpb.eq_of_rank_eq hqb heq, htie (Int.le_of_eq heq.symm)⟩

/-- Records that come later, in the batch and in time, come later in the series. -/
theorem series_append {records later : List Record}
    (h : ∀ r ∈ records, ∀ r' ∈ later, ∀ date date', r.transactionDate? = some date →
      r'.transactionDate? = some date' → ¬date'.Earlier date) :
    ∃ behind, series (records ++ later) = series records ++ behind ∧
      ∀ p ∈ behind, records.length ≤ p.record := by
  refine ⟨((later.zipIdx records.length).filterMap point?).mergeSort noLater, ?_, ?_⟩
  · rw [series_eq, List.zipIdx_append, List.filterMap_append, Nat.zero_add,
      Lists.mergeSort_append_of_le noLater_trans noLater_total, series_eq]
    intro p hp q hq
    obtain ⟨⟨r, i⟩, hr, hp⟩ := List.mem_filterMap.1 hp
    obtain ⟨⟨r', j⟩, hr', hq⟩ := List.mem_filterMap.1 hq
    obtain ⟨-, hdate, -⟩ := point?_eq_some_iff.1 hp
    obtain ⟨-, hdate', -⟩ := point?_eq_some_iff.1 hq
    have hearlier := h r (List.fst_mem_of_mem_zipIdx hr) r' (List.fst_mem_of_mem_zipIdx hr')
      p.date q.date hdate hdate'
    rw [← (Record.bounded_of_transactionDate? hdate).rank_le_iff
      (Record.bounded_of_transactionDate? hdate')] at hearlier
    exact decide_eq_true hearlier
  · intro p hp
    obtain ⟨⟨r, i⟩, hr, hp⟩ := List.mem_filterMap.1 (List.mem_mergeSort.1 hp)
    rw [(point?_eq_some_iff.1 hp).1]
    exact (List.mem_zipIdx hr).1

end LedgerWatch.Temporal
