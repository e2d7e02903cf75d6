import LedgerWatch.Proofs.Insertion.Inert
import LedgerWatch.Proofs.Temporal.Findings
import LedgerWatch.Proofs.Temporal.Moved

namespace LedgerWatch.Temporal

theorem series_inserted {r : Record} (hr : r.IsInert) (before after : List Record) :
    series (before ++ r :: after) =
      (series (before ++ after)).map (Point.moved (past before.length)) := by
  have hnone : point? (r, before.length) = none := by
    unfold point?
    rw [hr.amount]
    cases r.transactionDate? <;> rfl
  have hpoints := (Inserted.intro before after r).filterMap_zipIdx_map hnone
    (point?_moved (past before.length))
  rw [series, hpoints, mergeSort_map_moved, series]

theorem detect_inserted {c : Settings} (hc : c.check = .ok ()) (bands : Bands) {r : Record}
    (hr : r.IsInert) (before after : List Record) :
    c.detect bands (before ++ r :: after) =
      (c.detect bands (before ++ after)).reindex (past before.length) := by
  rw [detect_eq hc, detect_eq hc, Outcome.reindex, ← Ranking.firsts_reindex (past_injective _),
    series_inserted hr, passes_map_moved]

end LedgerWatch.Temporal
