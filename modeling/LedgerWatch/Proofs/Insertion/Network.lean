import LedgerWatch.Proofs.Insertion.Inert
import LedgerWatch.Proofs.Network.Findings
import LedgerWatch.Proofs.Network.Moved

namespace LedgerWatch.Network

variable {r : Record}

/-- Names aside, the network is the same with its records at their new positions. -/
theorem ofRecords_inserted (hr : r.IsInert) (before after : List Record) :
    (Graph.ofRecords (before ++ r :: after)).moved id =
      (Graph.ofRecords (before ++ after)).moved (past before.length) := by
  have hnone : Transfer.ofRecord? (r, before.length) = none := by
    unfold Transfer.ofRecord?
    rcases hr.unlinked with h | h
    · rw [h]
      rfl
    · rw [h]
      cases r.customerId? <;> rfl
  have htransfers :
      ((before ++ r :: after).zipIdx.filterMap Transfer.ofRecord?).map (Transfer.moved id) =
        ((before ++ after).zipIdx.filterMap Transfer.ofRecord?).map
          (Transfer.moved (past before.length)) := by
    rw [List.map_filterMap, List.map_filterMap]
    apply (Inserted.intro before after r).filterMap_zipIdx
    · rw [hnone]
      rfl
    · exact ofRecord?_moved _
  rw [Graph.ofRecords_moved, Graph.ofRecords_moved, htransfers]

theorem detect_inserted {c : Settings} (hc : c.check = .ok ()) (bands : Bands) (hr : r.IsInert)
    (before after : List Record) :
    c.detect bands (before ++ r :: after) =
      (c.detect bands (before ++ after)).reindex (past before.length) := by
  have hfindings : c.findings bands (.ofRecords (before ++ r :: after)) =
      (c.findings bands (.ofRecords (before ++ after))).map
        (Finding.reindex (past before.length)) := by
    -- once over the names only, and once over the positions
    rw [← findings_moved, ← ofRecords_inserted hr, findings_moved]
    exact (List.map_id'' (fun _ => rfl) _).symm
  rw [detect_eq hc, detect_eq hc, Outcome.reindex, hfindings,
    Ranking.firsts_reindex (past_injective _)]

end LedgerWatch.Network
