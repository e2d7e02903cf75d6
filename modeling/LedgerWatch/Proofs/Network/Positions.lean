import LedgerWatch.Network.Graph
import LedgerWatch.Proofs.Lists

namespace LedgerWatch.Network

theorem record_of_ofRecord? {m : Record × Nat} {t : Transfer} (h : Transfer.ofRecord? m = some t) :
    t.record = m.2 := by
  simp only [Transfer.ofRecord?, bind, Option.bind_eq_some_iff, pure, Option.some.injEq] at h
  obtain ⟨customer, -, merchant, -, rfl⟩ := h
  rfl

theorem names_of_ofRecord? {m : Record × Nat} {t : Transfer}
    (h : Transfer.ofRecord? m = some t) :
    m.1.customerId? = some t.customer ∧ m.1.merchantId? = some t.merchant := by
  simp only [Transfer.ofRecord?, bind, Option.bind_eq_some_iff, pure, Option.some.injEq] at h
  obtain ⟨customer, hcustomer, merchant, hmerchant, rfl⟩ := h
  exact ⟨hcustomer, hmerchant⟩

namespace Graph

theorem transfers_foldl_add (ts : List Transfer) (g : Graph) :
    (ts.foldl add g).transfers = g.transfers ++ ts := by
  induction ts generalizing g with
  | nil => simp
  | cons t ts ih =>
    rw [List.foldl_cons, ih, add]
    simp

def ofTransfers (ts : List Transfer) : Graph := ts.foldl add empty

theorem transfers_ofTransfers (ts : List Transfer) : (ofTransfers ts).transfers.toList = ts := by
  rw [ofTransfers, transfers_foldl_add]
  simp [empty]

theorem transfers_ofRecords (records : List Record) :
    (ofRecords records).transfers.toList = records.zipIdx.filterMap Transfer.ofRecord? :=
  transfers_ofTransfers _

theorem lt_length_of_mem_transfers {records : List Record} {t : Transfer}
    (h : t ∈ (ofRecords records).transfers.toList) : t.record < records.length := by
  rw [transfers_ofRecords] at h
  obtain ⟨m, hm, ht⟩ := List.mem_filterMap.1 h
  rw [record_of_ofRecord? ht]
  exact List.snd_lt_of_mem_zipIdx hm

theorem increasing_records_ofRecords (records : List Record) :
    ((ofRecords records).transfers.toList.map Transfer.record).Pairwise (· < ·) := by
  rw [transfers_ofRecords]
  exact Lists.increasing_filterMap_zipIdx fun r i t ht => record_of_ofRecord? ht

theorem nodup_records_ofRecords (records : List Record) :
    ((ofRecords records).transfers.toList.map Transfer.record).Nodup :=
  (increasing_records_ofRecords records).imp Nat.ne_of_lt

end Graph

theorem mem_transfers_ofRecords {records : List Record} {t : Transfer} :
    t ∈ (Graph.ofRecords records).transfers.toList ↔
      ∃ r, records[t.record]? = some r ∧ Transfer.ofRecord? (r, t.record) = some t := by
  rw [Graph.transfers_ofRecords, List.mem_filterMap]
  constructor
  · rintro ⟨⟨r, i⟩, hm, ht⟩
    have hrecord : t.record = i := record_of_ofRecord? ht
    rw [hrecord]
    exact ⟨r, List.mem_zipIdx_iff_getElem?.1 hm, ht⟩
  · rintro ⟨r, hr, ht⟩
    exact ⟨(r, t.record), List.mem_zipIdx_iff_getElem?.2 hr, ht⟩

end LedgerWatch.Network
