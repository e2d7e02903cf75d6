import LedgerWatch.Network.Behavior
import LedgerWatch.Proofs.Groups
import LedgerWatch.Proofs.Network.Incidence

namespace LedgerWatch.Network

def Trades (r : Record) : Prop := r.customerId?.isSome ∧ r.merchantId?.isSome

instance (r : Record) : Decidable (Trades r) := inferInstanceAs (Decidable (_ ∧ _))

structure Transfer.Describes (t : Transfer) (r : Record) : Prop where
  customer : r.customerId? = some t.customer
  merchant : r.merchantId? = some t.merchant
  /-- A record without an identifier of its own is known by its row. -/
  id : t.id = r.transactionId?.getD ("row-" ++ toString t.record)
  amount : t.amount = r.amount?
  fraud : t.fraud = r.isFraud
  fraudScore : t.fraudScore = r.fraudScore?

theorem describes_of_ofRecord? {r : Record} {i : Nat} {t : Transfer}
    (h : Transfer.ofRecord? (r, i) = some t) : t.Describes r := by
  simp only [Transfer.ofRecord?, bind, Option.bind_eq_some_iff, pure, Option.some.injEq] at h
  obtain ⟨customer, hcustomer, merchant, hmerchant, rfl⟩ := h
  exact ⟨hcustomer, hmerchant, rfl, rfl, rfl, rfl⟩

theorem exists_ofRecord?_iff {r : Record} {i : Nat} :
    (∃ t, Transfer.ofRecord? (r, i) = some t) ↔ Trades r := by
  constructor
  · rintro ⟨t, ht⟩
    have h := describes_of_ofRecord? ht
    exact ⟨Option.isSome_of_eq_some h.customer, Option.isSome_of_eq_some h.merchant⟩
  · rintro ⟨hcustomer, hmerchant⟩
    obtain ⟨customer, hcustomer⟩ := Option.isSome_iff_exists.1 hcustomer
    obtain ⟨merchant, hmerchant⟩ := Option.isSome_iff_exists.1 hmerchant
    simp [Transfer.ofRecord?, hcustomer, hmerchant]

def tradingPositions (records : List Record) : List Nat :=
  (List.range records.length).filter fun i => (records[i]?).any fun r => Trades r

theorem mem_tradingPositions {records : List Record} {i : Nat} :
    i ∈ tradingPositions records ↔ ∃ r, records[i]? = some r ∧ Trades r := by
  rw [tradingPositions, List.mem_filter, List.mem_range, Option.any_eq_true]
  simp only [decide_eq_true_eq]
  constructor
  · exact fun h => h.2
  · rintro ⟨r, hr, htrades⟩
    exact ⟨(List.getElem?_eq_some_iff.1 hr).1, r, hr, htrades⟩

theorem records_ofRecords (records : List Record) :
    (Graph.ofRecords records).transfers.toList.map Transfer.record = tradingPositions records := by
  have hpositions : (tradingPositions records).Pairwise (· < ·) :=
    List.pairwise_lt_range.sublist List.filter_sublist
  refine (Graph.increasing_records_ofRecords records).eq_of_mem_iff hpositions ?_
  intro i
  rw [mem_tradingPositions, List.mem_map]
  constructor
  · rintro ⟨t, ht, rfl⟩
    obtain ⟨r, hr, hmade⟩ := mem_transfers_ofRecords.1 ht
    exact ⟨r, hr, exists_ofRecord?_iff.1 ⟨t, hmade⟩⟩
  · rintro ⟨r, hr, htrades⟩
    obtain ⟨t, hmade⟩ := (exists_ofRecord?_iff (i := i)).2 htrades
    have hrecord : t.record = i := record_of_ofRecord? hmade
    subst hrecord
    exact ⟨t, mem_transfers_ofRecords.2 ⟨r, hr, hmade⟩, rfl⟩

namespace Graph

theorem mem_actors_add {g : Graph} {t : Transfer} {a : Actor} :
    a ∈ (g.add t).nodes.map Prod.fst ↔ t.Touches a ∨ a ∈ g.nodes.map Prod.fst := by
  rw [add, attach, attach, Sorted.mem_keys_alter, Sorted.mem_keys_alter, ← or_assoc,
    Transfer.Touches, or_comm (a := t.payer = a), eq_comm (a := t.payer), eq_comm (a := t.payee)]

theorem mem_actors_foldl_add {g : Graph} {ts : List Transfer} {a : Actor} :
    a ∈ (ts.foldl add g).nodes.map Prod.fst ↔
      (∃ t ∈ ts, t.Touches a) ∨ a ∈ g.nodes.map Prod.fst := by
  induction ts generalizing g with
  | nil => simp
  | cons t ts ih =>
    rw [List.foldl_cons, ih, mem_actors_add, List.exists_mem_cons_iff, ← or_assoc,
      or_comm (b := t.Touches a)]

/-- How many positions all actors hold together. -/
def heldPositions (g : Graph) : Nat := (g.nodes.map fun node => node.2.size).sum

theorem sum_size_attach (a : Actor) (position : Nat) (nodes : List (Actor × Array Nat)) :
    ((attach a position nodes).map fun node => node.2.size).sum =
      (nodes.map fun node => node.2.size).sum + 1 := by
  refine Sorted.sum_map_alter ?_ a nodes
  intro held
  cases held <;> simp

theorem heldPositions_add (g : Graph) (t : Transfer) :
    (g.add t).heldPositions = g.heldPositions + 2 := by
  rw [heldPositions, add, sum_size_attach, sum_size_attach, heldPositions]

theorem heldPositions_foldl_add (g : Graph) (ts : List Transfer) :
    (ts.foldl add g).heldPositions = g.heldPositions + 2 * ts.length := by
  induction ts generalizing g with
  | nil => rfl
  | cons t ts ih =>
    rw [List.foldl_cons, ih, heldPositions_add, List.length_cons]
    omega

theorem mem_positionsIn {ts : List Transfer} {a : Actor} {i : Nat} :
    i ∈ positionsIn ts a ↔ ∃ t, ts[i]? = some t ∧ t.Touches a := by
  rw [positionsIn, List.mem_map]
  constructor
  · rintro ⟨⟨t, j⟩, hm, rfl⟩
    obtain ⟨hstands, htouches⟩ := List.mem_filter.1 hm
    exact ⟨t, List.mem_zipIdx_iff_getElem?.1 hstands, of_decide_eq_true htouches⟩
  · rintro ⟨t, ht, htouches⟩
    exact ⟨(t, i), List.mem_filter.2
      ⟨List.mem_zipIdx_iff_getElem?.2 ht, decide_eq_true htouches⟩, rfl⟩

theorem increasing_positionsIn (ts : List Transfer) (a : Actor) :
    (positionsIn ts a).Pairwise (· < ·) := by
  have hsub : (positionsIn ts a).Sublist (ts.zipIdx.map Prod.snd) := List.filter_sublist.map _
  rw [List.zipIdx_map_snd] at hsub
  exact List.Pairwise.sublist hsub (List.pairwise_lt_range' ..)

theorem Indexed.held_eq {g : Graph} (h : g.Indexed) {a : Actor} {held : Array Nat}
    (hmem : (a, held) ∈ g.nodes) : held.toList = positionsIn g.transfers.toList a := by
  rw [← h.incidentPositions_eq, incidentPositions, h.increasing.lookup_of_mem hmem]
  rfl

end Graph

/-- Transfers told apart by a name: one group for each name that occurs, with all of its transfers
in their order. Whatever of them is counted, the groups count each transfer once. -/
structure IsTally (name : Transfer → String) (ts : List Transfer)
    (groups : List (String × List Transfer)) : Prop where
  increasing : Sorted.Increasing groups
  mem_names : ∀ n, n ∈ groups.map Prod.fst ↔ ∃ t ∈ ts, name t = n
  members : ∀ group ∈ groups, group.2 = ts.filter fun t => name t = group.1
  once : (groups.flatMap Prod.snd).Perm ts
  counts : ∀ p : Transfer → Bool, (groups.map fun group => group.2.countP p).sum = ts.countP p
  lengths : (groups.map fun group => group.2.length).sum = ts.length

theorem isTally_groupBy (name : Transfer → String) (ts : List Transfer) :
    IsTally name ts (Sorted.groupBy (fun t => some (name t)) ts) := by
  have honce : ((Sorted.groupBy (fun t => some (name t)) ts).flatMap Prod.snd).Perm ts := by
    simpa using Sorted.flatMap_groupBy_perm (fun t => some (name t)) ts
  refine ⟨Sorted.increasing_groupBy _ ts, ?_, ?_, honce, ?_, ?_⟩
  · intro n
    rw [Sorted.mem_keys_groupBy]
    simp only [Option.some.injEq]
  · intro group hgroup
    rw [Sorted.snd_of_mem_groupBy hgroup]
    simp only [Option.some.injEq]
  · intro p
    rw [← honce.countP_eq, List.countP_flatMap]
    rfl
  · rw [← honce.length_eq, List.length_flatMap]

/-- What a network keeps of a batch of records. -/
structure IsNetworkOf (records : List Record) (g : Graph) : Prop where
  /-- One transfer for each record with both names, in record order. -/
  records_eq : g.transfers.toList.map Transfer.record = tradingPositions records
  increasing : (g.transfers.toList.map Transfer.record).Pairwise (· < ·)
  describes : ∀ t ∈ g.transfers.toList, ∃ r, records[t.record]? = some r ∧ t.Describes r
  /-- A transfer leads from a customer to a merchant, even where both have one identifier. -/
  ends : ∀ t ∈ g.transfers.toList, ∃ customer merchant,
    t.payer = .customer customer ∧ t.payee = .merchant merchant ∧ t.payer ≠ t.payee
  /-- The actors stand in order, each of them once. -/
  actors_increasing : Sorted.Increasing g.nodes
  mem_actors : ∀ a, a ∈ g.nodes.map Prod.fst ↔
    ∃ t ∈ g.transfers.toList, t.payer = a ∨ t.payee = a
  held_increasing : ∀ a held, (a, held) ∈ g.nodes → held.toList.Pairwise (· < ·)
  mem_held : ∀ a held, (a, held) ∈ g.nodes → ∀ i, i ∈ held.toList ↔
    ∃ t, g.transfers[i]? = some t ∧ (t.payer = a ∨ t.payee = a)
  in_range : ∀ a held, (a, held) ∈ g.nodes → ∀ i ∈ held.toList, i < g.transfers.size
  /-- Every transfer is held twice, by either end. -/
  held_twice : (g.nodes.map fun node => node.2.size).sum = 2 * g.transfers.size
  by_customer : IsTally Transfer.customer g.transfers.toList g.byCustomer
  by_merchant : IsTally Transfer.merchant g.transfers.toList g.byMerchant

/-- Whatever the records, their network has the transfers of the records with both names and is
indexed by the actors of these. -/
theorem isNetworkOf_ofRecords (records : List Record) :
    IsNetworkOf records (Graph.ofRecords records) := by
  have hindexed : (Graph.ofRecords records).Indexed := Graph.indexed_ofTransfers _
  have hmem : ∀ a, a ∈ (Graph.ofRecords records).nodes.map Prod.fst ↔
      ∃ t ∈ (Graph.ofRecords records).transfers.toList, t.Touches a := by
    intro a
    rw [Graph.transfers_ofRecords, Graph.ofRecords, Graph.mem_actors_foldl_add]
    simp [Graph.empty]
  have hheld : ∀ a held, (a, held) ∈ (Graph.ofRecords records).nodes → ∀ i, i ∈ held.toList ↔
      ∃ t, (Graph.ofRecords records).transfers[i]? = some t ∧ t.Touches a := by
    intro a held hnode i
    rw [hindexed.held_eq hnode, Graph.mem_positionsIn, Array.getElem?_toList]
  refine {
    records_eq := records_ofRecords records
    increasing := Graph.increasing_records_ofRecords records
    describes := ?describes
    ends := fun t _ => ⟨t.customer, t.merchant, rfl, rfl, t.payee_ne_payer.symm⟩
    actors_increasing := hindexed.increasing
    mem_actors := hmem
    held_increasing := ?held_increasing
    mem_held := hheld
    in_range := ?in_range
    held_twice := ?held_twice
    by_customer := isTally_groupBy _ _
    by_merchant := isTally_groupBy _ _ }
  case describes =>
    intro t ht
    obtain ⟨r, hr, hmade⟩ := mem_transfers_ofRecords.1 ht
    exact ⟨r, hr, describes_of_ofRecord? hmade⟩
  case held_increasing =>
    intro a held hnode
    rw [hindexed.held_eq hnode]
    exact Graph.increasing_positionsIn _ a
  case in_range =>
    intro a held hnode i hi
    obtain ⟨t, ht, -⟩ := (hheld a held hnode i).1 hi
    exact (Array.getElem?_eq_some_iff.1 ht).1
  case held_twice =>
    have hsum := Graph.heldPositions_foldl_add .empty (records.zipIdx.filterMap Transfer.ofRecord?)
    rw [← Array.length_toList, Graph.transfers_ofRecords]
    exact hsum.trans (Nat.zero_add _)

/-- A customer and a merchant of one name, who trade twice, and a record without a merchant. -/
example :
    let record (customer merchant : String) : Record :=
      ⟨[("customer_id", .string customer), ("merchant_id", .string merchant)]⟩
    let g := Graph.ofRecords [record "7" "7", ⟨[("customer_id", .string "7")]⟩, record "7" "7"]
    (g.nodes.map fun node => (node.1, node.2.toList)) =
        [(.customer "7", [0, 1]), (.merchant "7", [0, 1])] ∧
      g.transfers.toList.map Transfer.record = [0, 2] := by
  decide +kernel

end LedgerWatch.Network
