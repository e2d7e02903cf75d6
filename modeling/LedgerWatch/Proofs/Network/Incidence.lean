import LedgerWatch.Network.Clusters
import LedgerWatch.Proofs.Keys
import LedgerWatch.Proofs.Network.Positions

namespace LedgerWatch.Network

namespace Actor

theorem customer_lt_customer {a b : String} : customer a < customer b ↔ a < b :=
  decide_eq_true_iff

theorem merchant_lt_merchant {a b : String} : merchant a < merchant b ↔ a < b :=
  decide_eq_true_iff

theorem customer_lt_merchant (a b : String) : customer a < merchant b := rfl

theorem not_merchant_lt_customer (a b : String) : ¬merchant a < customer b := Bool.false_ne_true

instance : IsStrictTotalOrder Actor (· < ·) where
  irrefl a h := by
    cases a with
    | customer a => exact lt_irrefl a (customer_lt_customer.1 h)
    | merchant a => exact lt_irrefl a (merchant_lt_merchant.1 h)
  trans a b c hab hbc := by
    cases a with
    | customer a =>
      cases c with
      | merchant c => exact customer_lt_merchant a c
      | customer c =>
        cases b with
        | customer b =>
          exact customer_lt_customer.2
            (lt_trans (customer_lt_customer.1 hab) (customer_lt_customer.1 hbc))
        | merchant b => exact absurd hbc (not_merchant_lt_customer b c)
    | merchant a =>
      cases b with
      | customer b => exact absurd hab (not_merchant_lt_customer a b)
      | merchant b =>
        cases c with
        | customer c => exact absurd hbc (not_merchant_lt_customer b c)
        | merchant c =>
          exact merchant_lt_merchant.2
            (lt_trans (merchant_lt_merchant.1 hab) (merchant_lt_merchant.1 hbc))
  trichotomous a b hab hba := by
    cases a with
    | customer a =>
      cases b with
      | customer b =>
        rw [customer_lt_customer] at hab hba
        rw [le_antisymm (not_lt.1 hba) (not_lt.1 hab)]
      | merchant b => exact absurd (customer_lt_merchant a b) hab
    | merchant a =>
      cases b with
      | customer b => exact absurd (customer_lt_merchant b a) hba
      | merchant b =>
        rw [merchant_lt_merchant] at hab hba
        rw [le_antisymm (not_lt.1 hba) (not_lt.1 hab)]

end Actor

theorem Transfer.payee_ne_payer (t : Transfer) : t.payee ≠ t.payer := by
  simp [payer, payee]

namespace Graph

def positionsIn (ts : List Transfer) (a : Actor) : List Nat :=
  (ts.zipIdx.filter fun m => m.1.Touches a).map Prod.snd

theorem positionsIn_concat (ts : List Transfer) (t : Transfer) (a : Actor) :
    positionsIn (ts ++ [t]) a = positionsIn ts a ++ if t.Touches a then [ts.length] else [] := by
  rw [positionsIn, List.zipIdx_append, List.filter_append, List.map_append, positionsIn]
  congr 1
  by_cases h : t.Touches a <;> simp [h]

theorem filterMap_positions (ts : List Transfer) (p : Transfer → Bool) :
    (((ts.zipIdx.filter fun m => p m.1).map Prod.snd).filterMap fun i => ts[i]?) =
      ts.filter p := by
  have hstands : ∀ m ∈ ts.zipIdx.filter fun m => p m.1, ts[m.2]? = some m.1 := by
    intro m hm
    exact List.mem_zipIdx_iff_getElem?.1 (List.mem_filter.1 hm).1
  have hfilter : (ts.zipIdx.filter fun m => p m.1).map Prod.fst = ts.filter p := by
    conv_rhs => rw [← List.zipIdx_map_fst 0 ts, List.filter_map]
    rfl
  rw [List.filterMap_map, ← hfilter, ← List.filterMap_eq_map]
  exact List.filterMap_congr hstands

/-- Every actor holds the positions of its transfers, all of them and in order. -/
structure Indexed (g : Graph) : Prop where
  increasing : Sorted.Increasing g.nodes
  incidentPositions_eq : ∀ a, g.incidentPositions a = positionsIn g.transfers.toList a

theorem indexed_empty : empty.Indexed := ⟨.nil, fun _ => rfl⟩

theorem lookup_attach {nodes : List (Actor × Array Nat)} (h : Sorted.Increasing nodes) (a : Actor)
    (position : Nat) (b : Actor) :
    (((attach a position nodes).lookup b).getD #[]).toList =
      ((nodes.lookup b).getD #[]).toList ++ if a = b then [position] else [] := by
  rw [attach, h.lookup_alter]
  by_cases hab : a = b
  · subst hab
    simp
  · simp [hab, Ne.symm hab]

theorem Indexed.add {g : Graph} (h : g.Indexed) (t : Transfer) : (g.add t).Indexed := by
  have hpayer : Sorted.Increasing (attach t.payer g.transfers.size g.nodes) :=
    h.increasing.alter _ _
  refine ⟨hpayer.alter _ _, ?_⟩
  intro a
  have hheld : ((g.nodes.lookup a).getD #[]).toList = positionsIn g.transfers.toList a :=
    h.incidentPositions_eq a
  -- the actor is one end of the transfer or the other, but not both
  rw [incidentPositions, Graph.add, lookup_attach hpayer, lookup_attach h.increasing, hheld,
    Array.toList_push, positionsIn_concat, List.append_assoc, Array.length_toList]
  congr 1
  by_cases hpayer : t.payer = a
  · have hpayee : t.payee ≠ a := hpayer ▸ t.payee_ne_payer
    simp [Transfer.Touches, hpayer, hpayee]
  · simp [Transfer.Touches, hpayer]

theorem Indexed.foldl_add {g : Graph} (h : g.Indexed) (ts : List Transfer) :
    (ts.foldl Graph.add g).Indexed := by
  induction ts generalizing g with
  | nil => exact h
  | cons t ts ih => exact ih (h.add t)

theorem indexed_ofTransfers (ts : List Transfer) : (ofTransfers ts).Indexed :=
  indexed_empty.foldl_add ts

theorem indexed_ofRecords (records : List Record) : (ofRecords records).Indexed :=
  indexed_ofTransfers _

theorem Indexed.lt_of_mem_incidentPositions {g : Graph} (h : g.Indexed) {a : Actor} {i : Nat}
    (hi : i ∈ g.incidentPositions a) : i < g.transfers.size := by
  rw [h.incidentPositions_eq] at hi
  obtain ⟨m, hm, rfl⟩ := List.mem_map.1 hi
  exact List.snd_lt_of_mem_zipIdx (List.mem_filter.1 hm).1

theorem Indexed.incident_eq {g : Graph} (h : g.Indexed) (a : Actor) :
    g.incident a = g.transfers.toList.filter fun t => t.Touches a := by
  rw [incident, h.incidentPositions_eq, positionsIn, ← filterMap_positions]
  simp only [Array.getElem?_toList]

theorem Indexed.mem_fraudPositions_iff {g : Graph} (h : g.Indexed) {nodes : List Actor} {i : Nat} :
    i ∈ g.fraudPositions nodes ↔
      ∃ t, g.transfers.toList[i]? = some t ∧ t.fraudWithin nodes = true := by
  simp only [fraudPositions, Sorted.mem_distinct, List.mem_flatMap, List.mem_filter,
    h.incidentPositions_eq, Option.any_eq_true, Array.getElem?_toList]
  constructor
  · rintro ⟨a, -, -, t, ht, hin⟩
    exact ⟨t, ht, hin⟩
  · rintro ⟨t, ht, hin⟩
    -- the payer is one of the actors, and holds the position
    have hpayer : t.payer ∈ nodes := by
      simp only [Transfer.fraudWithin, Bool.and_eq_true, List.contains_iff_mem] at hin
      exact hin.1.2
    refine ⟨t.payer, hpayer, List.mem_map.2 ⟨(t, i), List.mem_filter.2 ⟨?_, ?_⟩, rfl⟩, t, ht, hin⟩
    · exact List.mem_zipIdx_iff_getElem?.2 (Array.getElem?_toList ▸ ht)
    · exact decide_eq_true (.inl rfl)

/-- What the actors of a list hold together is what a walk through all transfers picks out. -/
theorem Indexed.fraudWithin_eq {g : Graph} (h : g.Indexed) (nodes : List Actor) :
    g.fraudWithin nodes = g.transfers.toList.filter fun t => t.fraudWithin nodes := by
  have hpositions : g.fraudPositions nodes =
      (g.transfers.toList.zipIdx.filter fun m => m.1.fraudWithin nodes).map Prod.snd := by
    have hincreasing : (g.transfers.toList.zipIdx.map Prod.snd).Pairwise (· < ·) := by
      rw [List.zipIdx_map_snd]
      exact List.pairwise_lt_range' ..
    refine (Sorted.pairwise_distinct _).eq_of_mem_iff
      (hincreasing.sublist (List.filter_sublist.map _)) fun i => ?_
    rw [← fraudPositions, h.mem_fraudPositions_iff]
    simp only [List.mem_map, List.mem_filter, List.mem_zipIdx_iff_getElem?, Prod.exists]
    constructor
    · rintro ⟨t, ht, hin⟩
      exact ⟨t, i, ⟨ht, hin⟩, rfl⟩
    · rintro ⟨t, j, ⟨ht, hin⟩, rfl⟩
      exact ⟨t, ht, hin⟩
  simp only [fraudWithin, hpositions, ← Array.getElem?_toList]
  exact filterMap_positions _ fun t => t.fraudWithin nodes

theorem mem_neighbors {ts : List Transfer} {a b : Actor} :
    b ∈ (ofTransfers ts).neighbors a ↔ ∃ t ∈ ts, t.Touches a ∧ t.other a = b := by
  rw [neighbors, (indexed_ofTransfers ts).incident_eq, transfers_ofTransfers]
  simp only [List.mem_map, List.mem_filter, decide_eq_true_eq, and_assoc]

end Graph

end LedgerWatch.Network
