import Mathlib.Algebra.BigOperators.Group.Finset.Basic
import Mathlib.Algebra.GroupWithZero.Nat
import LedgerWatch.Proofs.Keys

namespace LedgerWatch.Sorted

variable {κ α : Type}

/-- Over different keys, all those that occur among them, the counts add up to the length. -/
theorem sum_map_count [DecidableEq κ] {all keys : List κ} (hall : all.Nodup)
    (h : ∀ k ∈ keys, k ∈ all) : (all.map fun k => keys.count k).sum = keys.length := by
  have hmem : ∀ k ∈ (keys : Multiset κ), k ∈ all.toFinset := by
    intro k hk
    exact List.mem_toFinset.2 (h k (Multiset.mem_coe.1 hk))
  calc (all.map fun k => keys.count k).sum
      = ∑ k ∈ all.toFinset, Multiset.count k keys := by
        rw [List.sum_toFinset _ hall]
        simp only [Multiset.coe_count]
    _ = keys.length := Multiset.sum_count_eq_card hmem

theorem lookup_seeded [DecidableEq κ] (all : List κ) (k : κ) :
    ((all.map fun k => (k, 0)).lookup k).getD 0 = 0 := by
  induction all with
  | nil => rfl
  | cons l all ih =>
    rw [List.map_cons, lookup_cons_eq_ite]
    split
    · rfl
    · exact ih

variable [LT κ] [DecidableLT κ] [DecidableEq κ] [IsStrictTotalOrder κ (· < ·)]

theorem getD_lookup_raise {counts : List (κ × Nat)} (h : Increasing counts) (keys : List κ)
    (k : κ) : ((raise counts keys).lookup k).getD 0 =
      (counts.lookup k).getD 0 + keys.count k := by
  induction keys generalizing counts with
  | nil => rfl
  | cons l keys ih =>
    rw [raise, List.foldl_cons, ← raise, ih (h.alter l _), h.lookup_alter]
    by_cases hk : k = l
    · rw [hk, if_pos rfl, List.count_cons_self, Option.getD_some, Nat.add_assoc, Nat.add_comm 1]
    · rw [if_neg hk, List.count_cons_of_ne (Ne.symm hk)]

theorem increasing_count (keys : List κ) : Increasing (count keys) :=
  Increasing.foldl_alter .nil _ keys

theorem getD_lookup_count (keys : List κ) (k : κ) :
    ((count keys).lookup k).getD 0 = keys.count k := by
  rw [count, getD_lookup_raise .nil]
  exact Nat.zero_add _

omit [DecidableLT κ] in
theorem Increasing.eq_map_lookup {counts : List (κ × Nat)} (h : Increasing counts) :
    counts = (counts.map Prod.fst).map fun k => (k, (counts.lookup k).getD 0) := by
  rw [List.map_map]
  conv_lhs => rw [← List.map_id counts]
  apply List.map_congr_left
  intro entry hentry
  refine Prod.ext rfl ?_
  rw [Function.comp, h.lookup_of_mem hentry]
  rfl

theorem count_eq (keys : List κ) :
    count keys = (distinct keys).map fun k => (k, keys.count k) := by
  conv_lhs => rw [(increasing_count keys).eq_map_lookup]
  simp only [getD_lookup_count, distinct]

/-- With counts for all keys from the start, every key has one in the end, also where it does not
occur. -/
theorem countAmong_eq {all keys : List κ} (hall : all.Pairwise (· < ·))
    (hkeys : ∀ k ∈ keys, k ∈ all) :
    countAmong all keys = all.map fun k => (k, keys.count k) := by
  have hseeds : Increasing (all.map fun k => (k, 0)) := List.pairwise_map.2 hall
  have hincreasing : Increasing (countAmong all keys) := hseeds.foldl_alter _ keys
  have hfst : (countAmong all keys).map Prod.fst = all := by
    refine hincreasing.keys.eq_of_mem_iff hall fun k => ?_
    rw [countAmong, raise, mem_keys_foldl_alter, List.map_map]
    simpa using hkeys k
  have hcounts := hincreasing.eq_map_lookup
  rw [hfst] at hcounts
  rw [hcounts]
  simp only [countAmong, getD_lookup_raise hseeds, lookup_seeded, Nat.zero_add]

theorem mem_count_iff {keys : List κ} {k : κ} {n : Nat} :
    (k, n) ∈ count keys ↔ 0 < n ∧ n = keys.count k := by
  rw [count_eq, List.mem_map]
  constructor
  · rintro ⟨l, hl, heq⟩
    obtain ⟨rfl, rfl⟩ := Prod.mk.inj heq
    exact ⟨List.count_pos_iff.2 (mem_distinct.1 hl), rfl⟩
  · rintro ⟨hpos, rfl⟩
    exact ⟨k, mem_distinct.2 (List.count_pos_iff.1 hpos), rfl⟩

theorem sum_count (keys : List κ) : ((count keys).map Prod.snd).sum = keys.length := by
  rw [count_eq, List.map_map]
  exact sum_map_count (nodup_distinct keys) fun _ hk => mem_distinct.2 hk

theorem count_of_perm {keys keys' : List κ} (h : keys.Perm keys') : count keys = count keys' := by
  rw [count_eq, count_eq, distinct_congr fun _ => h.mem_iff]
  simp only [h.count_eq]

theorem length_distinct (keys : List κ) : (distinct keys).length = keys.toFinset.card := by
  rw [← List.toFinset_card_of_nodup (nodup_distinct keys)]
  congr 1
  ext k
  rw [List.mem_toFinset, List.mem_toFinset, mem_distinct]

/-- There are at most as many different numbers below a bound as the bound says. -/
theorem length_distinct_le_of_lt {positions : List Nat} {n : Nat} (h : ∀ i ∈ positions, i < n) :
    (distinct positions).length ≤ n := by
  have hsub : distinct positions ⊆ List.range n := fun i hi =>
    List.mem_range.2 (h i (mem_distinct.1 hi))
  simpa using (List.subperm_of_subset (nodup_distinct positions) hsub).length_le

end LedgerWatch.Sorted
