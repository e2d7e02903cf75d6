import Mathlib.Data.List.Sort
import Mathlib.Data.String.Basic
import LedgerWatch.Sorted

namespace LedgerWatch.Sorted

theorem lookup_cons_eq_ite {κ υ : Type} [DecidableEq κ] (k l : κ) (v : υ)
    (rest : List (κ × υ)) :
    ((l, v) :: rest).lookup k = if k = l then some v else rest.lookup k := by
  by_cases h : k = l
  · rw [h, if_pos rfl, List.lookup_cons_self]
  · rw [List.lookup_cons, beq_eq_false_iff_ne.2 h, if_neg h]

variable {κ υ α : Type} [LT κ]

theorem isStrictTotalOrder_of_rank {rank : κ → Nat} (hinjective : Function.Injective rank)
    (hlt : ∀ k l : κ, k < l ↔ rank k < rank l) : IsStrictTotalOrder κ (· < ·) where
  irrefl k h := Nat.lt_irrefl _ ((hlt k k).1 h)
  trans _ _ _ h h' := (hlt _ _).2 (Nat.lt_trans ((hlt _ _).1 h) ((hlt _ _).1 h'))
  trichotomous k l h h' := by
    simp only [hlt] at h h'
    exact hinjective (by omega)

section Order

variable [IsStrictTotalOrder κ (· < ·)] {k l : κ}

theorem ne_of_lt (h : k < l) : k ≠ l := fun heq => irrefl_of (· < ·) l (heq ▸ h)

theorem lt_of_not_lt_of_ne (hlt : ¬k < l) (hne : k ≠ l) : l < k := by
  rcases trichotomous_of (· < ·) k l with h | h | h
  · exact absurd h hlt
  · exact absurd h hne
  · exact h

theorem lookup_eq_none_of_lt [DecidableEq κ] {entries : List (κ × υ)}
    (h : ∀ e ∈ entries, k < e.1) : entries.lookup k = none := by
  apply List.lookup_eq_none_iff.2
  intro e he
  simpa using ne_of_lt (h e he)

end Order

/-- The keys are in increasing order, each of them once. -/
def Increasing (entries : List (κ × υ)) : Prop := entries.Pairwise fun e e' => e.1 < e'.1

theorem Increasing.keys {entries : List (κ × υ)} (h : Increasing entries) :
    (entries.map Prod.fst).Pairwise (· < ·) := List.pairwise_map.2 h

theorem Increasing.lt_of_lt_first [IsStrictTotalOrder κ (· < ·)] {first : κ × υ}
    {rest : List (κ × υ)} (h : Increasing (first :: rest)) {key : κ} (hlt : key < first.1) :
    ∀ e ∈ first :: rest, key < e.1 := by
  intro e he
  rcases List.mem_cons.1 he with rfl | he
  · exact hlt
  · exact trans_of (· < ·) hlt ((List.pairwise_cons.1 h).1 e he)

theorem Increasing.lookup_of_mem [DecidableEq κ] [IsStrictTotalOrder κ (· < ·)]
    {entries : List (κ × υ)} (h : Increasing entries) {k : κ} {v : υ} (hmem : (k, v) ∈ entries) :
    entries.lookup k = some v := by
  induction entries with
  | nil => cases hmem
  | cons first rest ih =>
    obtain ⟨l, w⟩ := first
    obtain ⟨hfirst, hrest⟩ := List.pairwise_cons.1 h
    rw [lookup_cons_eq_ite]
    rcases List.mem_cons.1 hmem with heq | hmem
    · obtain ⟨rfl, rfl⟩ := Prod.mk.inj heq
      exact if_pos rfl
    · rw [if_neg (ne_of_lt (hfirst _ hmem)).symm]
      exact ih hrest hmem

variable [DecidableLT κ] [DecidableEq κ]

theorem mem_keys_alter {key k : κ} {change : Option υ → υ} {entries : List (κ × υ)} :
    k ∈ (alter key change entries).map Prod.fst ↔ k = key ∨ k ∈ entries.map Prod.fst := by
  induction entries with
  | nil => simp [alter]
  | cons first rest ih =>
    obtain ⟨l, v⟩ := first
    unfold alter
    split
    · simp
    · split
      · rename_i hl
        simp [hl]
      · simp only [List.map_cons, List.mem_cons, ih]
        exact or_left_comm

theorem mem_keys_foldl_alter {k : κ} (change : Option υ → υ) (keys : List κ)
    (entries : List (κ × υ)) :
    k ∈ (keys.foldl (fun entries k => alter k change entries) entries).map Prod.fst ↔
      k ∈ keys ∨ k ∈ entries.map Prod.fst := by
  induction keys generalizing entries with
  | nil => simp
  | cons l keys ih =>
    rw [List.foldl_cons, ih, mem_keys_alter, List.mem_cons, or_assoc]
    exact or_left_comm

theorem mem_distinct {keys : List κ} {k : κ} : k ∈ distinct keys ↔ k ∈ keys := by
  rw [distinct, count, raise, mem_keys_foldl_alter]
  simp

theorem mem_keys_groupBy {key : α → Option κ} {xs : List α} {k : κ} :
    k ∈ (groupBy key xs).map Prod.fst ↔ ∃ x ∈ xs, key x = some k := by
  induction xs with
  | nil => simp [groupBy]
  | cons x xs ih =>
    simp only [groupBy, List.foldr_cons] at ih ⊢
    simp only [List.exists_mem_cons_iff, ← ih]
    cases key x with
    | none => simp
    | some l => rw [mem_keys_alter, Option.some.injEq, eq_comm]

variable [IsStrictTotalOrder κ (· < ·)] {entries : List (κ × υ)}

theorem Increasing.alter (h : Increasing entries) (key : κ) (change : Option υ → υ) :
    Increasing (alter key change entries) := by
  induction entries with
  | nil => exact List.pairwise_singleton _ _
  | cons first rest ih =>
    obtain ⟨l, v⟩ := first
    obtain ⟨hfirst, hrest⟩ := List.pairwise_cons.1 h
    unfold Sorted.alter
    split
    · rename_i hlt
      exact List.pairwise_cons.2 ⟨h.lt_of_lt_first hlt, h⟩
    · rename_i hlt
      split
      · rename_i hkey
        exact List.pairwise_cons.2 ⟨fun e he => hkey ▸ hfirst e he, hrest⟩
      · rename_i hne
        refine List.pairwise_cons.2 ⟨?_, ih hrest⟩
        intro e he
        rcases mem_keys_alter.1 (List.mem_map_of_mem he) with hkey | hkey
        · rw [hkey]
          exact lt_of_not_lt_of_ne hlt hne
        · obtain ⟨e', he', hkey⟩ := List.mem_map.1 hkey
          rw [← hkey]
          exact hfirst e' he'

/-- A change shows at its key and nowhere else. -/
theorem Increasing.lookup_alter (h : Increasing entries) (key : κ) (change : Option υ → υ)
    (k : κ) :
    (Sorted.alter key change entries).lookup k =
      if k = key then some (change (entries.lookup key)) else entries.lookup k := by
  induction entries with
  | nil => exact lookup_cons_eq_ite k key _ []
  | cons first rest ih =>
    obtain ⟨l, v⟩ := first
    obtain ⟨hfirst, hrest⟩ := List.pairwise_cons.1 h
    unfold Sorted.alter
    split
    · rename_i hlt
      rw [lookup_eq_none_of_lt (h.lt_of_lt_first hlt), lookup_cons_eq_ite]
    · split
      · rename_i hkey
        subst hkey
        rw [lookup_cons_eq_ite, lookup_cons_eq_ite, lookup_cons_eq_ite, if_pos rfl]
        split <;> rfl
      · rename_i hne
        rw [lookup_cons_eq_ite, lookup_cons_eq_ite, lookup_cons_eq_ite, ih hrest, if_neg hne]
        by_cases hk : k = l
        · rw [if_pos hk, if_pos hk, if_neg fun heq => hne (heq.symm.trans hk)]
        · rw [if_neg hk, if_neg hk]

section Groups

variable (key : α → Option κ)

theorem increasing_groupBy (xs : List α) : Increasing (groupBy key xs) := by
  induction xs with
  | nil => exact .nil
  | cons x xs ih =>
    simp only [groupBy, List.foldr_cons] at ih ⊢
    cases key x with
    | none => exact ih
    | some k => exact ih.alter k _

theorem getD_lookup_groupBy (xs : List α) (k : κ) :
    ((groupBy key xs).lookup k).getD [] = xs.filter fun x => key x = some k := by
  induction xs with
  | nil => rfl
  | cons x xs ih =>
    have hincreasing := increasing_groupBy key xs
    simp only [groupBy, List.foldr_cons] at ih hincreasing ⊢
    cases hx : key x with
    | none => rw [List.filter_cons_of_neg (by simp [hx]), ← ih]
    | some l =>
      dsimp only
      rw [hincreasing.lookup_alter]
      by_cases hk : k = l
      · subst hk
        rw [if_pos rfl, List.filter_cons_of_pos (by simp [hx]), ← ih]
        rfl
      · rw [if_neg hk, List.filter_cons_of_neg (by simpa [hx] using Ne.symm hk), ← ih]

variable {key} in
theorem snd_of_mem_groupBy {xs : List α} {group : κ × List α} (h : group ∈ groupBy key xs) :
    group.2 = xs.filter fun x => key x = some group.1 := by
  rw [← getD_lookup_groupBy, (increasing_groupBy key xs).lookup_of_mem h]
  rfl

variable {key} in
theorem mem_of_mem_groupBy {xs : List α} {group : κ × List α} (h : group ∈ groupBy key xs) {x : α}
    (hx : x ∈ group.2) : x ∈ xs ∧ key x = some group.1 := by
  rw [snd_of_mem_groupBy h, List.mem_filter, decide_eq_true_eq] at hx
  exact hx

/-- The groups of a list, read off its members. -/
theorem groupBy_eq (xs : List α) :
    groupBy key xs =
      ((groupBy key xs).map Prod.fst).map fun k => (k, xs.filter fun x => key x = some k) := by
  rw [List.map_map]
  conv_lhs => rw [← List.map_id (groupBy key xs)]
  apply List.map_congr_left
  intro group hgroup
  exact Prod.ext rfl (snd_of_mem_groupBy hgroup)

theorem nodup_flatMap_groupBy {xs : List α} (h : xs.Nodup) :
    ((groupBy key xs).flatMap Prod.snd).Nodup := by
  refine List.nodup_flatMap.2 ⟨?_, (increasing_groupBy key xs).imp_of_mem ?_⟩
  · intro group hgroup
    rw [snd_of_mem_groupBy hgroup]
    exact h.filter _
  · intro group group' hgroup hgroup' hlt x hx hx'
    have hkey := (mem_of_mem_groupBy hgroup hx).2
    exact ne_of_lt hlt (Option.some.inj (hkey.symm.trans (mem_of_mem_groupBy hgroup' hx').2))

/-- The same members in another order have groups by the same keys. -/
theorem exists_keys_of_perm {xs ys : List α} (h : xs.Perm ys) :
    ∃ keys : List κ,
      groupBy key xs = keys.map (fun k => (k, xs.filter fun x => key x = some k)) ∧
      groupBy key ys = keys.map (fun k => (k, ys.filter fun y => key y = some k)) := by
  refine ⟨(groupBy key xs).map Prod.fst, groupBy_eq key xs, ?_⟩
  have hkeys : (groupBy key xs).map Prod.fst = (groupBy key ys).map Prod.fst := by
    refine (increasing_groupBy key xs).keys.eq_of_mem_iff (increasing_groupBy key ys).keys ?_
    intro k
    simp only [mem_keys_groupBy, h.mem_iff]
  rw [hkeys]
  exact groupBy_eq key ys

end Groups

theorem Increasing.foldl_alter (h : Increasing entries) (change : Option υ → υ) (keys : List κ) :
    Increasing (keys.foldl (fun entries k => Sorted.alter k change entries) entries) := by
  induction keys generalizing entries with
  | nil => exact h
  | cons k keys ih => exact ih (h.alter k change)

theorem pairwise_distinct (keys : List κ) : (distinct keys).Pairwise (· < ·) :=
  (Increasing.foldl_alter .nil _ keys).keys

theorem nodup_distinct (keys : List κ) : (distinct keys).Nodup :=
  (pairwise_distinct keys).imp ne_of_lt

theorem length_distinct_le (keys : List κ) : (distinct keys).length ≤ keys.length :=
  (List.subperm_of_subset (nodup_distinct keys) fun _ hk => mem_distinct.1 hk).length_le

/-- Groups by a key that every member has: one for each key, with all members of that key. -/
theorem groupBy_eq_map_distinct (key : α → κ) (xs : List α) :
    groupBy (fun x => some (key x)) xs =
      (distinct (xs.map key)).map fun k => (k, xs.filter fun x => key x = k) := by
  have hkeys : (groupBy (fun x => some (key x)) xs).map Prod.fst = distinct (xs.map key) := by
    refine (increasing_groupBy _ xs).keys.eq_of_mem_iff (pairwise_distinct _) ?_
    intro k
    rw [mem_keys_groupBy, mem_distinct, List.mem_map]
    simp only [Option.some.injEq]
  rw [groupBy_eq, hkeys]
  simp only [Option.some.injEq]

theorem distinct_congr {keys keys' : List κ} (h : ∀ k, k ∈ keys ↔ k ∈ keys') :
    distinct keys = distinct keys' := by
  refine (pairwise_distinct keys).eq_of_mem_iff (pairwise_distinct keys') ?_
  intro k
  rw [mem_distinct, mem_distinct, h]

end LedgerWatch.Sorted
