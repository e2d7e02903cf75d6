import LedgerWatch.Proofs.Groups
import LedgerWatch.Proofs.Lists

namespace LedgerWatch

/-- The new position of a member when one is put in at `k`. -/
def past (k i : Nat) : Nat := if i < k then i else i + 1

section Past

variable {k n i : Nat}

theorem past_of_lt (h : i < k) : past k i = i := if_pos h

theorem past_of_le (h : k ≤ i) : past k i = i + 1 := if_neg (by omega)

theorem past_injective (k : Nat) : Function.Injective (past k) := by
  intro i j h
  unfold past at h
  split at h <;> split at h <;> omega

theorem past_ne (k i : Nat) : past k i ≠ k := by
  unfold past
  split <;> omega

theorem past_lt_iff (h : k ≤ n) : past k i < n + 1 ↔ i < n := by
  unfold past
  split <;> omega

end Past

def shift {α : Type} (k : Nat) (m : α × Nat) : α × Nat := (m.1, past k m.2)

/-- The second list is the first one with `x` put in at position `k`. -/
def Inserted {α : Type} (k : Nat) (x : α) (xs ys : List α) : Prop :=
  ∃ before after, before.length = k ∧ xs = before ++ after ∧ ys = before ++ x :: after

namespace Inserted

variable {α β : Type} {k : Nat} {x : α} {xs ys : List α}

theorem intro (before after : List α) (x : α) :
    Inserted before.length x (before ++ after) (before ++ x :: after) :=
  ⟨before, after, rfl, rfl, rfl⟩

theorem length_eq (h : Inserted k x xs ys) : ys.length = xs.length + 1 := by
  obtain ⟨before, after, -, rfl, rfl⟩ := h
  simp only [List.length_append, List.length_cons]
  omega

theorem le_length (h : Inserted k x xs ys) : k ≤ xs.length := by
  obtain ⟨before, after, rfl, rfl, -⟩ := h
  rw [List.length_append]
  omega

theorem map (h : Inserted k x xs ys) (f : α → β) : Inserted k (f x) (xs.map f) (ys.map f) := by
  obtain ⟨before, after, rfl, rfl, rfl⟩ := h
  exact ⟨before.map f, after.map f, List.length_map f, List.map_append, by simp⟩

theorem filterMap (h : Inserted k x xs ys) {f : α → Option β} (hx : f x = none) :
    ys.filterMap f = xs.filterMap f := by
  obtain ⟨before, after, -, rfl, rfl⟩ := h
  simp [hx]

theorem filter (h : Inserted k x xs ys) {p : α → Bool} (hx : p x = false) :
    ys.filter p = xs.filter p := by
  obtain ⟨before, after, -, rfl, rfl⟩ := h
  simp [hx]

theorem groupBy {κ : Type} [LT κ] [DecidableLT κ] [DecidableEq κ] (h : Inserted k x xs ys)
    {key : α → Option κ} (hx : key x = none) : Sorted.groupBy key ys = Sorted.groupBy key xs := by
  obtain ⟨before, after, -, rfl, rfl⟩ := h
  exact Sorted.groupBy_append_cons key before after hx

theorem countP (h : Inserted k x xs ys) {p : α → Bool} (hx : p x = false) :
    ys.countP p = xs.countP p := by
  rw [List.countP_eq_length_filter, List.countP_eq_length_filter, h.filter hx]

theorem getElem?_past (h : Inserted k x xs ys) (i : Nat) : ys[past k i]? = xs[i]? := by
  obtain ⟨before, after, rfl, rfl, rfl⟩ := h
  by_cases hi : i < before.length
  · rw [past_of_lt hi, List.getElem?_append_left hi, List.getElem?_append_left hi]
  · have hle : before.length ≤ i := by omega
    rw [past_of_le hle, List.getElem?_append_right hle, List.getElem?_append_right (by omega),
      Nat.succ_sub hle, List.getElem?_cons_succ]

theorem getElem?_toArray_past (h : Inserted k x xs ys) (i : Nat) :
    ys.toArray[past k i]? = xs.toArray[i]? := by
  rw [List.getElem?_toArray, List.getElem?_toArray, h.getElem?_past]

theorem getElem?_self (h : Inserted k x xs ys) : ys[k]? = some x := by
  obtain ⟨before, after, rfl, -, rfl⟩ := h
  rw [List.getElem?_append_right (Nat.le_refl _), Nat.sub_self, List.getElem?_cons_zero]

theorem zipIdx (h : Inserted k x xs ys) :
    Inserted k (x, k) (xs.zipIdx.map (shift k)) ys.zipIdx := by
  obtain ⟨before, after, rfl, rfl, rfl⟩ := h
  refine ⟨before.zipIdx, after.zipIdx (before.length + 1), List.length_zipIdx, ?_, ?_⟩
  · -- in front of the new member nothing moves, and behind it everything moves by one
    have hbefore : before.zipIdx.map (shift before.length) = before.zipIdx := by
      rw [List.map_congr_left (g := id), List.map_id]
      intro m hm
      have hlt := List.snd_lt_of_mem_zipIdx hm
      exact Prod.ext rfl (past_of_lt (by omega))
    have hafter : (after.zipIdx before.length).map (shift before.length) =
        after.zipIdx (before.length + 1) := by
      rw [List.zipIdx_succ]
      apply List.map_congr_left
      intro m hm
      have hle := List.le_snd_of_mem_zipIdx hm
      exact Prod.ext rfl (past_of_le hle)
    rw [List.zipIdx_append, Nat.zero_add, List.map_append, hbefore, hafter]
  · rw [List.zipIdx_append, Nat.zero_add, List.zipIdx_cons]

theorem filterMap_zipIdx (h : Inserted k x xs ys) {f g : α × Nat → Option β}
    (hx : g (x, k) = none) (hfg : ∀ y i, g (y, past k i) = f (y, i)) :
    ys.zipIdx.filterMap g = xs.zipIdx.filterMap f := by
  rw [h.zipIdx.filterMap hx, List.filterMap_map]
  congr 1
  funext m
  exact hfg m.1 m.2

/-- What is found at each place is found at the same place later on. -/
theorem filterMap_zipIdx_map (h : Inserted k x xs ys) {f g : α × Nat → Option β} {φ : β → β}
    (hx : g (x, k) = none) (hfg : ∀ y i, g (y, past k i) = (f (y, i)).map φ) :
    ys.zipIdx.filterMap g = (xs.zipIdx.filterMap f).map φ := by
  rw [List.map_filterMap]
  exact h.filterMap_zipIdx hx hfg

theorem range {n : Nat} (h : k ≤ n) :
    Inserted k k ((List.range n).map (past k)) (List.range (n + 1)) := by
  obtain ⟨m, rfl⟩ := Nat.exists_eq_add_of_le h
  refine ⟨List.range k, (List.range m).map (k + 1 + ·), List.length_range, ?_, ?_⟩
  · rw [List.range_add, List.map_append, List.map_map]
    congr 1
    · rw [List.map_congr_left (g := id), List.map_id]
      intro i hi
      exact past_of_lt (List.mem_range.1 hi)
    · apply List.map_congr_left
      intro i _
      rw [Function.comp, past_of_le (Nat.le_add_right k i)]
      omega
  · rw [Nat.add_assoc, List.range_add, List.range_succ_eq_map, List.map_cons, List.map_map]
    congr 3
    funext i
    simp only [Function.comp]
    omega

theorem mapM {f : α → Option β} {y : β} (h : Inserted k x xs ys) (hx : f x = some y)
    {zs : List β} (hzs : xs.mapM f = some zs) : ∃ ws, ys.mapM f = some ws ∧ Inserted k y zs ws := by
  obtain ⟨before, after, rfl, rfl, rfl⟩ := h
  rw [List.mapM_append] at hzs
  obtain ⟨front, hfront, hzs⟩ := Option.bind_eq_some_iff.1 hzs
  obtain ⟨back, hback, hzs⟩ := Option.bind_eq_some_iff.1 hzs
  obtain rfl := Option.some.inj hzs
  -- each member in front has one answer, so the new answer stands where the new member does
  have hlen := congrArg List.length (Lists.map_eq_of_mapM hfront)
  rw [List.length_map, List.length_map] at hlen
  refine ⟨front ++ y :: back, ?_, front, back, hlen.symm, rfl, rfl⟩
  simp [List.mapM_append, List.mapM_cons, hfront, hback, hx]

end Inserted

end LedgerWatch
