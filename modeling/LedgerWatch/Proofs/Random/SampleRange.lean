import LedgerWatch.Random.Sample

namespace LedgerWatch.Random

theorem Stream.position_lt {lo hi : Nat} (h : lo < hi) (s : Stream) :
    (s.position lo hi).1 < hi := by
  unfold Stream.position
  rw [dif_pos (by omega)]
  have hi := (s.index32 (hi - lo) (by omega)).1.isLt
  simp only
  omega

theorem swapIfInBounds_perm {α : Type} (a : Array α) (i j : Nat) :
    (a.swapIfInBounds i j).Perm a := by
  unfold Array.swapIfInBounds
  split
  · split
    · exact Array.swap_perm _ _
    · exact .rfl
  · exact .rfl

theorem shuffleFront_perm (n : Nat) (is : List Nat) (a : Array Nat) (s : Stream) :
    (shuffleFront n is a s).1.Perm a := by
  induction is generalizing a s with
  | nil => exact .rfl
  | cons i is ih => exact (ih _ _).trans (swapIfInBounds_perm a i _)

theorem shuffleBack_perm (is : List Nat) (a : Array Nat) (s : Stream) :
    (shuffleBack is a s).1.Perm a := by
  induction is generalizing a s with
  | nil => exact .rfl
  | cons i is ih => exact (ih _ _).trans (swapIfInBounds_perm a i _)

theorem lt_of_mem_sampleInPlace {n k i : Nat} {s : Stream} (h : i ∈ (sampleInPlace n k s).1) :
    i < n := by
  have hmem : i ∈ (shuffleFront n (List.range k) (Array.range n) s).1.toList :=
    List.mem_of_mem_take h
  rw [Array.mem_toList_iff, (shuffleFront_perm n _ _ s).mem_iff] at hmem
  simpa using hmem

theorem mem_insertIdx_or {i j place : Nat} {picks : List Nat}
    (h : i ∈ picks.insertIdx place j) : i = j ∨ i ∈ picks := by
  by_cases hplace : place ≤ picks.length
  · exact (List.mem_insertIdx hplace).1 h
  · rw [List.insertIdx_of_length_lt (by omega)] at h
    exact .inr h

/-- A pick for `j` is at most `j`, and so is what takes its place. -/
theorem lt_of_mem_pick {n : Nat} (inFront : Bool) {js picks : List Nat} {s : Stream} {i : Nat}
    (hjs : ∀ j ∈ js, j < n) (hpicks : ∀ p ∈ picks, p < n)
    (h : i ∈ (pick inFront js picks s).1) : i < n := by
  induction js generalizing picks s with
  | nil => exact hpicks i h
  | cons j js ih =>
    have hj : j < n := hjs j List.mem_cons_self
    have hrest : ∀ j ∈ js, j < n := fun j hj => hjs j (List.mem_cons_of_mem _ hj)
    unfold pick at h
    have ht := s.position_lt (Nat.zero_lt_succ j)
    generalize s.position 0 (j + 1) = drawn at h ht
    simp only at h
    split at h
    · -- picked before: `j` itself takes a place instead
      refine ih hrest ?_ h
      intro p hp
      rcases mem_insertIdx_or hp with rfl | hp
      · exact hj
      · exact hpicks p hp
    · refine ih hrest ?_ h
      intro p hp
      rcases List.mem_append.1 hp with hp | hp
      · exact hpicks p hp
      · rw [List.mem_singleton.1 hp]
        omega

theorem lt_of_mem_sampleOneByOne {n k i : Nat} (hk : k ≤ n) {s : Stream}
    (h : i ∈ (sampleOneByOne n k s).1) : i < n := by
  have hpick : ∀ i ∈ (pick (k < fewPicks) (List.range' (n - k) k) [] s).1, i < n := by
    intro i hi
    refine lt_of_mem_pick _ ?_ (by simp) hi
    intro j hj
    have := List.mem_range'_1.1 hj
    omega
  unfold sampleOneByOne at h
  generalize pick (k < fewPicks) (List.range' (n - k) k) [] s = picked at h hpick
  simp only at h
  split at h
  · exact hpick i h
  · rw [Array.mem_toList_iff, (shuffleBack_perm _ _ _).mem_iff] at h
    exact hpick i (by simpa using h)

theorem lt_of_mem_pickNew {size n : Nat} (hn : 0 < n) (next : Stream → Fin size × Stream) (k : Nat)
    {picks : List Nat} {s : Stream} (hpicks : ∀ p ∈ picks, p < n) {i : Nat}
    (h : i ∈ (pickNew hn next k picks s).1) : i < n := by
  induction k generalizing picks s with
  | zero => exact hpicks i h
  | succ k ih =>
    unfold pickNew at h
    generalize drawNew hn next picks s = drawn at h
    refine ih ?_ h
    intro p hp
    rcases List.mem_append.1 hp with hp | hp
    · exact hpicks p hp
    · rw [List.mem_singleton.1 hp]
      exact drawn.1.isLt

theorem lt_of_mem_sampleSparse {size : Nat} {next : Stream → Fin size × Stream} {n k i : Nat}
    {s : Stream} (h : i ∈ (sampleSparse next n k s).1) : i < n := by
  unfold sampleSparse at h
  split at h
  · rename_i hn
    exact lt_of_mem_pickNew hn next k (by simp) h
  · simp at h

theorem Stream.lt_of_mem_sample {n k i : Nat} (hk : k ≤ n) {s : Stream}
    (h : i ∈ (s.sample n k).1) : i < n := by
  unfold Stream.sample at h
  split at h
  · split at h
    · exact lt_of_mem_sampleInPlace h
    · exact lt_of_mem_sampleOneByOne hk h
    · exact lt_of_mem_sampleSparse h
  · exact lt_of_mem_sampleSparse h

end LedgerWatch.Random
