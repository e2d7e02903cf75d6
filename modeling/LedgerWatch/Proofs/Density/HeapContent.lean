import LedgerWatch.Density.Neighbors

namespace LedgerWatch.Density

variable {n : Nat}

theorem siftUp_perm (h : Vector Entry n) (i : Nat) (hi : i < n) : (siftUp h i hi).Perm h := by
  fun_induction siftUp h i hi with
  | case1 => exact .rfl
  | case2 h i hi hpos parent hless ih => exact ih.trans (Vector.swap_perm _ _)
  | case3 => exact .rfl

theorem siftToBottom_perm (h : Vector Entry n) (i : Nat) (hi : i < n) :
    (siftToBottom h i hi).Perm h := by
  fun_induction siftToBottom h i hi with
  | case1 h i hi hboth child hc ih => exact ih.trans (Vector.swap_perm _ _)
  | case2 h i hi hboth hone => exact (siftUp_perm _ _ _).trans (Vector.swap_perm _ _)
  | case3 h i hi => exact siftUp_perm _ _ _

theorem siftDown_perm (m : Nat) (hm : m ≤ n) (h : Vector Entry n) (i : Nat) :
    (siftDown m hm h i).Perm h := by
  fun_induction siftDown m hm h i with
  | case1 => exact .rfl
  | case2 h i hboth child hc hchild hi hless ih => exact ih.trans (Vector.swap_perm _ _)
  | case3 => exact Vector.swap_perm _ _
  | case4 => exact .rfl
  | case5 => exact .rfl

theorem unload_perm (h : Vector Entry n) (m : Nat) (hm : m ≤ n) : (unload h m hm).Perm h := by
  fun_induction unload h m hm with
  | case1 => exact .rfl
  | case2 => exact .rfl
  | case3 h m hm ih =>
    exact (ih.trans (siftDown_perm _ _ _ _)).trans (Vector.swap_perm _ _)

namespace Heap

theorem push_perm (h : Heap) (e : Entry) : (h.push e).Perm (Array.push h e) :=
  (siftUp_perm _ _ _).toArray

theorem size_push (h : Heap) (e : Entry) : (h.push e).size = h.size + 1 := by
  rw [(push_perm h e).size_eq, Array.size_push]

theorem toSortedList_perm (h : Heap) : h.toSortedList.Perm h.toList :=
  (unload_perm _ _ _).toList

theorem cons_pop_perm (h : Heap) (hpos : 0 < h.size) : (h[0] :: h.pop.toList).Perm h.toList := by
  obtain ⟨es⟩ := h
  cases es with
  | nil => simp at hpos
  | cons top es =>
    rcases es.eq_nil_or_concat with rfl | ⟨rest, last, rfl⟩
    · simp [pop]
    · -- the last entry takes the place of the top before it is sifted
      have hpop : (pop (top :: (rest ++ [last])).toArray).toList.Perm (last :: rest) := by
        unfold pop
        rw [dif_pos (by simp)]
        refine (siftToBottom_perm _ _ _).toList.trans ?_
        simp [List.dropLast]
      have hback := (List.perm_append_singleton last rest).symm
      simp only [List.concat_eq_append]
      exact (hpop.trans hback).cons top

theorem mem_of_mem_pop {h : Heap} {e : Entry} (he : e ∈ h.pop) : e ∈ h := by
  by_cases hpos : 0 < h.size
  · have hmem : e ∈ h[0] :: h.pop.toList := List.mem_cons_of_mem _ (Array.mem_toList_iff.2 he)
    exact Array.mem_toList_iff.1 ((cons_pop_perm h hpos).mem_iff.1 hmem)
  · rw [pop, dif_neg (by omega)] at he
    simp at he

theorem mem_push_iff {h : Heap} {e x : Entry} : x ∈ h.push e ↔ x ∈ h ∨ x = e := by
  rw [(push_perm h e).mem_iff, Array.mem_push]

end Heap

section Renaming

variable {g : Entry → Entry}

theorem atMost_map (hg : ∀ e, (g e).distance = e.distance) (a b : Entry) :
    (g a).atMost (g b) = a.atMost b := by
  simp only [Entry.atMost, hg]

theorem below_map (hg : ∀ e, (g e).distance = e.distance) (a b : Entry) :
    (g a).below (g b) = a.below b := by
  simp only [Entry.below, hg]

theorem map_swap (h : Vector Entry n) (i j : Nat) (hi : i < n) (hj : j < n) :
    (h.map g).swap i j = (h.swap i j).map g := by
  ext k hk
  simp only [Vector.getElem_swap, Vector.getElem_map]
  split
  · rfl
  · split <;> rfl

theorem siftUp_map (hg : ∀ e, (g e).distance = e.distance) (h : Vector Entry n) (i : Nat)
    (hi : i < n) : siftUp (h.map g) i hi = (siftUp h i hi).map g := by
  fun_induction siftUp h i hi with
  | case1 h i hi hpos parent hle =>
    rw [siftUp, dif_pos hpos, if_pos (by simpa [atMost_map hg] using hle)]
  | case2 h i hi hpos parent hless ih =>
    rw [siftUp, dif_pos hpos, if_neg (by simpa [atMost_map hg] using hless), map_swap]
    exact ih
  | case3 h i hi hroot => rw [siftUp, dif_neg hroot]

theorem fartherChild_map (hg : ∀ e, (g e).distance = e.distance) (h : Vector Entry n) (i : Nat)
    (hi : 2 * i + 2 < n) : fartherChild (h.map g) i hi = fartherChild h i hi := by
  simp only [fartherChild, Vector.getElem_map, atMost_map hg]

theorem siftToBottom_map (hg : ∀ e, (g e).distance = e.distance) (h : Vector Entry n) (i : Nat)
    (hi : i < n) : siftToBottom (h.map g) i hi = (siftToBottom h i hi).map g := by
  fun_induction siftToBottom h i hi with
  | case1 h i hi hboth child hc ih =>
    rw [siftToBottom, dif_pos hboth]
    simp only [fartherChild_map hg, map_swap]
    exact ih
  | case2 h i hi hboth hone =>
    rw [siftToBottom, dif_neg hboth, dif_pos hone, map_swap, siftUp_map hg]
  | case3 h i hi hboth hone =>
    rw [siftToBottom, dif_neg hboth, dif_neg hone, siftUp_map hg]

theorem siftDown_map (hg : ∀ e, (g e).distance = e.distance) (m : Nat) (hm : m ≤ n)
    (h : Vector Entry n) (i : Nat) : siftDown m hm (h.map g) i = (siftDown m hm h i).map g := by
  fun_induction siftDown m hm h i with
  | case1 h i hboth child hc hchild hi hle =>
    rw [siftDown, dif_pos hboth]
    simp only [fartherChild_map hg, Vector.getElem_map, atMost_map hg]
    rw [if_pos hle]
  | case2 h i hboth child hc hchild hi hless ih =>
    rw [siftDown, dif_pos hboth]
    simp only [fartherChild_map hg, Vector.getElem_map, atMost_map hg, map_swap]
    rw [if_neg hless]
    exact ih
  | case3 h i hboth hone hchild hi hlt =>
    rw [siftDown, dif_neg hboth, dif_pos hone, if_pos (by simpa [below_map hg] using hlt), map_swap]
  | case4 h i hboth hone hchild hi hlt =>
    rw [siftDown, dif_neg hboth, dif_pos hone, if_neg (by simpa [below_map hg] using hlt)]
  | case5 h i hboth hone => rw [siftDown, dif_neg hboth, dif_neg hone]

theorem unload_map (hg : ∀ e, (g e).distance = e.distance) (h : Vector Entry n) (m : Nat)
    (hm : m ≤ n) : unload (h.map g) m hm = (unload h m hm).map g := by
  fun_induction unload h m hm with
  | case1 => rfl
  | case2 => rfl
  | case3 h m hm ih => rw [unload, map_swap, siftDown_map hg, ih]

theorem eq_map_of_toArray {m : Nat} {v : Vector Entry m} {w : Vector Entry n}
    (h : v.toArray = w.toArray.map g) : ∃ hmn : m = n, hmn ▸ v = w.map g := by
  obtain rfl : m = n := by simpa using congrArg Array.size h
  exact ⟨rfl, Vector.toArray_inj.1 (by simpa using h)⟩

namespace Heap

variable (hg : ∀ e, (g e).distance = e.distance)
include hg

theorem push_map (h : Heap) (e : Entry) : push (h.map g) (g e) = (push h e).map g := by
  -- the two lengths are written differently, so the vectors are compared as arrays
  have key : ∀ {m n : Nat} (v : Vector Entry m) (w : Vector Entry n) (i j : Nat) (hi : i < m)
      (hj : j < n), v.toArray = w.toArray.map g → i = j →
      (siftUp v i hi).toArray = (siftUp w j hj).toArray.map g := by
    intro m n v w i j hi hj hvw hij
    obtain ⟨rfl, rfl⟩ := eq_map_of_toArray hvw
    subst hij
    rw [siftUp_map hg, Vector.toArray_map]
  unfold push
  exact key _ _ _ _ _ _ (by simp) (by simp)

theorem pop_map (h : Heap) : pop (h.map g) = (pop h).map g := by
  have key : ∀ {m n : Nat} (v : Vector Entry m) (w : Vector Entry n) (hv : 0 < m) (hw : 0 < n),
      v.toArray = w.toArray.map g →
      (siftToBottom v 0 hv).toArray = (siftToBottom w 0 hw).toArray.map g := by
    intro m n v w hv hw hvw
    obtain ⟨rfl, rfl⟩ := eq_map_of_toArray hvw
    rw [siftToBottom_map hg, Vector.toArray_map]
  unfold pop
  by_cases hpos : 1 < h.size
  · rw [dif_pos (by simpa using hpos), dif_pos hpos]
    exact key _ _ _ _ (by simp)
  · rw [dif_neg (by simpa using hpos), dif_neg hpos, Array.map_empty]

theorem toSortedList_map (h : Heap) : toSortedList (h.map g) = (toSortedList h).map g := by
  have key : ∀ {m n : Nat} (v : Vector Entry m) (w : Vector Entry n) (i j : Nat) (hi : i ≤ m)
      (hj : j ≤ n), v.toArray = w.toArray.map g → i = j →
      (unload v i hi).toList = (unload w j hj).toList.map g := by
    intro m n v w i j hi hj hvw hij
    obtain ⟨rfl, rfl⟩ := eq_map_of_toArray hvw
    subst hij
    rw [unload_map hg, Vector.toList_map]
  unfold toSortedList
  exact key _ _ _ _ _ _ (by simp) (by simp)

theorem keep_map (k : Nat) (h : Heap) (e : Entry) :
    keep k (h.map g) (g e) = (keep k h e).map g := by
  unfold keep
  simp only [Array.size_map, push_map hg, Array.getElem?_map]
  split
  · rfl
  · cases h[0]? with
    | none => rfl
    | some top =>
      simp only [Option.map_some, hg]
      split
      · rw [pop_map hg, push_map hg]
      · rfl

theorem foldl_keep_map (k : Nat) (es : List Entry) (h : Heap) :
    (es.map g).foldl (keep k) (h.map g) = (es.foldl (keep k) h).map g := by
  induction es generalizing h with
  | nil => rfl
  | cons e es ih =>
    rw [List.map_cons, List.foldl_cons, keep_map hg, ih, List.foldl_cons]

end Heap

end Renaming

theorem mem_of_mem_keep {k : Nat} {h : Heap} {e x : Entry} (hx : x ∈ keep k h e) :
    x ∈ h ∨ x = e := by
  unfold keep at hx
  split at hx
  · exact Heap.mem_push_iff.1 hx
  · split at hx
    · exact .inl hx
    · split at hx
      · exact (Heap.mem_push_iff.1 hx).imp_left Heap.mem_of_mem_pop
      · exact .inl hx

theorem mem_of_mem_foldl_keep {k : Nat} {es : List Entry} {h : Heap} {x : Entry}
    (hx : x ∈ es.foldl (keep k) h) : x ∈ h ∨ x ∈ es := by
  induction es generalizing h with
  | nil => exact .inl hx
  | cons e es ih =>
    rcases ih hx with hx | hx
    · rcases mem_of_mem_keep hx with hx | rfl
      · exact .inl hx
      · exact .inr List.mem_cons_self
    · exact .inr (List.mem_cons_of_mem _ hx)

/-- Where there is room for all entries, it does not matter how much more there is. -/
theorem foldl_keep_of_room {k l : Nat} {es : List Entry} {h : Heap}
    (hk : h.size + es.length ≤ k) (hl : h.size + es.length ≤ l) :
    es.foldl (keep k) h = es.foldl (keep l) h := by
  induction es generalizing h with
  | nil => rfl
  | cons e es ih =>
    simp only [List.length_cons] at hk hl
    -- while there is room an entry is pushed, whatever the limit is
    have hkeep : ∀ m, h.size + (es.length + 1) ≤ m → keep m h e = h.push e := by
      intro m hm
      rw [keep, if_pos (by omega)]
    rw [List.foldl_cons, List.foldl_cons, hkeep k hk, hkeep l hl]
    exact ih (by rw [Heap.size_push]; omega) (by rw [Heap.size_push]; omega)

end LedgerWatch.Density
