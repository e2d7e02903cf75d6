import LedgerWatch.Proofs.Density.HeapContent
import LedgerWatch.Proofs.Number.Quotients

namespace LedgerWatch.Density

open Binary64

/-- The distance of the entry at a position; where there is none, zero stands for it. -/
def distanceAt (h : Array Entry) (i : Nat) : Float := ((h[i]?).map Entry.distance).getD 0

def Numeric (d : Nat → Float) : Prop := ∀ i, (d i).isNaN = false

/-- None of the first `m` entries is farther than its parent. -/
def Ordered (d : Nat → Float) (m : Nat) : Prop := ∀ i, 0 < i → i < m → d i ≤ d ((i - 1) / 2)

/-- The first `m` entries are ordered, but for the one at `p`, which may be out of place. -/
structure Loose (d : Nat → Float) (m p : Nat) : Prop where
  elsewhere : ∀ i, 0 < i → i < m → i ≠ p → (i - 1) / 2 ≠ p → d i ≤ d ((i - 1) / 2)
  across : 0 < p → ∀ i, 0 < i → i < m → (i - 1) / 2 = p → d i ≤ d ((p - 1) / 2)

/-- No child of `p` among the first `m` entries is farther than `x`. -/
def ChildrenAtMost (d : Nat → Float) (m p : Nat) (x : Float) : Prop :=
  ∀ i, 0 < i → i < m → (i - 1) / 2 = p → d i ≤ x

def UnderParent (d : Nat → Float) (p : Nat) : Prop := 0 < p → d p ≤ d ((p - 1) / 2)

/-- Two entries have changed places. -/
structure Exchanged (d d' : Nat → Float) (p q : Nat) : Prop where
  left : d' p = d q
  right : d' q = d p
  other : ∀ i, i ≠ p → i ≠ q → d' i = d i

/-- The first `m` entries are some of the first `m`, and the others have not been moved. -/
structure Shuffled (d d' : Nat → Float) (m : Nat) : Prop where
  front : ∀ i < m, ∃ j < m, d' i = d j
  back : ∀ i, m ≤ i → d' i = d i

section Places

variable {d d' : Nat → Float} {m p q c : Nat}

theorem Ordered.le_first (h : Ordered d m) (hd : Numeric d) {i : Nat} (hi : i < m) : d i ≤ d 0 := by
  induction i using Nat.strong_induction_on with
  | h i ih =>
    rcases Nat.eq_zero_or_pos i with rfl | hpos
    · exact le_refl_of_not_isNaN (hd 0)
    · exact le_trans (h i hpos hi) (ih _ (by omega) (by omega))

theorem Loose.ordered (h : Loose d m p) (hchildren : ChildrenAtMost d m p (d p))
    (hparent : UnderParent d p) : Ordered d m := by
  intro i hpos hi
  by_cases hip : i = p
  · subst hip
    exact hparent hpos
  · by_cases hchild : (i - 1) / 2 = p
    · rw [hchild]
      exact hchildren i hpos hi hchild
    · exact h.elsewhere i hpos hi hip hchild

theorem Exchanged.numeric (h : Exchanged d d' p q) (hd : Numeric d) : Numeric d' := by
  intro i
  by_cases hp : i = p
  · rw [hp, h.left]
    exact hd q
  · by_cases hq : i = q
    · rw [hq, h.right]
      exact hd p
    · rw [h.other i hp hq]
      exact hd i

/-- An entry rises to the place of its parent. -/
theorem Loose.rise (h : Loose d m p) (hx : Exchanged d d' p ((p - 1) / 2)) (hpos : 0 < p)
    (hp : p < m) (hle : d ((p - 1) / 2) ≤ d p) :
    Loose d' m ((p - 1) / 2) ∧ ChildrenAtMost d' m ((p - 1) / 2) (d' ((p - 1) / 2)) := by
  obtain ⟨q, hq⟩ : ∃ q, q = (p - 1) / 2 := ⟨_, rfl⟩
  rw [← hq] at hx hle ⊢
  have hqp : q < p := by omega
  refine ⟨⟨?_, ?_⟩, ?_⟩
  · intro i hi him hiq hchild
    by_cases hip : i = p
    · omega
    · rw [hx.other i hip hiq]
      by_cases hparent : (i - 1) / 2 = p
      · rw [hparent, hx.left, hq]
        exact h.across hpos i hi him hparent
      · rw [hx.other _ hparent hchild]
        exact h.elsewhere i hi him hip hparent
  · intro hqpos i hi him hchild
    have hgrand : d q ≤ d ((q - 1) / 2) := h.elsewhere q hqpos (by omega) (by omega) (by omega)
    rw [hx.other ((q - 1) / 2) (by omega) (by omega)]
    by_cases hip : i = p
    · rw [hip, hx.left]
      exact hgrand
    · have hsibling := h.elsewhere i hi him hip (by omega)
      rw [hchild] at hsibling
      rw [hx.other i hip (by omega)]
      exact le_trans hsibling hgrand
  · intro i hi him hchild
    rw [hx.right]
    by_cases hip : i = p
    · rw [hip, hx.left]
      exact hle
    · have hsibling := h.elsewhere i hi him hip (by omega)
      rw [hchild] at hsibling
      rw [hx.other i hip (by omega)]
      exact le_trans hsibling hle

/-- An entry sinks to the place of a child, the farther one where there are two. -/
theorem Loose.sink (h : Loose d m p) (hx : Exchanged d d' p c) (hc : 0 < c ∧ (c - 1) / 2 = p)
    (hcm : c < m) (hchildren : ChildrenAtMost d m p (d c)) : Loose d' m c := by
  have hpc : p < c := by omega
  constructor
  · intro i hi him hic hchild
    by_cases hip : i = p
    · subst hip
      rw [hx.left, hx.other _ (by omega) hchild]
      exact h.across hi c hc.1 hcm hc.2
    · rw [hx.other i hip hic]
      by_cases hparent : (i - 1) / 2 = p
      · rw [hparent, hx.left]
        exact hchildren i hi him hparent
      · rw [hx.other _ hparent hchild]
        exact h.elsewhere i hi him hip hparent
  · intro _ i hi him hchild
    have hbelow := h.elsewhere i hi him (by omega) (by omega)
    rw [hchild] at hbelow
    rw [hc.2, hx.left, hx.other i (by omega) (by omega)]
    exact hbelow

namespace Shuffled

theorem refl (d : Nat → Float) (m : Nat) : Shuffled d d m :=
  ⟨fun i hi => ⟨i, hi, rfl⟩, fun _ _ => rfl⟩

theorem trans {d'' : Nat → Float} (h : Shuffled d d' m) (h' : Shuffled d' d'' m) :
    Shuffled d d'' m := by
  refine ⟨?_, fun i hi => (h'.back i hi).trans (h.back i hi)⟩
  intro i hi
  obtain ⟨j, hj, hij⟩ := h'.front i hi
  obtain ⟨k, hk, hjk⟩ := h.front j hj
  exact ⟨k, hk, hij.trans hjk⟩

theorem of_exchanged (h : Exchanged d d' p q) (hp : p < m) (hq : q < m) : Shuffled d d' m := by
  constructor
  · intro i hi
    by_cases hip : i = p
    · exact ⟨q, hq, by rw [hip, h.left]⟩
    · by_cases hiq : i = q
      · exact ⟨p, hp, by rw [hiq, h.right]⟩
      · exact ⟨i, hi, h.other i hip hiq⟩
  · intro i hi
    exact h.other i (by omega) (by omega)

end Shuffled

end Places

section Sifting

variable {n : Nat}

theorem distanceAt_eq (h : Vector Entry n) {i : Nat} (hi : i < n) :
    distanceAt h.toArray i = h[i].distance := by
  simp [distanceAt, hi]

theorem exchanged_swap (h : Vector Entry n) {i j : Nat} (hi : i < n) (hj : j < n) :
    Exchanged (distanceAt h.toArray) (distanceAt (h.swap i j).toArray) i j := by
  refine ⟨?_, ?_, ?_⟩
  · rw [distanceAt_eq _ hi, distanceAt_eq _ hj, Vector.getElem_swap_left]
  · rw [distanceAt_eq _ hi, distanceAt_eq _ hj, Vector.getElem_swap_right]
  · intro k hki hkj
    by_cases hk : k < n
    · rw [distanceAt_eq _ hk, distanceAt_eq _ hk, Vector.getElem_swap_of_ne hki hkj]
    · simp [distanceAt, hk]

theorem atMost_iff {a b : Entry} (ha : a.distance.isNaN = false) (hb : b.distance.isNaN = false) :
    a.atMost b = true ↔ a.distance ≤ b.distance := by
  simp [Entry.atMost, not_lt_iff hb ha]

theorem not_atMost_iff {a b : Entry} : ¬a.atMost b = true ↔ b.distance < a.distance := by
  simp [Entry.atMost]

theorem below_iff {a b : Entry} : a.below b = true ↔ a.distance < b.distance := by
  simp [Entry.below]

variable {h : Vector Entry n} {i : Nat}

theorem ordered_siftUp (hi : i < n) (hd : Numeric (distanceAt h.toArray))
    (hloose : Loose (distanceAt h.toArray) n i)
    (hchildren : ChildrenAtMost (distanceAt h.toArray) n i (distanceAt h.toArray i)) :
    Ordered (distanceAt (siftUp h i hi).toArray) n := by
  fun_induction siftUp h i hi with
  | case1 h i hi hpos parent hle =>
    have hparent : parent < n := by omega
    refine hloose.ordered hchildren fun _ => ?_
    rw [distanceAt_eq _ hi, distanceAt_eq _ hparent]
    rw [atMost_iff (distanceAt_eq h hi ▸ hd i) (distanceAt_eq h hparent ▸ hd parent)] at hle
    exact hle
  | case2 h i hi hpos parent hless ih =>
    have hparent : parent < n := by omega
    have hswap := exchanged_swap h hi hparent
    have hle : distanceAt h.toArray parent ≤ distanceAt h.toArray i := by
      rw [distanceAt_eq _ hi, distanceAt_eq _ hparent]
      exact le_of_lt (not_atMost_iff.1 hless)
    obtain ⟨hloose', hchildren'⟩ := hloose.rise hswap hpos hi hle
    exact ih (hswap.numeric hd) hloose' hchildren'
  | case3 h i hi hroot => exact hloose.ordered hchildren fun hpos => absurd hpos hroot

/-- Neither child is farther than the one that is chosen. -/
theorem childrenAtMost_fartherChild {m : Nat} (hd : Numeric (distanceAt h.toArray))
    (hi : 2 * i + 2 < n) :
    ChildrenAtMost (distanceAt h.toArray) m i (distanceAt h.toArray (fartherChild h i hi)) := by
  have hleft : 2 * i + 1 < n := by omega
  have hnan := fun (k : Nat) (hk : k < n) => distanceAt_eq h hk ▸ hd k
  intro k hpos _ hchild
  have hk : k = 2 * i + 1 ∨ k = 2 * i + 2 := by omega
  unfold fartherChild
  split
  · rename_i hle
    rw [atMost_iff (hnan _ hleft) (hnan _ hi)] at hle
    rcases hk with rfl | rfl
    · rw [distanceAt_eq _ hleft, distanceAt_eq _ hi]
      exact hle
    · exact le_refl_of_not_isNaN (hd _)
  · rename_i hless
    rcases hk with rfl | rfl
    · exact le_refl_of_not_isNaN (hd _)
    · rw [distanceAt_eq _ hleft, distanceAt_eq _ hi]
      exact le_of_lt (not_atMost_iff.1 hless)

theorem isChild_fartherChild (hi : 2 * i + 2 < n) :
    0 < fartherChild h i hi ∧ (fartherChild h i hi - 1) / 2 = i := by
  have hbounds := fartherChild_bounds h i hi
  omega

theorem ordered_siftToBottom (hi : i < n) (hd : Numeric (distanceAt h.toArray))
    (hloose : Loose (distanceAt h.toArray) n i) :
    Ordered (distanceAt (siftToBottom h i hi).toArray) n := by
  fun_induction siftToBottom h i hi with
  | case1 h i hi hboth child hc ih =>
    have hswap := exchanged_swap h hi (show child < n by omega)
    exact ih (hswap.numeric hd) (hloose.sink hswap (isChild_fartherChild hboth) (by omega)
      (childrenAtMost_fartherChild hd hboth))
  | case2 h i hi hboth hone =>
    have hswap := exchanged_swap h hi hone
    have honly : ChildrenAtMost (distanceAt h.toArray) n i (distanceAt h.toArray (2 * i + 1)) := by
      intro k hpos hk hchild
      obtain rfl : k = 2 * i + 1 := by omega
      exact le_refl_of_not_isNaN (hd _)
    refine ordered_siftUp hone (hswap.numeric hd)
      (hloose.sink hswap ⟨by omega, by omega⟩ hone honly) ?_
    intro k hpos hk hchild
    omega
  | case3 h i hi hboth hone =>
    refine ordered_siftUp hi hd hloose ?_
    intro k hpos hk hchild
    omega

theorem ordered_siftDown {m : Nat} (hm : m ≤ n) (hd : Numeric (distanceAt h.toArray))
    (hloose : Loose (distanceAt h.toArray) m i) (hparent : UnderParent (distanceAt h.toArray) i) :
    Ordered (distanceAt (siftDown m hm h i).toArray) m := by
  fun_induction siftDown m hm h i with
  | case1 h i hboth child hc hchild hi hle =>
    rw [atMost_iff (distanceAt_eq h hchild ▸ hd child) (distanceAt_eq h hi ▸ hd i),
      ← distanceAt_eq, ← distanceAt_eq] at hle
    refine hloose.ordered ?_ hparent
    intro k hpos hk hk'
    exact le_trans (childrenAtMost_fartherChild hd (by omega) k hpos hk hk') hle
  | case2 h i hboth child hc hchild hi hless ih =>
    have hswap := exchanged_swap h hi hchild
    refine ih (hswap.numeric hd) (hloose.sink hswap (isChild_fartherChild (by omega)) (by omega)
      (childrenAtMost_fartherChild hd (by omega))) ?_
    intro _
    have hback : (child - 1) / 2 = i := (isChild_fartherChild (h := h) (by omega)).2
    rw [hback, hswap.left, hswap.right, distanceAt_eq _ hi, distanceAt_eq _ hchild]
    exact le_of_lt (not_atMost_iff.1 hless)
  | case3 h i hboth hone hchild hi hlt =>
    have hswap := exchanged_swap h hi hchild
    have honly : ChildrenAtMost (distanceAt h.toArray) m i (distanceAt h.toArray (2 * i + 1)) := by
      intro k hpos hk hk'
      obtain rfl : k = 2 * i + 1 := by omega
      exact le_refl_of_not_isNaN (hd _)
    refine (hloose.sink hswap ⟨by omega, by omega⟩ hone honly).ordered ?_ ?_
    · intro k hpos hk hk'
      omega
    · intro _
      have hback : (2 * i + 1 - 1) / 2 = i := by omega
      rw [hback, hswap.left, hswap.right, distanceAt_eq _ hi, distanceAt_eq _ hchild]
      exact le_of_lt (below_iff.1 hlt)
  | case4 h i hboth hone hchild hi hge =>
    refine hloose.ordered ?_ hparent
    intro k hpos hk hk'
    obtain rfl : k = 2 * i + 1 := by omega
    rw [below_iff, ← distanceAt_eq, ← distanceAt_eq, not_lt_iff (hd _) (hd _)] at hge
    exact hge
  | case5 h i hboth hone =>
    refine hloose.ordered ?_ hparent
    intro k hpos hk hk'
    omega

theorem shuffled_siftDown {m : Nat} (hm : m ≤ n) :
    Shuffled (distanceAt h.toArray) (distanceAt (siftDown m hm h i).toArray) m := by
  fun_induction siftDown m hm h i with
  | case1 => exact .refl _ _
  | case2 h i hboth child hc hchild hi hless ih =>
    exact (Shuffled.of_exchanged (exchanged_swap h hi hchild) (by omega) (by omega)).trans ih
  | case3 h i hboth hone hchild hi hlt =>
    exact .of_exchanged (exchanged_swap h hi hchild) (by omega) hone
  | case4 => exact .refl _ _
  | case5 => exact .refl _ _

end Sifting

section Unloading

variable {n : Nat} {d d' d'' : Nat → Float} {m : Nat}

/-- The first `m` entries are still a heap, and behind them each entry is at least as far as all
in front of it. -/
structure Unloaded (d : Nat → Float) (m n : Nat) : Prop where
  front : Ordered d m
  back : ∀ i j, i < j → m ≤ j → j < n → d i ≤ d j

/-- The top has gone behind the others, and those have been put into order again. -/
theorem Unloaded.back_of_sifted (h : Unloaded d (m + 1) n) (hd : Numeric d)
    (hx : Exchanged d d' 0 m) (hs : Shuffled d' d'' m) :
    ∀ i j, i < j → m ≤ j → j < n → d'' i ≤ d'' j := by
  -- whatever stands in front of `j` now has stood there before
  have hfront : ∀ i j, i < j → m ≤ j → ∃ k ≤ j, (j ≠ m → k ≠ j) ∧ d'' i = d k := by
    intro i j hij hmj
    have hlocal : ∀ i < m, ∃ k < m + 1, d' i = d k := by
      intro i hi
      by_cases hzero : i = 0
      · exact ⟨m, by omega, by rw [hzero, hx.left]⟩
      · exact ⟨i, by omega, hx.other i hzero (by omega)⟩
    rcases Nat.lt_trichotomy i m with hlt | rfl | hgt
    · obtain ⟨k, hk, hik⟩ := hs.front i hlt
      obtain ⟨l, hl, hkl⟩ := hlocal k hk
      exact ⟨l, by omega, by omega, hik.trans hkl⟩
    · exact ⟨0, by omega, by omega, by rw [hs.back i le_rfl, hx.right]⟩
    · exact ⟨i, by omega, by omega, by rw [hs.back i hgt.le, hx.other i (by omega) (by omega)]⟩
  intro i j hij hmj hj
  obtain ⟨k, hk, hne, hik⟩ := hfront i j hij hmj
  rw [hik]
  by_cases hjm : j = m
  · rw [hs.back j hmj, hjm, hx.right]
    exact h.front.le_first hd (by omega)
  · rw [hs.back j hmj, hx.other j (by omega) hjm]
    have hkj : k ≠ j := hne hjm
    exact h.back k j (by omega) (by omega) hj

theorem increasing_unload {h : Vector Entry n} {m : Nat} (hm : m ≤ n)
    (hd : Numeric (distanceAt h.toArray)) (hu : Unloaded (distanceAt h.toArray) m n) :
    ∀ i j, i < j → j < n →
      distanceAt (unload h m hm).toArray i ≤ distanceAt (unload h m hm).toArray j := by
  fun_induction unload h m hm with
  | case1 h hm => exact fun i j hij hj => hu.back i j hij (Nat.zero_le _) hj
  | case2 h hm => exact fun i j hij hj => hu.back i j hij (by omega) hj
  | case3 h m hm ih =>
    have hswap := exchanged_swap h (show 0 < n by omega) (show m + 1 < n by omega)
    have hsifted := shuffled_siftDown (h := h.swap 0 (m + 1)) (i := 0) (show m + 1 ≤ n by omega)
    have hd' := hswap.numeric hd
    -- all but the first entry are where they were, so only that one may be out of place
    have hloose : Loose (distanceAt (h.swap 0 (m + 1)).toArray) (m + 1) 0 := by
      refine ⟨?_, fun hpos => absurd hpos (Nat.lt_irrefl 0)⟩
      intro i hpos hi hne hparent
      rw [hswap.other i hne (by omega), hswap.other _ hparent (by omega)]
      exact hu.front i hpos (by omega)
    refine ih ?_ ⟨?_, hu.back_of_sifted hd hswap hsifted⟩
    · intro i
      by_cases hi : i < m + 1
      · obtain ⟨k, -, hk⟩ := hsifted.front i hi
        rw [hk]
        exact hd' k
      · rw [hsifted.back i (by omega)]
        exact hd' i
    · exact ordered_siftDown _ hd' hloose fun hpos => absurd hpos (Nat.lt_irrefl 0)

end Unloading

namespace Heap

/-- A heap of distances that are numbers, in its order. -/
structure IsHeap (h : Heap) : Prop where
  numeric : ∀ e ∈ h, e.distance.isNaN = false
  ordered : Ordered (distanceAt h) h.size

theorem numeric_distanceAt {h : Array Entry} (hn : ∀ e ∈ h, e.distance.isNaN = false) :
    Numeric (distanceAt h) := by
  intro i
  unfold distanceAt
  cases hi : h[i]? with
  | none => decide
  | some e => exact hn e (Array.mem_of_getElem? hi)

variable {h : Heap} {e : Entry}

theorem isHeap_empty : IsHeap #[] :=
  ⟨fun e he => by simp at he, fun i _ hi => absurd hi (Nat.not_lt_zero i)⟩

theorem IsHeap.le_top (hh : IsHeap h) (hpos : 0 < h.size) :
    ∀ e ∈ h, e.distance ≤ h[0].distance := by
  intro e he
  obtain ⟨i, hi, rfl⟩ := Array.mem_iff_getElem.1 he
  have hle := hh.ordered.le_first (numeric_distanceAt hh.numeric) hi
  simpa [distanceAt, hi, hpos] using hle

theorem ordered_toArray {n : Nat} {v : Vector Entry n} (hv : Ordered (distanceAt v.toArray) n) :
    Ordered (distanceAt v.toArray) v.toArray.size := by
  rwa [Vector.size_toArray]

theorem IsHeap.push (hh : IsHeap h) (he : e.distance.isNaN = false) : IsHeap (h.push e) := by
  have hn : ∀ x ∈ Array.push h e, x.distance.isNaN = false := by
    intro x hx
    rcases Array.mem_push.1 hx with hx | rfl
    · exact hh.numeric x hx
    · exact he
  refine ⟨fun x hx => hn x ((push_perm h e).mem_iff.1 hx), ?_⟩
  -- the new entry stands behind all others, and has no children yet
  have hother : ∀ i < h.size, distanceAt (Array.push h e) i = distanceAt h i := by
    intro i hi
    simp [distanceAt, Array.getElem?_push_lt, hi]
  have hloose : Loose (distanceAt (Array.push h e)) (Array.push h e).size h.size := by
    simp only [Array.size_push]
    constructor
    · intro i hpos hi hne hparent
      rw [hother i (by omega), hother _ (by omega)]
      exact hh.ordered i hpos (by omega)
    · intro hpos i hi him hchild
      omega
  have hchildren : ChildrenAtMost (distanceAt (Array.push h e)) (Array.push h e).size h.size
      (distanceAt (Array.push h e) h.size) := by
    intro i hpos hi hchild
    simp only [Array.size_push] at hi
    omega
  exact ordered_toArray (ordered_siftUp (by simp) (numeric_distanceAt hn) hloose hchildren)

theorem IsHeap.pop (hh : IsHeap h) : IsHeap h.pop := by
  refine ⟨fun x hx => hh.numeric x (mem_of_mem_pop hx), ?_⟩
  unfold Heap.pop
  split
  · rename_i hpos
    have hrest : 0 < (Array.pop h).size := by
      rw [Array.size_pop]
      omega
    have hn : ∀ x ∈ (Array.pop h).set 0 h[h.size - 1], x.distance.isNaN = false := by
      intro x hx
      rcases Array.mem_or_eq_of_mem_set hx with hx | rfl
      · rw [← Array.mem_toList_iff, Array.toList_pop] at hx
        exact hh.numeric x (Array.mem_toList_iff.1 (List.mem_of_mem_dropLast hx))
      · exact hh.numeric _ (Array.getElem_mem _)
    -- the last entry stands at the top now, and all others where they were
    have hother : ∀ i, 0 < i → i < h.size - 1 →
        distanceAt ((Array.pop h).set 0 h[h.size - 1]) i = distanceAt h i := by
      intro i hi hlt
      have hlt' : i < h.size := by omega
      simp [distanceAt, hi.ne, hlt, hlt']
    have hsize : ((Array.pop h).set 0 h[h.size - 1]).size = h.size - 1 := by simp
    refine ordered_toArray (ordered_siftToBottom _ (numeric_distanceAt hn) ⟨?_, ?_⟩)
    · intro i hi him hne hparent
      rw [hother i hi (by omega), hother _ (by omega) (by omega)]
      exact hh.ordered i hi (by omega)
    · exact fun hzero => absurd hzero (Nat.lt_irrefl 0)
  · exact fun i _ hi => absurd hi (Nat.not_lt_zero i)

theorem IsHeap.pairwise_toSortedList (hh : IsHeap h) :
    h.toSortedList.Pairwise fun e e' => e.distance ≤ e'.distance := by
  rw [List.pairwise_iff_getElem]
  intro i j hi hj hij
  have hlen : h.toSortedList.length = h.size := by simp [toSortedList]
  have hle := increasing_unload (h := h.toVector) (Nat.le_refl h.size)
    (numeric_distanceAt hh.numeric) ⟨hh.ordered, fun _ _ _ _ _ => by omega⟩ i j hij (by omega)
  rw [distanceAt_eq _ (by omega), distanceAt_eq _ (by omega)] at hle
  exact hle

end Heap

end LedgerWatch.Density
