import LedgerWatch.Proofs.Density.HeapOrder
import LedgerWatch.Proofs.Density.Neighborhood
import LedgerWatch.Proofs.Stats.Distances

namespace LedgerWatch.Density

open Binary64

/-- Up to `k` entries from near to far, none of them farther than one that is left out. -/
structure IsNearest (k : ℕ) (es near : List Entry) : Prop where
  length : near.length = min k es.length
  sorted : near.Pairwise fun e e' => e.distance ≤ e'.distance
  split : ∃ rest, (near ++ rest).Perm es ∧ ∀ e ∈ near, ∀ e' ∈ rest, e.distance ≤ e'.distance

/-- A heap of up to `k` entries seen so far, none of them farther than one that is left out. -/
structure Kept (k : ℕ) (h : Heap) (seen : List Entry) : Prop where
  isHeap : Heap.IsHeap h
  size : h.size = min k seen.length
  split : ∃ rest, (h.toList ++ rest).Perm seen ∧ ∀ e ∈ h, ∀ e' ∈ rest, e.distance ≤ e'.distance

section Keeping

variable {k : ℕ} {h : Heap} {e : Entry} {seen rest : List Entry}

theorem kept_empty (k : ℕ) : Kept k #[] [] :=
  ⟨Heap.isHeap_empty, (Nat.min_zero k).symm, [], .nil, fun e he => by simp at he⟩

theorem perm_push (hperm : (h.toList ++ rest).Perm seen) :
    ((h.push e).toList ++ rest).Perm (seen ++ [e]) := by
  have hpush : (h.push e).toList.Perm (h.toList ++ [e]) := by
    simpa using (Heap.push_perm h e).toList
  calc (h.push e).toList ++ rest
    _ |>.Perm (h.toList ++ [e] ++ rest) := hpush.append_right rest
    _ |>.Perm (h.toList ++ rest ++ [e]) := by
      rw [List.append_assoc, List.append_assoc]
      exact List.perm_append_comm.append_left h.toList
    _ |>.Perm (seen ++ [e]) := hperm.append_right [e]

theorem kept_keep (hk : Kept k h seen) (he : e.distance.isNaN = false) :
    Kept k (keep k h e) (seen ++ [e]) := by
  obtain ⟨rest, hperm, hsplit⟩ := hk.split
  have hlen : h.size + rest.length = seen.length := by simpa using hperm.length_eq
  have hsize := hk.size
  unfold keep
  split
  · -- there is room as long as nothing has been left out
    rename_i hroom
    obtain rfl : rest = [] := List.length_eq_zero_iff.1 (by omega)
    refine ⟨hk.isHeap.push he, ?_, [], perm_push hperm, by simp⟩
    rw [Heap.size_push, List.length_append, List.length_singleton]
    omega
  · rename_i hfull
    split
    · rename_i hnone
      have hzero : h.size = 0 := by simpa using hnone
      refine ⟨hk.isHeap, ?_, rest ++ [e], ?_, ?_⟩
      · rw [List.length_append, List.length_singleton]
        omega
      · rw [← List.append_assoc]
        exact hperm.append_right [e]
      · intro x hx
        rw [Array.eq_empty_of_size_eq_zero hzero] at hx
        simp at hx
    · rename_i top htop
      obtain ⟨hpos, htop⟩ := Array.getElem?_eq_some_iff.1 htop
      have hmem : top ∈ h := htop ▸ Array.getElem_mem hpos
      have hle_top : ∀ x ∈ h, x.distance ≤ top.distance := htop ▸ hk.isHeap.le_top hpos
      split
      · rename_i hlt
        -- the top makes room, and is the nearest of those left out
        have hpop : (top :: h.pop.toList).Perm h.toList := htop ▸ Heap.cons_pop_perm h hpos
        have hsize' : h.pop.size + 1 = h.size := by simpa using hpop.length_eq
        refine ⟨hk.isHeap.pop.push he, ?_, top :: rest, perm_push ?_, ?_⟩
        · rw [Heap.size_push, List.length_append, List.length_singleton]
          omega
        · exact List.perm_middle.trans ((hpop.append_right rest).trans hperm)
        · intro x hx y hy
          have hx_top : x.distance ≤ top.distance := by
            rcases Heap.mem_push_iff.1 hx with hx | rfl
            · exact hle_top x (Heap.mem_of_mem_pop hx)
            · exact le_of_lt hlt
          rcases List.mem_cons.1 hy with rfl | hy
          · exact hx_top
          · exact le_trans hx_top (hsplit top hmem y hy)
      · rename_i hge
        have hge' : top.distance ≤ e.distance :=
          (not_lt_iff he (hk.isHeap.numeric top hmem)).1 hge
        refine ⟨hk.isHeap, ?_, rest ++ [e], ?_, ?_⟩
        · rw [List.length_append, List.length_singleton]
          omega
        · rw [← List.append_assoc]
          exact hperm.append_right [e]
        · intro x hx y hy
          rcases List.mem_append.1 hy with hy | hy
          · exact hsplit x hx y hy
          · rw [List.mem_singleton.1 hy]
            exact le_trans (hle_top x hx) hge'

theorem kept_foldl (hk : Kept k h seen) {es : List Entry}
    (hes : ∀ e ∈ es, e.distance.isNaN = false) : Kept k (es.foldl (keep k) h) (seen ++ es) := by
  induction es generalizing h seen with
  | nil =>
    rw [List.append_nil]
    exact hk
  | cons e es ih =>
    obtain ⟨he, hes⟩ := List.forall_mem_cons.1 hes
    have hrest := ih (kept_keep hk he) hes
    rwa [List.append_assoc, List.singleton_append] at hrest

theorem Kept.isNearest (hk : Kept k h seen) : IsNearest k seen h.toSortedList := by
  obtain ⟨rest, hperm, hsplit⟩ := hk.split
  have hsame := Heap.toSortedList_perm h
  refine ⟨?_, hk.isHeap.pairwise_toSortedList, rest, (hsame.append_right rest).trans hperm, ?_⟩
  · rw [hsame.length_eq, Array.length_toList, hk.size]
  · intro e he
    exact hsplit e (Array.mem_toList_iff.1 (hsame.mem_iff.1 he))

end Keeping

section Sorting

def shorter (x y : Float) : Bool := totalOrderKey x ≤ totalOrderKey y

def Entry.nearer (e e' : Entry) : Bool := shorter e.distance e'.distance

theorem shorter_trans (x y z : Float) : shorter x y → shorter y z → shorter x z := by
  simpa only [shorter, decide_eq_true_eq] using Int.le_trans

theorem shorter_total (x y : Float) : shorter x y || shorter y x := by
  simpa only [shorter, Bool.or_eq_true, decide_eq_true_eq] using Int.le_total _ _

theorem nearer_trans (e e' e'' : Entry) : e.nearer e' → e'.nearer e'' → e.nearer e'' :=
  shorter_trans _ _ _

theorem nearer_total (e e' : Entry) : e.nearer e' || e'.nearer e := shorter_total _ _

theorem shorter_iff {x y : Float} (hx : IsPlus x) (hy : IsPlus y) : shorter x y ↔ x ≤ y := by
  rw [shorter, decide_eq_true_eq, hx.totalOrderKey_le_iff hy]

theorem shorter_antisymm {x y : Float} (hx : IsPlus x) (hy : IsPlus y) (hxy : shorter x y)
    (hyx : shorter y x) : x = y :=
  hx.eq_of_le_of_le hy ((shorter_iff hx hy).1 hxy) ((shorter_iff hy hx).1 hyx)

variable {k : ℕ} {es near : List Entry}

theorem IsNearest.shorter_split (h : IsNearest k es near) (hes : ∀ e ∈ es, IsPlus e.distance) :
    near.Pairwise (fun e e' => shorter e.distance e'.distance) ∧
      ∃ rest, (near ++ rest).Perm es ∧
        ∀ e ∈ near, ∀ e' ∈ rest, shorter e.distance e'.distance := by
  obtain ⟨rest, hperm, hsplit⟩ := h.split
  have hnear : ∀ e ∈ near, IsPlus e.distance := fun e he =>
    hes e (hperm.mem_iff.1 (List.mem_append_left rest he))
  have hrest : ∀ e ∈ rest, IsPlus e.distance := fun e he =>
    hes e (hperm.mem_iff.1 (List.mem_append_right near he))
  refine ⟨?_, rest, hperm, ?_⟩
  · exact h.sorted.imp_of_mem fun he he' hle => (shorter_iff (hnear _ he) (hnear _ he')).2 hle
  · exact fun e he e' he' => (shorter_iff (hnear e he) (hrest e' he')).2 (hsplit e he e' he')

theorem IsNearest.map_distance_eq (h : IsNearest k es near) (hes : ∀ e ∈ es, IsPlus e.distance) :
    near.map Entry.distance = ((es.map Entry.distance).mergeSort shorter).take k := by
  obtain ⟨hsorted, rest, hperm, hsplit⟩ := h.shorter_split hes
  have hdistances : (near.map Entry.distance ++ rest.map Entry.distance).Perm
      (es.map Entry.distance) := by
    rw [← List.map_append]
    exact hperm.map _
  have hplus : ∀ x ∈ es.map Entry.distance, IsPlus x := by
    intro x hx
    obtain ⟨e, he, rfl⟩ := List.mem_map.1 hx
    exact hes e he
  have htake := Lists.eq_take_mergeSort shorter_trans shorter_total
    (fun x hx y hy => shorter_antisymm (hplus x hx) (hplus y hy)) hdistances
    (List.pairwise_map.2 hsorted) (by simpa using hsplit)
  rw [htake, List.length_map, h.length, List.take_eq_take_min (i := k), List.length_mergeSort,
    List.length_map]

/-- Where no two entries are level, the nearest ones do not depend on the order of the entries. -/
theorem IsNearest.unique {es' near' : List Entry} (h : IsNearest k es near)
    (h' : IsNearest k es' near') (hperm : es'.Perm es) (hes : ∀ e ∈ es, IsPlus e.distance)
    (hdistinct : (es.map Entry.distance).Nodup) : near' = near := by
  have hanti : ∀ e ∈ es, ∀ e' ∈ es, e.nearer e' → e'.nearer e → e = e' := by
    intro e he e' he' hle hge
    exact List.inj_on_of_nodup_map hdistinct he he'
      (shorter_antisymm (hes e he) (hes e' he') hle hge)
  -- both are the first entries of one sorted list
  have htake : ∀ {es' near' : List Entry}, IsNearest k es' near' → es'.Perm es →
      near' = (es.mergeSort Entry.nearer).take near'.length := by
    intro es' near' h' hperm'
    obtain ⟨hsorted, rest, hall, hsplit⟩ :=
      h'.shorter_split fun e he => hes e (hperm'.mem_iff.1 he)
    exact Lists.eq_take_mergeSort nearer_trans nearer_total hanti (hall.trans hperm') hsorted
      hsplit
  rw [htake h' hperm, htake h (.refl es), h.length, h'.length, hperm.length_eq]

end Sorting

section Neighbors

variable {rows : List (List Float)} {i : ℕ}

theorem isPlus_of_mem_comparable (hrows : ∀ row ∈ rows, Stats.Measured row) {e : Entry}
    (he : e ∈ comparable rows i) : IsPlus e.distance := by
  obtain ⟨-, row, hrow, hd⟩ := mem_comparable_iff.1 he
  refine Stats.isPlus_of_distance? ?_ (hrows row (List.mem_of_getElem? hrow)) hd
  cases hi : rows[i]? with
  | none => exact fun x hx => absurd hx List.not_mem_nil
  | some point => exact hrows point (List.mem_of_getElem? hi)

theorem isNearest_nearest (hrows : ∀ row ∈ rows, Stats.Measured row) (k i : ℕ) :
    IsNearest k (comparable rows i) (nearest rows k i) := by
  have hkept := kept_foldl (kept_empty k) fun e (he : e ∈ comparable rows i) =>
    (isPlus_of_mem_comparable hrows he).not_isNaN
  exact hkept.isNearest

/-- How many other rows have a column in common with row `i`. -/
def comparableCount (rows : List (List Float)) (i : ℕ) : ℕ :=
  rows.zipIdx.countP fun (row, j) => j != i && Stats.overlap ((rows[i]?).getD []) row

/-- As many answers come from the other rows as there are rows that answer. -/
theorem length_others {β : Type} (f : List Float → ℕ → Option β)
    (hf : ∀ row j, (f row j).isSome = Stats.overlap ((rows[i]?).getD []) row) :
    (rows.zipIdx.filterMap fun (row, j) => if j = i then none else f row j).length =
      comparableCount rows i := by
  simp only [List.length_filterMap_eq_countP, comparableCount]
  congr 1
  funext m
  by_cases hm : m.2 = i
  · simp [hm]
  · simp [hm, hf]

theorem length_comparable (rows : List (List Float)) (i : ℕ) :
    (comparable rows i).length = comparableCount rows i := by
  refine length_others (fun row j =>
    (Stats.distance? ((rows[i]?).getD []) row).map fun d => (⟨d, j⟩ : Entry)) fun row j => ?_
  rw [Option.isSome_map, Stats.isSome_distance?]

/-- The `k` nearest rows of row `i`, by a plain description. -/
structure NearestRows (rows : List (List Float)) (k i : ℕ) (near : List Entry) : Prop where
  length : near.length = min k (comparableCount rows i)
  distinct : (near.map Entry.row).Nodup
  other : ∀ e ∈ near, e.row ≠ i ∧
    ∃ point row, rows[i]? = some point ∧ rows[e.row]? = some row ∧
      Stats.distance? point row = some e.distance
  sorted : (near.map Entry.distance).Pairwise (· ≤ ·)
  /-- A row that is left out is at least as far as all that are not. -/
  left : ∀ j ≠ i, j ∉ near.map Entry.row → ∀ point row d, rows[i]? = some point →
    rows[j]? = some row → Stats.distance? point row = some d → ∀ e ∈ near, e.distance ≤ d
  /-- With multiplicity the distances are the least ones. -/
  least : near.map Entry.distance =
    (((comparable rows i).map Entry.distance).mergeSort shorter).take k

/-- The heap finds the nearest rows, whatever ties there are and however far the rows are. -/
theorem nearestRows_nearest (hrows : ∀ row ∈ rows, Stats.Measured row) (hi : i < rows.length)
    (k : ℕ) : NearestRows rows k i (nearest rows k i) := by
  have hnearest := isNearest_nearest hrows k i
  have hpoint : rows[i]? = some rows[i] := List.getElem?_eq_getElem hi
  obtain ⟨rest, hperm, hsplit⟩ := hnearest.split
  refine ⟨?_, ?_, ?_, List.pairwise_map.2 hnearest.sorted, ?_, ?_⟩
  · rw [hnearest.length, length_comparable]
  · have hall := (hperm.map Entry.row).nodup_iff.2 (nodup_comparable rows i)
    rw [List.map_append] at hall
    exact (List.nodup_append.1 hall).1
  · intro e he
    obtain ⟨hne, row, hrow, hd⟩ := mem_comparable_iff.1 (mem_comparable_of_mem_nearest he)
    rw [hpoint, Option.getD_some] at hd
    exact ⟨hne, rows[i], row, hpoint, hrow, hd⟩
  · intro j hne hout point row d hi hrow hd e he
    have hmem : (⟨d, j⟩ : Entry) ∈ comparable rows i := by
      refine mem_comparable_iff.2 ⟨hne, row, hrow, ?_⟩
      rw [hi]
      exact hd
    rcases List.mem_append.1 (hperm.mem_iff.2 hmem) with hnear | hrest
    · exact absurd (List.mem_map_of_mem hnear) hout
    · exact hsplit e he ⟨d, j⟩ hrest
  · exact hnearest.map_distance_eq fun e he => isPlus_of_mem_comparable hrows he

/-- Two rows are level, one is missing where the row has its number, and one is infinitely far. -/
theorem nearestRows_nearest_tied :
    let rows : List (List Float) :=
      [[0, nan], [nan, 1], [1, 5], [-1, nan], [1e300, 0], [2, nan]]
    (∀ row ∈ rows, Stats.Measured row) ∧ 0 < rows.length ∧
      NearestRows rows 3 0 (nearest rows 3 0) ∧
      (nearest rows 3 0).map Entry.distance = [1, 1, 2] := by
  intro rows
  have hrows : ∀ row ∈ rows, Stats.Measured row := by decide +kernel
  exact ⟨hrows, by decide, nearestRows_nearest hrows (by decide) 3, by decide +kernel⟩

end Neighbors

end LedgerWatch.Density
