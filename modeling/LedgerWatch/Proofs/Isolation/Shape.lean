import LedgerWatch.Proofs.Isolation.Routing

namespace LedgerWatch.Isolation

open Binary64

variable {t : Table} {way : List Side}

/-- Where a column of some present values is split: between the least and the greatest of them, or
at no number, which only happens where one of them has no upper end. -/
def SplitsAt (xs : List Float) (value : Float) : Prop :=
  Between xs value ∨ value.isNaN = true ∧ ∃ x ∈ xs, infinity ≤ x

/-- What growth leaves behind under a depth limit. -/
inductive Shaped (t : Table) : Nat → Lineage → Prop
  | leaf {limit : Nat} {rows : List Nat} :
      limit = 0 ∨ rows.length ≤ 1 ∨ observed t rows = [] → Shaped t limit (.leaf rows)
  | split {limit : Nat} {rows : List Nat} {feature : Nat} {value : Float} {left right : Lineage} :
      1 < rows.length → feature ∈ observed t rows →
      SplitsAt (presentValues t rows feature) value →
      (∀ side : Side, (side.pick left right).rows ⊆ rows) →
      (∀ side : Side, Shaped t limit (side.pick left right)) →
      Shaped t (limit + 1) (.split rows feature value left right)

theorem shaped_growLineage {σ : Type} (draws : Random.Draws σ) (t : Table) (depth : Nat)
    (rows : List Nat) (s : σ) : Shaped t depth (growLineage draws t depth rows s).1 := by
  refine lineage_induction draws t (P := Shaped t) ?_ ?_ ?_ depth rows s
  · intro depth rows hend
    exact .leaf hend
  · intro depth rows feature left right s hmany hmem hlt value hleft hright ihl ihr
    refine .split hmany hmem (between_splitValue draws (fun _ => not_isNaN_of_mem_presentValues)
      hlt s) ?_ (Side.forall_iff.2 ⟨ihl, ihr⟩)
    refine Side.forall_iff.2 ⟨?_, ?_⟩
    · rw [show (Side.left.pick left right).rows = _ from hleft]
      exact List.filter_subset_self rows
    · rw [show (Side.right.pick left right).rows = _ from hright]
      exact List.filter_subset_self rows
  · intro depth rows feature left right hmany hmem hflat hleft hright ihl ihr
    refine .split hmany hmem (.inl (between_bounds_fst
      (fun _ => not_isNaN_of_mem_presentValues) (presentValues_ne_nil hmem) hflat)) ?_
      (Side.forall_iff.2 ⟨ihl, ihr⟩)
    refine Side.forall_iff.2 ⟨?_, ?_⟩
    · exact hleft ▸ List.Subset.refl _
    · exact hright ▸ List.Subset.refl _

namespace Shaped

variable {limit : Nat} {l m : Lineage}

theorem depth_le (h : Shaped t limit l) : l.tree.depth ≤ limit := by
  induction h with
  | leaf => exact Nat.zero_le _
  | split _ _ _ _ _ ih =>
    have hleft := ih .left
    have hright := ih .right
    simp only [Side.pick] at hleft hright
    rw [Lineage.tree, Tree.depth]
    omega

/-- The limit counts the turns; and the rows of a node are rows of every node above it. -/
theorem node (h : Shaped t limit l) (hway : l.node? way = some m) :
    way.length ≤ limit ∧ Shaped t (limit - way.length) m ∧ m.rows ⊆ l.rows := by
  induction way generalizing limit l with
  | nil =>
    rw [Lineage.node?] at hway
    obtain rfl := Option.some.inj hway
    exact ⟨Nat.zero_le _, h, List.Subset.refl _⟩
  | cons side way ih =>
    cases h with
    | leaf => cases hway
    | @split limit rows feature value left right _ _ _ hrows hbranches =>
      obtain ⟨hle, hshaped, hsubset⟩ := ih (hbranches side) hway
      refine ⟨Nat.succ_le_succ hle, ?_, List.Subset.trans hsubset (hrows side)⟩
      rwa [List.length_cons, Nat.add_sub_add_right]

theorem split_inv {rows : List Nat} {feature : Nat} {value : Float} {left right : Lineage}
    (h : Shaped t limit (.split rows feature value left right)) :
    0 < limit ∧ 1 < rows.length ∧ feature ∈ observed t rows ∧
      SplitsAt (presentValues t rows feature) value := by
  cases h with
  | split hmany hmem hvalue _ _ => exact ⟨Nat.succ_pos _, hmany, hmem, hvalue⟩

theorem leaf_inv {rows : List Nat} (h : Shaped t limit (.leaf rows)) (hmany : 1 < rows.length) :
    limit = 0 ∨ observed t rows = [] := by
  cases h with
  | leaf hend =>
    rcases hend with hzero | hfew | hnone
    · exact .inl hzero
    · exact absurd hmany (Nat.not_lt.2 hfew)
    · exact .inr hnone

end Shaped

/-- The shape of a tree, node by node. -/
structure WellShaped (t : Table) (limit : Nat) (l : Lineage) : Prop where
  depth_le : l.tree.depth ≤ limit
  split : ∀ way rows feature value left right,
    l.node? way = some (.split rows feature value left right) →
      way.length < limit ∧ 2 ≤ rows.length ∧ feature < t.width ∧
        (∃ i ∈ rows, (t.cell i feature).isNaN = false) ∧
        SplitsAt (presentValues t rows feature) value
  leaf : ∀ way rows, l.node? way = some (.leaf rows) → 1 < rows.length →
    way.length = limit ∨ ∀ i ∈ rows, ∀ j < t.width, (t.cell i j).isNaN = true
  /-- A walk looks up columns that there are, and ends within the limit. -/
  walk : ∀ sample : List Float, sample.length = t.width → ∃ w, l.tree.walk? sample = some w ∧
    l.tree.pathLength? sample = some w.length ∧ w.edges ≤ limit

theorem observed_eq_nil_iff {rows : List Nat} : observed t rows = [] ↔
    ∀ i ∈ rows, ∀ j < t.width, (t.cell i j).isNaN = true := by
  constructor
  · intro h i hi j hj
    by_contra hpresent
    rw [Bool.not_eq_true] at hpresent
    have hmem : j ∈ observed t rows := mem_observed_iff.2 ⟨hj, i, hi, hpresent⟩
    rw [h] at hmem
    cases hmem
  · intro h
    refine List.eq_nil_iff_forall_not_mem.2 fun j hmem => ?_
    obtain ⟨hj, i, hi, hpresent⟩ := mem_observed_iff.1 hmem
    rw [h i hi j hj] at hpresent
    cases hpresent

theorem Shaped.wellShaped {limit : Nat} {l : Lineage} (h : Shaped t limit l)
    (hwithin : l.tree.Within t.width) : WellShaped t limit l := by
  refine ⟨h.depth_le, ?_, ?_, ?_⟩
  · intro way rows feature value left right hway
    obtain ⟨hle, hshaped, -⟩ := h.node hway
    obtain ⟨hpos, hmany, hmem, hvalue⟩ := hshaped.split_inv
    obtain ⟨hfeature, hpresent⟩ := mem_observed_iff.1 hmem
    exact ⟨by omega, hmany, hfeature, hpresent, hvalue⟩
  · intro way rows hway hmany
    obtain ⟨hle, hshaped, -⟩ := h.node hway
    rcases hshaped.leaf_inv hmany with hzero | hnone
    · exact .inl (by omega)
    · exact .inr (observed_eq_nil_iff.1 hnone)
  · intro sample hlen
    obtain ⟨way, size, -, hnode, hwalk⟩ := hwithin.exists_leaf hlen
    obtain ⟨part, hpart, -⟩ := Lineage.exists_leaf_of_tree hnode
    refine ⟨_, hwalk, ?_, (h.node hpart).1⟩
    rw [Tree.pathLength?, hwalk]
    rfl

/-- Rows that all have values are parted until they stand alone or the limit is reached. -/
theorem Shaped.length_eq_of_observed {limit : Nat} {l : Lineage} (h : Shaped t limit l)
    (hvalues : ∀ i ∈ l.rows, ∃ j < t.width, (t.cell i j).isNaN = false) {rows : List Nat}
    (hway : l.node? way = some (.leaf rows)) (hmany : 1 < rows.length) : way.length = limit := by
  obtain ⟨hle, hshaped, hsubset⟩ := h.node hway
  rcases hshaped.leaf_inv hmany with hzero | hnone
  · omega
  -- any row of the leaf has a value, since it is one of those that growth began with
  · obtain ⟨i, hi⟩ := List.exists_mem_of_length_pos (Nat.zero_lt_of_lt hmany)
    obtain ⟨j, hj, hpresent⟩ := hvalues i (hsubset hi)
    rw [observed_eq_nil_iff.1 hnone i hi j hj] at hpresent
    cases hpresent

theorem exists_value_of_mem_scorable (ht : t.Regular) {i : Nat} (hi : i ∈ scorable t) :
    ∃ j < t.width, (t.cell i j).isNaN = false := by
  obtain ⟨hrow, hany⟩ := List.mem_filter.1 hi
  obtain ⟨x, hx, hpresent⟩ := List.any_eq_true.1 hany
  obtain ⟨j, hj, rfl⟩ := List.getElem_of_mem hx
  refine ⟨j, length_row ht (List.mem_range.1 hrow) ▸ hj, ?_⟩
  rw [cell_of_getElem?_row (List.getElem?_eq_getElem hj)]
  simpa using hpresent

theorem exists_lineage_of_plant? {rows : List Nat} {size : Nat} {seed : UInt64} {tree : Tree}
    (h : plant? t rows size seed = some tree) : ∃ l : Lineage, l.tree = tree ∧
      l.rows ⊆ rows ∧ Shaped t (depthLimit size) l := by
  simp only [plant?, bind, Option.bind_eq_some_iff, pure, Option.some.injEq] at h
  obtain ⟨sample, hsample, ⟨grown, s⟩, hgrown, rfl⟩ := h
  have hbuilt := grow_of_build? hgrown
  rw [grow_eq_tree, Prod.mk.injEq] at hbuilt
  refine ⟨_, hbuilt.1, ?_, shaped_growLineage ..⟩
  rw [rows_growLineage]
  intro i hi
  obtain ⟨j, -, hj⟩ := Lists.exists_of_mem_mapM hsample hi
  exact List.mem_of_getElem? (by simpa using hj)

theorem length_eq_of_plantAll? {c : Settings} {seed : UInt64} {trees : List Tree}
    (ht : t.Regular) (h : c.plantAll? seed t (scorable t) = some trees) {tree : Tree}
    (htree : tree ∈ trees) {way : List Side} {size : Nat}
    (hway : tree.node? way = some (.leaf size)) (hmany : 1 < size) :
    way.length = depthLimit (c.sampleSize (scorable t).length) := by
  obtain ⟨i, -, hplanted⟩ := Lists.exists_of_mem_mapM h htree
  obtain ⟨l, rfl, hrows, hshaped⟩ := exists_lineage_of_plant? hplanted
  obtain ⟨part, hpart, rfl⟩ := Lineage.exists_leaf_of_tree hway
  exact hshaped.length_eq_of_observed
    (fun i hi => exists_value_of_mem_scorable ht (hrows hi)) hpart hmany

/-- Whatever is drawn, a tree is built and has its shape; and in a forest leaves of more rows than
one lie at the depth limit only. -/
theorem wellShaped_of_build {σ : Type} (draws : Random.Draws σ) (ht : t.Regular) {rows : List Nat}
    (hrows : ∀ i ∈ rows, i < t.height) (depth maxDepth : Nat) (s : σ) :
    (∃ l s', growLineage draws t (maxDepth - depth) rows s = (l, s') ∧
      build? draws t rows depth maxDepth s = some (l.tree, s') ∧ l.rows = rows ∧
      WellShaped t (maxDepth - depth) l) ∧
    ∀ (c : Settings) (seed : UInt64), ∃ trees, c.plantAll? seed t (scorable t) = some trees ∧
      (¬c.OverCapacity → c.forest? seed t (scorable t) = .ok trees) ∧
      ∀ tree ∈ trees, ∀ way size, tree.node? way = some (.leaf size) → 1 < size →
        way.length = depthLimit (c.sampleSize (scorable t).length) := by
  constructor
  · have hbuilt := build?_eq draws hrows depth maxDepth s
    rw [grow_eq_tree] at hbuilt
    exact ⟨_, _, rfl, hbuilt, rows_growLineage ..,
      (shaped_growLineage ..).wellShaped (within_of_build? hbuilt)⟩
  · intro c seed
    obtain ⟨trees, htrees⟩ := Option.isSome_iff_exists.1
      (isSome_plantAll? c seed fun _ => lt_height_of_mem_scorable (t := t))
    refine ⟨trees, htrees, fun hroom => forest?_of_plantAll? hroom htrees, ?_⟩
    intro tree htree way size hway hmany
    exact length_eq_of_plantAll? ht htrees htree hway hmany

/-- A column from one end of all numbers to the other. -/
def endsTable : Table := ⟨1, #[[-infinity], [infinity]]⟩

/-- Whatever is drawn, such a column is split at no number, and both rows go to the right. -/
theorem build?_endsTable {σ : Type} (draws : Random.Draws σ) (s : σ) : ∃ value s',
    value.isNaN = true ∧
      build? draws endsTable [0, 1] 0 1 s = some (.split 0 value (.leaf 0) (.leaf 2), s') := by
  have hrows : ∀ i ∈ [0, 1], i < endsTable.height := by decide
  rw [build?_eq draws hrows]
  suffices h : ∃ value : Float, value.isNaN = true ∧
      (grow draws endsTable 1 [0, 1] s).1 = .split 0 value (.leaf 0) (.leaf 2) by
    obtain ⟨value, hnan, htree⟩ := h
    exact ⟨value, _, hnan, congrArg some (Prod.ext htree rfl)⟩
  refine (grow_induction draws endsTable (P := fun depth rows tree =>
    (depth = 0 → tree = .leaf rows.length) ∧ (depth = 1 → rows = [0, 1] →
      ∃ value : Float, value.isNaN = true ∧ tree = .split 0 value (.leaf 0) (.leaf 2)))
    ?_ ?_ ?_ 1 [0, 1] s).2 rfl rfl
  · intro depth rows hend
    refine ⟨fun _ => rfl, ?_⟩
    rintro rfl rfl
    exact absurd hend (by decide)
  · intro depth rows feature left right s _ hmem hlt value hleft hright
    refine ⟨fun h => absurd h (Nat.succ_ne_zero depth), ?_⟩
    intro hdepth hpair
    obtain rfl : depth = 0 := by omega
    subst hpair
    obtain rfl : feature = 0 := Nat.lt_one_iff.1 (lt_width_of_mem_observed hmem)
    have hnan : value.isNaN = true := isNaN_splitValue_of_infinite draws rfl rfl hlt s
    have hleaf := hleft.1 rfl
    have hrest := hright.1 rfl
    simp only [goesLeft_of_isNaN hnan] at hleaf hrest
    refine ⟨value, hnan, ?_⟩
    rw [hleaf, hrest]
    rfl
  · intro depth rows feature left right _ hmem hflat _ _
    refine ⟨fun h => absurd h (Nat.succ_ne_zero depth), ?_⟩
    rintro - rfl
    obtain rfl : feature = 0 := Nat.lt_one_iff.1 (lt_width_of_mem_observed hmem)
    exact absurd (by decide) hflat

/-- The tree of that column splits at no number, whatever is drawn. -/
theorem wellShaped_of_build_ends :
    endsTable.Regular ∧ (∀ i ∈ [0, 1], i < endsTable.height) ∧
      (∃ l s', growLineage Random.Stream.draws endsTable (1 - 0) [0, 1] (.ofSeed 0) = (l, s') ∧
        build? Random.Stream.draws endsTable [0, 1] 0 1 (.ofSeed 0) = some (l.tree, s') ∧
        l.rows = [0, 1] ∧ WellShaped endsTable (1 - 0) l ∧
        ∃ value : Float, value.isNaN = true ∧ l.tree = .split 0 value (.leaf 0) (.leaf 2)) ∧
      ∀ (c : Settings) (seed : UInt64), ∃ trees,
        c.plantAll? seed endsTable (scorable endsTable) = some trees ∧
        (¬c.OverCapacity → c.forest? seed endsTable (scorable endsTable) = .ok trees) ∧
        ∀ tree ∈ trees, ∀ way size, tree.node? way = some (.leaf size) → 1 < size →
          way.length = depthLimit (c.sampleSize (scorable endsTable).length) := by
  have ht : endsTable.Regular := by
    intro row hrow
    simp only [endsTable, List.mem_cons, List.not_mem_nil, or_false] at hrow
    rcases hrow with rfl | rfl <;> rfl
  have hrows : ∀ i ∈ [0, 1], i < endsTable.height := by decide
  obtain ⟨⟨l, s', hgrown, hbuilt, hl, hshape⟩, hforest⟩ :=
    wellShaped_of_build Random.Stream.draws ht hrows 0 1 (.ofSeed 0)
  obtain ⟨value, s'', hnan, hsplit⟩ := build?_endsTable Random.Stream.draws (.ofSeed 0)
  have htree : l.tree = .split 0 value (.leaf 0) (.leaf 2) :=
    congrArg Prod.fst (Option.some.inj (hbuilt.symm.trans hsplit))
  exact ⟨ht, hrows, ⟨l, s', hgrown, hbuilt, hl, hshape, value, hnan, htree⟩, hforest⟩

end LedgerWatch.Isolation
