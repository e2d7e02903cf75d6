import LedgerWatch.Proofs.Isolation.Lookups
import LedgerWatch.Proofs.Isolation.Splits

namespace LedgerWatch.Isolation

namespace Side

def takes : Side → Bool → Bool
  | left, goes => goes
  | right, goes => !goes

theorem takes_of (goes : Bool) : ∃ side : Side, side.takes goes = true := by
  cases goes with
  | true => exact ⟨left, rfl⟩
  | false => exact ⟨right, rfl⟩

theorem forall_iff {P : Side → Prop} : (∀ side, P side) ↔ P left ∧ P right := by
  constructor
  · intro h
    exact ⟨h left, h right⟩
  · rintro ⟨hleft, hright⟩ (_ | _)
    · exact hleft
    · exact hright

theorem tree_pick (side : Side) (l r : Lineage) :
    (side.pick l r).tree = side.pick l.tree r.tree := by
  cases side <;> rfl

end Side

variable {feature : Nat} {value : Float} {sample : List Float} {side : Side} {way : List Side}

theorem Tree.route?_split_eq_some {left right : Tree} :
    (Tree.split feature value left right).route? sample = some (side :: way) ↔
      ∃ x, sample[feature]? = some x ∧ side.takes (goesLeft x value) = true ∧
        (side.pick left right).route? sample = some way := by
  rw [route?]
  cases sample[feature]? with
  | none => simp
  | some x => cases hgoes : goesLeft x value <;> cases side <;> simp [hgoes, Side.takes, Side.pick]

theorem Tree.route?_split_ne_nil {left right : Tree} :
    (Tree.split feature value left right).route? sample ≠ some [] := by
  rw [route?]
  cases sample[feature]? with
  | none => simp
  | some x => cases hgoes : goesLeft x value <;> simp [hgoes]

theorem Tree.isSome_route? (tree : Tree) (sample : List Float) :
    (tree.route? sample).isSome = (tree.walk? sample).isSome := by
  induction tree with
  | leaf size => rfl
  | split feature value left right ihl ihr =>
    rw [route?, walk?]
    cases sample[feature]? with
    | none => rfl
    | some x => cases hgoes : goesLeft x value <;> simp [hgoes, ihl, ihr]

/-- A walk counts the turns on its route, and ends at the leaf that the route leads to. -/
theorem Tree.exists_leaf_of_route? {tree : Tree} (h : tree.route? sample = some way) :
    ∃ size, tree.node? way = some (.leaf size) ∧ tree.walk? sample = some ⟨way.length, size⟩ := by
  induction tree generalizing way with
  | leaf size =>
    obtain rfl := Option.some.inj h
    exact ⟨size, rfl, rfl⟩
  | split feature value left right ihl ihr =>
    cases way with
    | nil => exact absurd h route?_split_ne_nil
    | cons side way =>
      obtain ⟨x, hx, hturn, hrest⟩ := route?_split_eq_some.1 h
      cases side with
      | left =>
        obtain ⟨size, hnode, hwalk⟩ := ihl hrest
        refine ⟨size, hnode, ?_⟩
        simp only [walk?, hx, if_pos (show goesLeft x value = true from hturn)]
        rw [show left.walk? sample = _ from hwalk]
        rfl
      | right =>
        obtain ⟨size, hnode, hwalk⟩ := ihr hrest
        have hgoes : goesLeft x value = false := Bool.not_eq_true' _ ▸ hturn
        refine ⟨size, hnode, ?_⟩
        simp only [walk?, hx, hgoes, if_neg Bool.false_ne_true]
        rw [show right.walk? sample = _ from hwalk]
        rfl

theorem Tree.Within.exists_leaf {tree : Tree} {width : Nat} (h : tree.Within width)
    (hlen : sample.length = width) : ∃ way size, tree.route? sample = some way ∧
      tree.node? way = some (.leaf size) ∧ tree.walk? sample = some ⟨way.length, size⟩ := by
  have hroute := h.isSome_walk? hlen
  rw [← Tree.isSome_route?] at hroute
  obtain ⟨way, hway⟩ := Option.isSome_iff_exists.1 hroute
  obtain ⟨size, hnode, hwalk⟩ := Tree.exists_leaf_of_route? hway
  exact ⟨way, size, hway, hnode, hwalk⟩

variable {t : Table}

/-- How the rows of a split come to its branches: each row to the one that a walk turns to, or all
of them to both where their values are the same. -/
def Deals (t : Table) (rows : List Nat) (feature : Nat) (value : Float)
    (branch : Side → List Nat) : Prop :=
  Varied t rows feature ∧
      (∀ side, branch side = rows.filter fun i => side.takes (goesLeft (t.cell i feature) value)) ∨
    ¬Varied t rows feature ∧ ∀ side, branch side = rows

namespace Deals

variable {rows : List Nat} {branch : Side → List Nat}

theorem eq_filter (h : Deals t rows feature value branch) (hvaried : Varied t rows feature)
    (side : Side) :
    branch side = rows.filter fun i => side.takes (goesLeft (t.cell i feature) value) := by
  rcases h with ⟨-, h⟩ | ⟨hflat, -⟩
  · exact h side
  · exact absurd hvaried hflat

/-- Whatever a split is like, a branch gets the rows that turn to it. -/
theorem filter_sublist (h : Deals t rows feature value branch) (side : Side) :
    (rows.filter fun i => side.takes (goesLeft (t.cell i feature) value)).Sublist
      (branch side) := by
  rcases h with ⟨-, h⟩ | ⟨-, h⟩
  · rw [h side]
  · rw [h side]
    exact List.filter_sublist

theorem subset (h : Deals t rows feature value branch) (side : Side) : branch side ⊆ rows := by
  rcases h with ⟨-, h⟩ | ⟨-, h⟩
  · rw [h side]
    exact List.filter_subset_self rows
  · rw [h side]
    exact List.Subset.refl rows

end Deals

inductive Dealt (t : Table) : Lineage → Prop
  | leaf (rows : List Nat) : Dealt t (.leaf rows)
  | split {rows : List Nat} {feature : Nat} {value : Float} {left right : Lineage} :
      feature < t.width →
      Deals t rows feature value (fun side => (side.pick left right).rows) →
      (∀ side : Side, Dealt t (side.pick left right)) →
      Dealt t (.split rows feature value left right)

theorem dealt_growLineage {σ : Type} (draws : Random.Draws σ) (t : Table) (depth : Nat)
    (rows : List Nat) (s : σ) : Dealt t (growLineage draws t depth rows s).1 := by
  refine lineage_induction draws t (P := fun _ l => Dealt t l) ?_ ?_ ?_ depth rows s
  · intro depth rows _
    exact .leaf rows
  · intro depth rows feature left right s _ hmem hlt value hleft hright ihl ihr
    refine .split (lt_width_of_mem_observed hmem) (.inl ⟨varied_iff.2 hlt, ?_⟩)
      (Side.forall_iff.2 ⟨ihl, ihr⟩)
    exact Side.forall_iff.2 ⟨hleft, hright⟩
  · intro depth rows feature left right _ hmem hflat hleft hright ihl ihr
    refine .split (lt_width_of_mem_observed hmem) (.inr ⟨fun h => hflat (varied_iff.1 h), ?_⟩)
      (Side.forall_iff.2 ⟨ihl, ihr⟩)
    exact Side.forall_iff.2 ⟨hleft, hright⟩

/-- All splits on a way part their rows. -/
def Lineage.PartedAlong (t : Table) : Lineage → List Side → Prop
  | split rows feature _ left right, side :: way =>
    Varied t rows feature ∧ (side.pick left right).PartedAlong t way
  | _, _ => True

def Lineage.Parted (t : Table) : Lineage → Prop
  | leaf _ => True
  | split rows feature _ left right => Varied t rows feature ∧ left.Parted t ∧ right.Parted t

def Tree.leafSizes : Tree → List Nat
  | leaf size => [size]
  | split _ _ left right => left.leafSizes ++ right.leafSizes

theorem cell_of_getElem?_row {i : Nat} {x : Float} (h : (t.row i)[feature]? = some x) :
    t.cell i feature = x := by
  rw [Table.cell, h]
  rfl

theorem length_row (ht : t.Regular) {i : Nat} (hi : i < t.height) :
    (t.row i).length = t.width := by
  refine ht _ ?_
  rw [Table.row, Array.getElem?_eq_getElem hi]
  exact Array.getElem_mem_toList hi

theorem getElem?_row (ht : t.Regular) {i : Nat} (hi : i < t.height) (hf : feature < t.width) :
    (t.row i)[feature]? = some (t.cell i feature) := by
  have hlt : feature < (t.row i).length := by rwa [length_row ht hi]
  rw [Table.cell, List.getElem?_eq_getElem hlt]
  rfl

namespace Dealt

variable {l : Lineage} {part : List Nat}

/-- A row that a lineage was grown from reaches a leaf that was grown from rows with this one. -/
theorem exists_leaf (h : Dealt t l) (ht : t.Regular) {i : Nat} (hi : i < t.height)
    (hmem : i ∈ l.rows) : ∃ way part, l.tree.route? (t.row i) = some way ∧
      l.node? way = some (.leaf part) ∧ i ∈ part := by
  induction h with
  | leaf rows => exact ⟨[], rows, rfl, rfl, hmem⟩
  | @split rows feature value left right hf hdeals _ ih =>
    -- the branch that the row turns to has it, also where both branches have all rows
    obtain ⟨side, hside⟩ := Side.takes_of (goesLeft (t.cell i feature) value)
    have hbranch : i ∈ (side.pick left right).rows :=
      (hdeals.filter_sublist side).subset (List.mem_filter.2 ⟨hmem, hside⟩)
    obtain ⟨way, part, hroute, hnode, hpart⟩ := ih side hbranch
    rw [Side.tree_pick] at hroute
    exact ⟨side :: way, part,
      Tree.route?_split_eq_some.2 ⟨_, getElem?_row ht hi hf, hside, hroute⟩, hnode, hpart⟩

/-- The rows that reach a leaf are among those it was grown from, as often as they are listed. -/
theorem routed_sublist (h : Dealt t l) (hway : l.node? way = some (.leaf part)) :
    (l.rows.filter fun i => l.tree.route? (t.row i) = some way).Sublist part := by
  induction way generalizing l with
  | nil =>
    rw [Lineage.node?] at hway
    obtain rfl := Option.some.inj hway
    exact List.filter_sublist
  | cons side way ih =>
    cases h with
    | leaf rows => cases hway
    | @split rows feature value left right _ hdeals hdealt =>
      have hbranch := ((hdeals.filter_sublist side).filter _).trans (ih (hdealt side) hway)
      rw [List.filter_filter, Side.tree_pick] at hbranch
      -- the whole way is the first turn and the rest of it
      refine (List.monotone_filter_right rows ?_).trans hbranch
      intro i hroute
      obtain ⟨x, hx, hside, hrest⟩ := Tree.route?_split_eq_some.1 (of_decide_eq_true hroute)
      simp [cell_of_getElem?_row hx, hside, hrest]

/-- Behind splits that part their rows a leaf was grown from the rows that reach it. -/
theorem routed_eq (h : Dealt t l) (ht : t.Regular) (hrows : ∀ i ∈ l.rows, i < t.height)
    (hway : l.node? way = some (.leaf part)) (hparted : l.PartedAlong t way) :
    (l.rows.filter fun i => l.tree.route? (t.row i) = some way) = part := by
  induction way generalizing l with
  | nil =>
    rw [Lineage.node?] at hway
    obtain rfl := Option.some.inj hway
    exact List.filter_eq_self.2 fun i _ => rfl
  | cons side way ih =>
    cases h with
    | leaf rows => cases hway
    | @split rows feature value left right hf hdeals hdealt =>
      have hbranch := ih (hdealt side) (fun i hi => hrows i (hdeals.subset side hi)) hway
        hparted.2
      rw [hdeals.eq_filter hparted.1 side, List.filter_filter, Side.tree_pick] at hbranch
      rw [← hbranch]
      refine List.filter_congr fun i hi => ?_
      have hx := getElem?_row ht (hrows i hi) hf
      have hiff : (Tree.split feature value left.tree right.tree).route? (t.row i) =
          some (side :: way) ↔ side.takes (goesLeft (t.cell i feature) value) = true ∧
            (side.pick left.tree right.tree).route? (t.row i) = some way := by
        simp [Tree.route?_split_eq_some, hx]
      rw [Bool.eq_iff_iff, Bool.and_eq_true, decide_eq_true_iff, decide_eq_true_iff, and_comm]
      exact hiff

/-- Where no row goes two ways, the leaves share the rows out. -/
theorem sum_leafSizes (h : Dealt t l) (hparted : l.Parted t) :
    l.tree.leafSizes.sum = l.rows.length := by
  induction h with
  | leaf rows => simp [Lineage.tree, Tree.leafSizes, Lineage.rows]
  | @split rows feature value left right _ hdeals _ ih =>
    have hleft : left.tree.leafSizes.sum = left.rows.length := ih .left hparted.2.1
    have hright : right.tree.leafSizes.sum = right.rows.length := ih .right hparted.2.2
    have hl : left.rows = rows.filter fun i => goesLeft (t.cell i feature) value :=
      hdeals.eq_filter hparted.1 .left
    have hr : right.rows = rows.filter fun i => !goesLeft (t.cell i feature) value :=
      hdeals.eq_filter hparted.1 .right
    rw [Lineage.tree, Tree.leafSizes, List.sum_append, hleft, hright, hl, hr, Lineage.rows]
    exact (List.length_eq_length_filter_add _).symm

end Dealt

/-- The walks through a tree and the rows that its nodes were grown from agree. -/
structure RoutesAgree (t : Table) (l : Lineage) : Prop where
  /-- Every row reaches a leaf that was grown from rows with this one among them. -/
  reaches : ∀ i ∈ l.rows, ∃ way part, l.tree.route? (t.row i) = some way ∧
    l.node? way = some (.leaf part) ∧ i ∈ part
  /-- A leaf has room for the rows that reach it, as often as they are listed. -/
  routed_le : ∀ way size, l.tree.node? way = some (.leaf size) →
    (l.rows.countP fun i => l.tree.route? (t.row i) = some way) ≤ size
  one_le : ∀ i ∈ l.rows, ∃ way size, l.tree.route? (t.row i) = some way ∧
    l.tree.node? way = some (.leaf size) ∧ 1 ≤ size
  /-- Behind splits that part their rows it has no more than that. -/
  routed_eq : ∀ way size, l.tree.node? way = some (.leaf size) → l.PartedAlong t way →
    (l.rows.countP fun i => l.tree.route? (t.row i) = some way) = size
  sum_leafSizes : l.Parted t → l.tree.leafSizes.sum = l.rows.length
  path_length : ∀ sample : List Float, sample.length = t.width → ∃ way size,
    l.tree.route? sample = some way ∧ l.tree.node? way = some (.leaf size) ∧
      l.tree.pathLength? sample = some (Float.ofNat way.length + searchCost size)

theorem Lineage.exists_leaf_of_tree {l : Lineage} {size : Nat}
    (h : l.tree.node? way = some (.leaf size)) :
    ∃ part, l.node? way = some (.leaf part) ∧ part.length = size := by
  rw [node?_tree, Option.map_eq_some_iff] at h
  obtain ⟨below, hbelow, hleaf⟩ := h
  cases below with
  | leaf part => exact ⟨part, hbelow, Tree.leaf.inj hleaf⟩
  | split => cases hleaf

theorem Dealt.routesAgree {l : Lineage} (h : Dealt t l) (hwithin : l.tree.Within t.width)
    (ht : t.Regular) (hrows : ∀ i ∈ l.rows, i < t.height) : RoutesAgree t l := by
  have hreaches : ∀ i ∈ l.rows, ∃ way part, l.tree.route? (t.row i) = some way ∧
      l.node? way = some (.leaf part) ∧ i ∈ part :=
    fun i hi => h.exists_leaf ht (hrows i hi) hi
  refine ⟨hreaches, ?_, ?_, ?_, h.sum_leafSizes, ?_⟩
  · intro way size hway
    obtain ⟨part, hpart, rfl⟩ := Lineage.exists_leaf_of_tree hway
    rw [List.countP_eq_length_filter]
    exact (h.routed_sublist hpart).length_le
  · intro i hi
    obtain ⟨way, part, hroute, hpart, hmem⟩ := hreaches i hi
    refine ⟨way, part.length, hroute, ?_, List.length_pos_of_mem hmem⟩
    rw [Lineage.node?_tree, hpart]
    rfl
  · intro way size hway hparted
    obtain ⟨part, hpart, rfl⟩ := Lineage.exists_leaf_of_tree hway
    rw [List.countP_eq_length_filter, h.routed_eq ht hrows hpart hparted]
  · intro sample hlen
    obtain ⟨way, size, hway, hnode, hwalk⟩ := hwithin.exists_leaf hlen
    refine ⟨way, size, hway, hnode, ?_⟩
    rw [Tree.pathLength?, hwalk]
    rfl

/-- Whatever is drawn, the walks through a tree that is built agree with how it was grown. -/
theorem routes_agree {σ : Type} (draws : Random.Draws σ) (ht : t.Regular) {rows : List Nat}
    (hrows : ∀ i ∈ rows, i < t.height) (depth maxDepth : Nat) (s : σ) :
    ∃ l s', growLineage draws t (maxDepth - depth) rows s = (l, s') ∧
      build? draws t rows depth maxDepth s = some (l.tree, s') ∧ l.rows = rows ∧
      RoutesAgree t l := by
  have hbuilt := build?_eq draws hrows depth maxDepth s
  rw [grow_eq_tree] at hbuilt
  have hdealt := dealt_growLineage draws t (maxDepth - depth) rows s
  have hkept := rows_growLineage draws t (maxDepth - depth) rows s
  refine ⟨_, _, rfl, hbuilt, hkept, hdealt.routesAgree (within_of_build? hbuilt) ht ?_⟩
  rwa [hkept]

/-- In one column two rows have the same value and one has none, in the other one values differ. -/
theorem routes_agree_three_rows :
    let t : Table := ⟨2, #[[1, 5], [1, 2], [Binary64.nan, 5]]⟩
    (∀ i ∈ [0, 1, 2, 0], i < t.height) ∧ t.Regular ∧
      ∃ l s', growLineage Random.Stream.draws t (3 - 1) [0, 1, 2, 0] (.ofSeed 7) = (l, s') ∧
        build? Random.Stream.draws t [0, 1, 2, 0] 1 3 (.ofSeed 7) = some (l.tree, s') ∧
        l.rows = [0, 1, 2, 0] ∧ RoutesAgree t l := by
  intro t
  have hrows : ∀ i ∈ [0, 1, 2, 0], i < t.height := by decide
  have ht : t.Regular := by
    intro row hrow
    simp only [t, List.mem_cons, List.not_mem_nil, or_false] at hrow
    rcases hrow with rfl | rfl | rfl <;> rfl
  exact ⟨hrows, ht, routes_agree Random.Stream.draws ht hrows 1 3 (.ofSeed 7)⟩

end LedgerWatch.Isolation
