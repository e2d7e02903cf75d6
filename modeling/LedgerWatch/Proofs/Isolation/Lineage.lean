import LedgerWatch.Isolation.Tree

namespace LedgerWatch.Isolation

/-- A tree with the rows that each node was grown from. -/
inductive Lineage
  | leaf (rows : List Nat)
  | split (rows : List Nat) (feature : Nat) (value : Float) (left right : Lineage)

namespace Lineage

def rows : Lineage → List Nat
  | leaf rows => rows
  | split rows .. => rows

def tree : Lineage → Tree
  | leaf rows => .leaf rows.length
  | split _ feature value left right => .split feature value left.tree right.tree

end Lineage

variable {σ : Type}

/-- Grows a tree and keeps the rows of every node. -/
def growLineage (draws : Random.Draws σ) (t : Table) : Nat → List Nat → σ → Lineage × σ
  | 0, rows, s => (.leaf rows, s)
  | depth + 1, rows, s =>
    if rows.length ≤ 1 then (.leaf rows, s)
    else
      let features := observed t rows
      if h : 0 < features.length then
        let (pick, s) := draws.index features.length h s
        let feature := features.get pick
        let (lo, hi) := bounds (presentValues t rows feature)
        if hlt : lo < hi then
          let (value, s) := splitValue draws lo hi hlt s
          let (inLeft, inRight) := rows.partition fun i => goesLeft (t.cell i feature) value
          let (left, s) := growLineage draws t depth inLeft s
          let (right, s) := growLineage draws t depth inRight s
          (.split rows feature value left right, s)
        else
          let (left, s) := growLineage draws t depth rows s
          let (right, s) := growLineage draws t depth rows s
          (.split rows feature lo left right, s)
      else (.leaf rows, s)

theorem rows_growLineage (draws : Random.Draws σ) (t : Table) (depth : Nat) (rows : List Nat)
    (s : σ) : (growLineage draws t depth rows s).1.rows = rows := by
  cases depth with
  | zero => rfl
  | succ depth =>
    unfold growLineage
    split
    · rfl
    · simp only
      split
      · split <;> rfl
      · rfl

/-- Without the rows of its nodes a lineage is the tree that grows by the same draws. -/
theorem grow_eq_tree (draws : Random.Draws σ) (t : Table) (depth : Nat) (rows : List Nat) (s : σ) :
    grow draws t depth rows s =
      ((growLineage draws t depth rows s).1.tree, (growLineage draws t depth rows s).2) := by
  induction depth generalizing rows s with
  | zero => rfl
  | succ depth ih =>
    unfold grow growLineage
    split
    · rfl
    · simp only [ih, Fin.getElem_fin, List.get_eq_getElem]
      split
      · split <;> rfl
      · rfl

/-- A property of depth limits and lineages that holds of leaves and passes from the branches to a
split holds of every lineage. The first kind of split parts the rows, the second one hands all of
them to both branches. -/
theorem lineage_induction (draws : Random.Draws σ) (t : Table) {P : Nat → Lineage → Prop}
    (leaf : ∀ depth rows, depth = 0 ∨ rows.length ≤ 1 ∨ observed t rows = [] →
      P depth (.leaf rows))
    (parted : ∀ depth rows feature left right s, 1 < rows.length → feature ∈ observed t rows →
      ∀ h : (bounds (presentValues t rows feature)).1 < (bounds (presentValues t rows feature)).2,
      let value := (splitValue draws _ _ h s).1
      left.rows = rows.filter (fun i => goesLeft (t.cell i feature) value) →
      right.rows = rows.filter (fun i => !goesLeft (t.cell i feature) value) →
      P depth left → P depth right →
      P (depth + 1) (.split rows feature value left right))
    (whole : ∀ depth rows feature left right, 1 < rows.length → feature ∈ observed t rows →
      ¬(bounds (presentValues t rows feature)).1 < (bounds (presentValues t rows feature)).2 →
      left.rows = rows → right.rows = rows → P depth left → P depth right →
      P (depth + 1)
        (.split rows feature (bounds (presentValues t rows feature)).1 left right))
    (depth : Nat) (rows : List Nat) (s : σ) : P depth (growLineage draws t depth rows s).1 := by
  induction depth generalizing rows s with
  | zero => exact leaf 0 rows (.inl rfl)
  | succ depth ih =>
    unfold growLineage
    split
    · rename_i hfew
      exact leaf _ rows (.inr (.inl hfew))
    · rename_i hmany
      simp only
      split
      · rename_i hpos
        -- a column is drawn; either its values part the rows or they are all the same
        have hmem : (observed t rows).get (draws.index _ hpos s).1 ∈ observed t rows :=
          List.get_mem _ _
        split
        · rename_i hlt
          simp only [List.partition_eq_filter_filter]
          exact parted depth rows _ _ _ _ (by omega) hmem hlt (rows_growLineage ..)
            (rows_growLineage ..) (ih _ _) (ih _ _)
        · rename_i hflat
          exact whole depth rows _ _ _ (by omega) hmem hflat (rows_growLineage ..)
            (rows_growLineage ..) (ih _ _) (ih _ _)
      · rename_i hnone
        exact leaf _ rows (.inr (.inr (List.length_eq_zero_iff.1 (by omega))))

inductive Side
  | left
  | right
  deriving DecidableEq, Repr

def Side.pick {α : Type} (left right : α) : Side → α
  | .left => left
  | .right => right

def Tree.node? : Tree → List Side → Option Tree
  | tree, [] => some tree
  | .leaf _, _ :: _ => none
  | .split _ _ left right, side :: way => (side.pick left right).node? way

def Lineage.node? : Lineage → List Side → Option Lineage
  | lineage, [] => some lineage
  | .leaf _, _ :: _ => none
  | .split _ _ _ left right, side :: way => (side.pick left right).node? way

/-- The turns that a sample takes on its way to a leaf. -/
def Tree.route? : Tree → List Float → Option (List Side)
  | .leaf _, _ => some []
  | .split feature value left right, sample =>
    match sample[feature]? with
    | none => none
    | some x =>
      if goesLeft x value then (left.route? sample).map (Side.left :: ·)
      else (right.route? sample).map (Side.right :: ·)

theorem Lineage.node?_tree (l : Lineage) (way : List Side) :
    l.tree.node? way = (l.node? way).map tree := by
  induction way generalizing l with
  | nil => cases l <;> rfl
  | cons side way ih =>
    cases l with
    | leaf rows => rfl
    | split rows feature value left right => cases side <;> exact ih _

end LedgerWatch.Isolation
