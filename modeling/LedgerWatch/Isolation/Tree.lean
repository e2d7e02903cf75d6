import LedgerWatch.Number.Elementary
import LedgerWatch.Random.Draws
import LedgerWatch.Table

namespace LedgerWatch.Isolation

inductive Tree
  | leaf (size : Nat)
  | split (feature : Nat) (value : Float) (left right : Tree)

/-- The mean number of steps of a search without success among `n` points. -/
def searchCost (n : Nat) : Float :=
  if n ≤ 1 then 0
  else
    let x := Float.ofNat n
    2 * (Elementary.ln (x - 1) + 0.5772156649) - 2 * (x - 1) / x

/-- A missing value goes left, and so does a value below the split. -/
def goesLeft (value split : Float) : Bool := value.isNaN || value < split

/-- The way of a sample through a tree: the edges walked and the size of the leaf it ends in. -/
structure Walk where
  edges : Nat
  size : Nat
  deriving DecidableEq, Repr

def Walk.deeper (w : Walk) : Walk := { w with edges := w.edges + 1 }

/-- The edges, and what the search would still take inside of the leaf. -/
def Walk.length (w : Walk) : Float := Float.ofNat w.edges + searchCost w.size

namespace Tree

/-- The way of a sample, unless a split asks for a feature that the sample does not have. -/
def walk? : Tree → List Float → Option Walk
  | leaf size, _ => some ⟨0, size⟩
  | split feature value left right, sample =>
    match sample[feature]? with
    | none => none
    | some x =>
      if goesLeft x value then (left.walk? sample).map Walk.deeper
      else (right.walk? sample).map Walk.deeper

def pathLength? (t : Tree) (sample : List Float) : Option Float :=
  (t.walk? sample).map Walk.length

def depth : Tree → Nat
  | leaf _ => 0
  | split _ _ left right => 1 + max left.depth right.depth

end Tree

def observed (t : Table) (rows : List Nat) : List Nat :=
  (List.range t.width).filter fun j => rows.any fun i => !(t.cell i j).isNaN

def presentValues (t : Table) (rows : List Nat) (feature : Nat) : List Float :=
  (rows.map fun i => t.cell i feature).filter fun x => !x.isNaN

def bounds (xs : List Float) : Float × Float :=
  (xs.foldl Binary64.smaller Binary64.infinity, xs.foldl Binary64.larger (-Binary64.infinity))

variable {σ : Type}

/-- A value to split at. Where the span from `lo` to `hi` is too wide for a number, the value is
mixed from both ends. -/
def splitValue (draws : Random.Draws σ) (lo hi : Float) (h : lo < hi) (s : σ) : Float × σ :=
  if (hi - lo).isFinite then
    let (x, s) := draws.between lo hi h s
    (x.val, s)
  else
    let (t, s) := draws.unit s
    (Binary64.clamp (lo * (1 - t.val) + hi * t.val) lo hi, s)

/-- Grows a tree of limited depth over some rows. A column with a single value does not part them;
then both branches get all of them. -/
def grow (draws : Random.Draws σ) (t : Table) : Nat → List Nat → σ → Tree × σ
  | 0, rows, s => (.leaf rows.length, s)
  | depth + 1, rows, s =>
    if rows.length ≤ 1 then (.leaf rows.length, s)
    else
      let features := observed t rows
      if h : 0 < features.length then
        let (pick, s) := draws.index features.length h s
        let feature := features[pick]
        let (lo, hi) := bounds (presentValues t rows feature)
        if hlt : lo < hi then
          let (value, s) := splitValue draws lo hi hlt s
          let (inLeft, inRight) := rows.partition fun i => goesLeft (t.cell i feature) value
          let (left, s) := grow draws t depth inLeft s
          let (right, s) := grow draws t depth inRight s
          (.split feature value left right, s)
        else
          let (left, s) := grow draws t depth rows s
          let (right, s) := grow draws t depth rows s
          (.split feature lo left right, s)
      else (.leaf rows.length, s)

/-- Whether a tree that begins at `depth` is more than a leaf, so that the table is looked at. -/
def looksUp (t : Table) (rows : List Nat) (depth maxDepth : Nat) : Bool :=
  depth < maxDepth && 1 < rows.length && 0 < t.width

/-- The tree over some rows, unless a row is outside of the table and has to be looked up. -/
def build? (draws : Random.Draws σ) (t : Table) (rows : List Nat) (depth maxDepth : Nat) (s : σ) :
    Option (Tree × σ) :=
  if looksUp t rows depth maxDepth && !rows.all (· < t.height) then none
  else some (grow draws t (maxDepth - depth) rows s)

end LedgerWatch.Isolation
