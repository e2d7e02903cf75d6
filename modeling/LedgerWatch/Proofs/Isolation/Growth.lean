import LedgerWatch.Proofs.Isolation.Lineage

namespace LedgerWatch.Isolation

variable {σ : Type}

/-- A property of depth limits, rows and trees that holds of leaves and passes from the branches
to a split holds of every tree that is grown. The first kind of split parts the rows, the second
one hands all of them to both branches. -/
theorem grow_induction (draws : Random.Draws σ) (t : Table) {P : Nat → List Nat → Tree → Prop}
    (leaf : ∀ depth rows, depth = 0 ∨ rows.length ≤ 1 ∨ observed t rows = [] →
      P depth rows (.leaf rows.length))
    (parted : ∀ depth rows feature left right s, 1 < rows.length → feature ∈ observed t rows →
      ∀ h : (bounds (presentValues t rows feature)).1 < (bounds (presentValues t rows feature)).2,
      let value := (splitValue draws _ _ h s).1
      P depth (rows.filter fun i => goesLeft (t.cell i feature) value) left →
      P depth (rows.filter fun i => !goesLeft (t.cell i feature) value) right →
      P (depth + 1) rows (.split feature value left right))
    (whole : ∀ depth rows feature left right, 1 < rows.length → feature ∈ observed t rows →
      ¬(bounds (presentValues t rows feature)).1 < (bounds (presentValues t rows feature)).2 →
      P depth rows left → P depth rows right →
      P (depth + 1) rows
        (.split feature (bounds (presentValues t rows feature)).1 left right))
    (depth : Nat) (rows : List Nat) (s : σ) : P depth rows (grow draws t depth rows s).1 := by
  have h := lineage_induction draws t (P := fun depth l => P depth l.rows l.tree)
    (fun depth rows hleaf => leaf depth rows hleaf) ?_ ?_ depth rows s
  · rw [rows_growLineage] at h
    rw [grow_eq_tree]
    exact h
  · intro depth rows feature left right s hmany hmem hlt value hleft hright ihl ihr
    rw [hleft] at ihl
    rw [hright] at ihr
    exact parted depth rows feature left.tree right.tree s hmany hmem hlt ihl ihr
  · intro depth rows feature left right hmany hmem hflat hleft hright ihl ihr
    rw [hleft] at ihl
    rw [hright] at ihr
    exact whole depth rows feature left.tree right.tree hmany hmem hflat ihl ihr

def Tree.Within (width : Nat) : Tree → Prop
  | .leaf _ => True
  | .split feature _ left right => feature < width ∧ left.Within width ∧ right.Within width

theorem lt_width_of_mem_observed {t : Table} {rows : List Nat} {feature : Nat}
    (h : feature ∈ observed t rows) : feature < t.width :=
  List.mem_range.1 (List.mem_filter.1 h).1

theorem within_grow (draws : Random.Draws σ) (t : Table) (depth : Nat) (rows : List Nat) (s : σ) :
    (grow draws t depth rows s).1.Within t.width := by
  refine grow_induction draws t (P := fun _ _ tree => tree.Within t.width) ?_ ?_ ?_ depth rows s
  · intro depth rows _
    trivial
  · intro depth rows feature left right s _ hmem _ value hleft hright
    exact ⟨lt_width_of_mem_observed hmem, hleft, hright⟩
  · intro depth rows feature left right _ hmem _ hleft hright
    exact ⟨lt_width_of_mem_observed hmem, hleft, hright⟩

/-- A sample with all the features that a tree asks for finds its way through it. -/
theorem Tree.Within.isSome_walk? {tree : Tree} {width : Nat} (h : tree.Within width)
    {sample : List Float} (hlen : sample.length = width) : (tree.walk? sample).isSome := by
  induction tree with
  | leaf size => rfl
  | split feature value left right ihl ihr =>
    obtain ⟨hf, hl, hr⟩ := h
    have hlt : feature < sample.length := by omega
    rw [walk?, List.getElem?_eq_getElem hlt]
    simp only
    split
    · rw [Option.isSome_map]
      exact ihl hl
    · rw [Option.isSome_map]
      exact ihr hr

/-- Two sources that give the same, but for numbers from a range of infinite width. -/
structure AgreeOnFinite (draws draws' : Random.Draws σ) : Prop where
  index : draws.index = draws'.index
  unit : draws.unit = draws'.unit
  between : ∀ lo hi (h : lo < hi) s, (hi - lo).isFinite →
    draws.between lo hi h s = draws'.between lo hi h s

theorem splitValue_congr {draws draws' : Random.Draws σ} (h : AgreeOnFinite draws draws')
    (lo hi : Float) (hlt : lo < hi) (s : σ) :
    splitValue draws lo hi hlt s = splitValue draws' lo hi hlt s := by
  unfold splitValue
  by_cases hfinite : (hi - lo).isFinite
  · rw [if_pos hfinite, if_pos hfinite, h.between lo hi hlt s hfinite]
  · rw [if_neg hfinite, if_neg hfinite, h.unit]

/-- No tree asks a source for a number from a range of infinite width. -/
theorem grow_congr {draws draws' : Random.Draws σ} (h : AgreeOnFinite draws draws') (t : Table)
    (depth : Nat) (rows : List Nat) (s : σ) :
    grow draws t depth rows s = grow draws' t depth rows s := by
  induction depth generalizing rows s with
  | zero => rfl
  | succ depth ih =>
    unfold grow
    simp only [h.index, splitValue_congr h, ih]

end LedgerWatch.Isolation
