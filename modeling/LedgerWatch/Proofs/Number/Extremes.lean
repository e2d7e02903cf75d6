import LedgerWatch.Proofs.Number.Quotients

namespace LedgerWatch.Binary64

open Float.Model
open Float.Model.UnpackedFloat

section Pairs

variable {x y : Float}

theorem le_infinity (hx : x.isNaN = false) : x ≤ infinity := by
  have hinf : infinity.toModel.unpack = .infinity .positive := rfl
  rw [le_iff hx (by decide), hinf]
  rcases x.toModel.unpack with (_ | _) | _ | _ | ⟨_ | _, m, e, hm⟩ <;> dsimp only [place] <;>
    simp [Prod.Lex.toLex_le_toLex]

theorem smaller_eq_or (x y : Float) : smaller x y = x ∨ smaller x y = y := by
  unfold smaller
  split
  · exact .inr rfl
  · split
    · exact .inr rfl
    · exact .inl rfl

theorem smaller_le_left (hx : x.isNaN = false) : smaller x y ≤ x := by
  rw [smaller, hx, if_neg Bool.false_ne_true]
  split
  · rename_i hlt
    exact le_of_lt hlt
  · exact le_refl_of_not_isNaN hx

theorem smaller_le_right (hx : x.isNaN = false) (hy : y.isNaN = false) : smaller x y ≤ y := by
  rw [smaller, hx, if_neg Bool.false_ne_true]
  split
  · exact le_refl_of_not_isNaN hy
  · rename_i hge
    exact (not_lt_iff hy hx).1 hge

end Pairs

section Folds

variable {xs : List Float} {x : Float}

/-- Choosing between two numbers at a time, by a relation that passes along, leaves one that is
related to all of them. -/
theorem foldl_choice {r : Float → Float → Prop} {choose : Float → Float → Float}
    (htrans : ∀ {x y z}, r x y → r y z → r x z)
    (hor : ∀ x y, choose x y = x ∨ choose x y = y)
    (hboth : ∀ {x y}, x.isNaN = false → y.isNaN = false → r (choose x y) x ∧ r (choose x y) y)
    (hrefl : ∀ {x}, x.isNaN = false → r x x)
    (hx : x.isNaN = false) (hxs : ∀ y ∈ xs, y.isNaN = false) :
    xs.foldl choose x ∈ x :: xs ∧ ∀ y ∈ x :: xs, r (xs.foldl choose x) y := by
  induction xs generalizing x with
  | nil =>
    refine ⟨List.mem_singleton_self x, ?_⟩
    intro y hy
    rw [List.mem_singleton.1 hy]
    exact hrefl hx
  | cons z xs ih =>
    have hz := hxs z List.mem_cons_self
    obtain ⟨hleft, hright⟩ := hboth hx hz
    have hchosen : (choose x z).isNaN = false := by
      rcases hor x z with heq | heq <;> rw [heq] <;> assumption
    obtain ⟨hmem, hrel⟩ := ih hchosen fun y hy => hxs y (List.mem_cons_of_mem z hy)
    have hfirst := hrel _ List.mem_cons_self
    constructor
    · rcases List.mem_cons.1 hmem with heq | htail
      · rw [List.foldl_cons, heq]
        rcases hor x z with heq | heq <;> simp [heq]
      · exact List.mem_cons_of_mem x (List.mem_cons_of_mem z htail)
    · intro y hy
      rcases List.mem_cons.1 hy with rfl | hy
      · exact htrans hfirst hleft
      · rcases List.mem_cons.1 hy with rfl | hy
        · exact htrans hfirst hright
        · exact hrel y (List.mem_cons_of_mem _ hy)

theorem isLeast_foldl_smaller (hx : x.isNaN = false) (hxs : ∀ y ∈ xs, y.isNaN = false) :
    IsLeast {y | y ∈ x :: xs} (xs.foldl smaller x) := by
  obtain ⟨hmem, hle⟩ := foldl_choice (r := (· ≤ ·)) le_trans smaller_eq_or
    (fun hx hy => ⟨smaller_le_left hx, smaller_le_right hx hy⟩) le_refl_of_not_isNaN hx hxs
  exact ⟨hmem, fun y hy => hle y hy⟩

theorem isGreatest_foldl_larger (hx : x.isNaN = false) (hxs : ∀ y ∈ xs, y.isNaN = false) :
    IsGreatest {y | y ∈ x :: xs} (xs.foldl larger x) := by
  obtain ⟨hmem, hle⟩ := foldl_choice (r := fun x y => y ≤ x) (fun hxy hyz => le_trans hyz hxy)
    larger_eq_or (fun hx hy => ⟨le_larger_left hx, le_larger_right hx hy⟩) le_refl_of_not_isNaN
    hx hxs
  exact ⟨hmem, fun y hy => hle y hy⟩

end Folds

end LedgerWatch.Binary64
