import LedgerWatch.Number.Binary64
import Mathlib.Data.Prod.Lex
import Mathlib.Data.Int.Order.Basic

namespace LedgerWatch.Binary64

open Float.Model (UnpackedFloat)

/-- Where a number stands among all numbers: by its kind first, then by exponent and significand. -/
def place : UnpackedFloat → ℤ ×ₗ ℤ ×ₗ ℤ
  | .infinity .negative => toLex (-2, toLex (0, 0))
  | .finite .negative m e _ => toLex (-1, toLex (-e, -m))
  | .notANumber => toLex (0, toLex (0, 0))
  | .zero _ => toLex (0, toLex (0, 0))
  | .finite .positive m e _ => toLex (1, toLex (e, m))
  | .infinity .positive => toLex (2, toLex (0, 0))

section Unpacked

variable {u v : UnpackedFloat}

theorem isLE_then_iff {e e' : ℤ} {m m' : ℕ} :
    ((compare e e').then (compare m m')).isLE ↔ e < e' ∨ e = e' ∧ m ≤ m' := by
  rw [Ordering.isLE_then_iff_or, compare_lt_iff_lt, compare_eq_iff_eq, Std.isLE_compare]

theorem isGE_then_iff {e e' : ℤ} {m m' : ℕ} :
    ((compare e e').then (compare m m')).isGE ↔ e' < e ∨ e = e' ∧ m' ≤ m := by
  rw [← Ordering.isLE_swap, Ordering.swap_then, ← Std.OrientedOrd.eq_swap,
    ← Std.OrientedOrd.eq_swap, isLE_then_iff, eq_comm]

theorem le_iff_place (hu : u.isNaN = false) (hv : v.isNaN = false) :
    u.le v = true ↔ place u ≤ place v := by
  -- within one kind exponents and significands decide, between two kinds the kinds alone
  rcases u with (_ | _) | _ | _ | ⟨_ | _, m, e, hm⟩ <;> cases hu <;>
    rcases v with (_ | _) | _ | _ | ⟨_ | _, m', e', hm'⟩ <;> cases hv <;>
    dsimp only [UnpackedFloat.le, UnpackedFloat.compare, place] <;>
    simp [Prod.Lex.toLex_le_toLex, isLE_then_iff, isGE_then_iff] <;> rfl

theorem isNaN_eq_false_of_le (h : u.le v = true) : u.isNaN = false ∧ v.isNaN = false := by
  cases u with
  | notANumber => cases h
  | infinity | zero | finite =>
    cases v with
    | notANumber => cases h
    | infinity | zero | finite => exact ⟨rfl, rfl⟩

theorem place_negative_infinity_le (u : UnpackedFloat) : place (.infinity .negative) ≤ place u := by
  rcases u with (_ | _) | _ | _ | ⟨_ | _, m, e, hm⟩ <;> dsimp only [place] <;>
    simp [Prod.Lex.toLex_le_toLex]

end Unpacked

section Doubles

variable {x y z : Float}

theorem le_def : x ≤ y ↔ x.toModel.unpack.le y.toModel.unpack = true := by
  change decide (x.toModel ≤ y.toModel) = true ↔ _
  rw [decide_eq_true_iff]
  rfl

theorem le_iff (hx : x.isNaN = false) (hy : y.isNaN = false) :
    x ≤ y ↔ place x.toModel.unpack ≤ place y.toModel.unpack :=
  le_def.trans (le_iff_place hx hy)

theorem not_isNaN_of_le (h : x ≤ y) : x.isNaN = false ∧ y.isNaN = false :=
  isNaN_eq_false_of_le (le_def.1 h)

theorem not_le_of_isNaN (hx : x.isNaN) : ¬y ≤ x := by
  intro h
  rw [(not_isNaN_of_le h).2] at hx
  cases hx

theorem le_trans (hxy : x ≤ y) (hyz : y ≤ z) : x ≤ z := by
  obtain ⟨hx, hy⟩ := not_isNaN_of_le hxy
  obtain ⟨-, hz⟩ := not_isNaN_of_le hyz
  rw [le_iff hx hy] at hxy
  rw [le_iff hy hz] at hyz
  exact (le_iff hx hz).2 (hxy.trans hyz)

theorem le_total (hx : x.isNaN = false) (hy : y.isNaN = false) : x ≤ y ∨ y ≤ x := by
  rw [le_iff hx hy, le_iff hy hx]
  exact LinearOrder.le_total _ _

theorem unpack_negative_infinity : (-infinity).toModel.unpack = .infinity .negative := rfl

theorem negative_infinity_le (hx : x.isNaN = false) : -infinity ≤ x := by
  have hinf : (-infinity).isNaN = false := by decide
  rw [le_iff hinf hx, unpack_negative_infinity]
  exact place_negative_infinity_le _

end Doubles

end LedgerWatch.Binary64
