import LedgerWatch.Proofs.Number.Values

namespace LedgerWatch.Binary64

open Float.Model
open Float.Model.UnpackedFloat

section Magnitudes

variable {m m' : ℕ} {e e' : ℤ}

/-- Of two numbers in canonical form the one with the larger exponent is larger. -/
theorem mul_zpow_lt_of_exponent_lt (hlt : m < 2 ^ 53) (hfull : e' = -1074 ∨ 2 ^ 52 ≤ m')
    (hle : -1074 ≤ e) (h : e < e') : (m : ℝ) * 2 ^ e < m' * 2 ^ e' := by
  have hm : (m : ℝ) < 2 ^ 53 := by exact_mod_cast hlt
  have hm' : (2 : ℝ) ^ 52 ≤ m' := by exact_mod_cast hfull.resolve_left (by omega)
  have he : (2 : ℝ) * 2 ^ e ≤ 2 ^ e' := by
    rw [← zpow_one_add₀ two_ne_zero]
    exact two_zpow_le_of_le (by omega)
  calc (m : ℝ) * 2 ^ e < 2 ^ 53 * 2 ^ e := mul_lt_mul_of_pos_right hm (two_zpow_pos e)
    _ = 2 ^ 52 * (2 * 2 ^ e) := by ring
    _ ≤ m' * 2 ^ e' := mul_le_mul hm' he (by positivity) (by positivity)

theorem mul_zpow_le_iff (hm : m < 2 ^ 53 ∧ -1074 ≤ e ∧ (e = -1074 ∨ 2 ^ 52 ≤ m))
    (hm' : m' < 2 ^ 53 ∧ -1074 ≤ e' ∧ (e' = -1074 ∨ 2 ^ 52 ≤ m')) :
    (m : ℝ) * 2 ^ e ≤ m' * 2 ^ e' ↔ e < e' ∨ e = e' ∧ m ≤ m' := by
  rcases lt_trichotomy e e' with hlt | rfl | hgt
  · have hless := mul_zpow_lt_of_exponent_lt hm.1 hm'.2.2 hm.2.1 hlt
    simp [hless.le, hlt]
  · rw [mul_le_mul_iff_of_pos_right (two_zpow_pos e)]
    simp
  · have hless := mul_zpow_lt_of_exponent_lt hm'.1 hm.2.2 hm'.2.1 hgt
    simp only [not_le.2 hless, false_iff]
    omega

/-- The scale of places is that of values. -/
theorem place_le_place_iff {u v : UnpackedFloat} (hu : IsCanonical u) (hv : IsCanonical v) :
    place u ≤ place v ↔ real u ≤ real v := by
  have hpos : ∀ {m : ℕ} {e : ℤ}, 0 < m → (0 : ℝ) < m * 2 ^ e := by
    intro m e hm
    have hm' : (0 : ℝ) < m := by exact_mod_cast hm
    exact mul_pos hm' (two_zpow_pos e)
  rcases u with _ | _ | _ | ⟨_ | _, m, e, hm⟩
  · exact hu.elim
  · exact hu.elim
  · rcases v with _ | _ | _ | ⟨_ | _, m', e', hm'⟩
    · exact hv.elim
    · exact hv.elim
    · simp [place, real]
    · have hlt := hpos (e := e') hm'
      simp [place, real, signed, Prod.Lex.toLex_le_toLex, hlt]
    · have hlt := hpos (e := e') hm'
      simp [place, real, signed, Prod.Lex.toLex_le_toLex, hlt.le]
  · rcases v with _ | _ | _ | ⟨_ | _, m', e', hm'⟩
    · exact hv.elim
    · exact hv.elim
    · have hlt := hpos (e := e) hm
      simp [place, real, signed, Prod.Lex.toLex_le_toLex, hlt.le]
    · rw [real, real, signed, signed, neg_le_neg_iff, mul_zpow_le_iff hv hu]
      simp [place, Prod.Lex.toLex_le_toLex]
      omega
    · have hlt := hpos (e := e) hm
      have hlt' := hpos (e := e') hm'
      have hle : -((m : ℝ) * 2 ^ e) ≤ m' * 2 ^ e' := by linarith
      simp [place, real, signed, Prod.Lex.toLex_le_toLex, hle]
  · rcases v with _ | _ | _ | ⟨_ | _, m', e', hm'⟩
    · exact hv.elim
    · exact hv.elim
    · have hlt := hpos (e := e) hm
      simp [place, real, signed, Prod.Lex.toLex_le_toLex, hlt]
    · have hlt := hpos (e := e) hm
      have hlt' := hpos (e := e') hm'
      have hle : ¬(m : ℝ) * 2 ^ e ≤ -(m' * 2 ^ e') := by linarith
      simp [place, real, signed, Prod.Lex.toLex_le_toLex, hle]
    · rw [real, real, signed, signed, mul_zpow_le_iff hu hv]
      simp [place, Prod.Lex.toLex_le_toLex]

end Magnitudes

section Comparing

variable {x y z : Float} {q : ℝ}

theorem le_iff_value (hx : x.isFinite = true) (hy : y.isFinite = true) :
    x ≤ y ↔ value x ≤ value y := by
  rw [le_iff (not_isNaN_of_isFinite hx) (not_isNaN_of_isFinite hy)]
  exact place_le_place_iff (isCanonical_of_isFinite hx) (isCanonical_of_isFinite hy)

theorem compare_swap (u v : UnpackedFloat) : v.compare u = (u.compare v).map Ordering.swap := by
  have hswap : ∀ (e e' : ℤ) (m m' : ℕ), ((compare e e').then (compare m m')).swap =
      (compare e' e).then (compare m' m) := by
    intro e e' m m'
    rw [Ordering.swap_then, ← Std.OrientedOrd.eq_swap, ← Std.OrientedOrd.eq_swap]
  rcases u with (_ | _) | _ | _ | ⟨_ | _, m, e, hm⟩ <;>
    rcases v with (_ | _) | _ | _ | ⟨_ | _, m', e', hm'⟩ <;>
    first
      | rfl
      | exact congrArg some (hswap e e' m m').symm
      | exact congrArg some (congrArg Ordering.swap (hswap e e' m m').symm)

theorem lt_def : x < y ↔ x.toModel.unpack.lt y.toModel.unpack = true := by
  change decide (x.toModel < y.toModel) = true ↔ _
  rw [decide_eq_true_iff]
  rfl

theorem lt_iff_not_le (hx : x.isNaN = false) (hy : y.isNaN = false) : x < y ↔ ¬y ≤ x := by
  have hsome : x.toModel.unpack.compare y.toModel.unpack ≠ none := by
    change x.toModel.unpack.isNaN = false at hx
    change y.toModel.unpack.isNaN = false at hy
    revert hx hy
    generalize x.toModel.unpack = u
    generalize y.toModel.unpack = v
    intro hu hv
    rcases u with (_ | _) | _ | _ | ⟨_ | _, m, e, hm⟩ <;> cases hu <;>
      rcases v with (_ | _) | _ | _ | ⟨_ | _, m', e', hm'⟩ <;> cases hv <;>
      exact Option.some_ne_none _
  rw [lt_def, le_def, UnpackedFloat.lt, UnpackedFloat.le, compare_swap x.toModel.unpack]
  obtain ⟨o, ho⟩ := Option.ne_none_iff_exists'.1 hsome
  rw [ho]
  cases o <;> decide

theorem lt_iff_value (hx : x.isFinite = true) (hy : y.isFinite = true) :
    x < y ↔ value x < value y := by
  rw [lt_iff_not_le (not_isNaN_of_isFinite hx) (not_isNaN_of_isFinite hy), le_iff_value hy hx,
    not_le]

end Comparing

end LedgerWatch.Binary64
