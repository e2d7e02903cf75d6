import LedgerWatch.Proofs.Number.Quotients

namespace LedgerWatch.Binary64

open Float.Model
open Float.Model.UnpackedFloat

/-- Two doubles that are not the same are at least the smallest double apart. -/
theorem Representable.two_zpow_le_sub {v w : ℝ} (hv : Representable v) (hw : Representable w)
    (h : v < w) : 2 ^ (-1074 : ℤ) ≤ w - v := by
  obtain ⟨k, e, -, he, rfl⟩ := hv
  obtain ⟨k', e', -, he', rfl⟩ := hw
  obtain ⟨j, hj⟩ := exists_mul_zpow_of_le k he
  obtain ⟨j', hj'⟩ := exists_mul_zpow_of_le k' he'
  rw [hj, hj', mul_lt_mul_iff_of_pos_right (two_zpow_pos _)] at h
  have hone : (1 : ℝ) ≤ j' - j := by
    have hlt : j < j' := by exact_mod_cast h
    exact_mod_cast (by omega : 1 ≤ j' - j)
  rw [hj, hj', ← sub_mul]
  exact le_mul_of_one_le_left (two_zpow_pos _).le hone

variable {x y t lo hi : Float}

section Infinite

variable {s : Sign}

theorem unpack_infinity_mul (hx : x.toModel.unpack = .infinity s) (hy : y.isFinite = true)
    (hpos : 0 < y) : (x * y).toModel.unpack = .infinity s := by
  have hvalue := (zero_lt_iff hy).1 hpos
  change y.toModel.unpack.isFinite = true at hy
  change stored (x.toModel.unpack.mul Format.binary64 y.toModel.unpack) = .infinity s
  rw [value] at hvalue
  rw [hx]
  generalize y.toModel.unpack = v at hy hvalue
  rcases v with _ | _ | _ | ⟨_ | _, m, e, hm⟩
  · cases hy
  · cases hy
  · simp [real] at hvalue
  · have hneg : (0 : ℝ) ≤ m * 2 ^ e := by positivity
    simp only [real, signed] at hvalue
    linarith
  · cases s <;> exact stored_infinity _

theorem unpack_infinity_add (hx : x.toModel.unpack = .infinity s) (hy : y.isFinite = true) :
    (x + y).toModel.unpack = .infinity s := by
  change y.toModel.unpack.isFinite = true at hy
  change stored (x.toModel.unpack.add Format.binary64 y.toModel.unpack) = .infinity s
  rw [hx]
  generalize y.toModel.unpack = v at hy
  rcases v with _ | _ | _ | _
  · cases hy
  · cases hy
  · exact stored_infinity s
  · exact stored_infinity s

theorem not_isNaN_of_infinity (hx : x.toModel.unpack = .infinity s) : x.isNaN = false := by
  change x.toModel.unpack.isNaN = false
  rw [hx]
  rfl

theorem Rounds.not_isNaN {q : ℝ} (h : Rounds q x) : x.isNaN = false := by
  cases h with
  | finite hfinite _ => exact not_isNaN_of_isFinite hfinite
  | infinite s r hunpack _ _ => exact not_isNaN_of_infinity hunpack

end Infinite

section Weights

theorem isFinite_mul_weight (hx : x.isFinite = true) (ht : t.isFinite = true)
    (hle : |value t| ≤ 1) : (x * t).isFinite = true := by
  have habs : |value x * value t| ≤ |value x| := by
    rw [abs_mul]
    exact mul_le_of_le_one_right (abs_nonneg _) hle
  exact ((rounds_mul hx ht).isFinite_of_abs_le (representable_value hx).abs (abs_value_lt x)
    habs).1

theorem one_sub_within (h : 0 ≤ t) (hle : t ≤ 1) :
    (1 - t).isFinite = true ∧ |value (1 - t)| ≤ 1 := by
  have hfinite := isFinite_of_zero_le_of_le h isFinite_one hle
  have hnonneg := (zero_le_iff hfinite).1 h
  have hvalue := (le_iff_value hfinite isFinite_one).1 hle
  have hround := rounds_sub isFinite_one hfinite
  rw [value_one] at hround hvalue
  exact hround.isFinite_of_abs_le representable_one
    (by simpa using two_zpow_lt_limit (e := 0) (by norm_num))
    (abs_le.2 ⟨by linarith, by linarith⟩)

theorem one_sub_le_one (h : 0 ≤ t) (hle : t ≤ 1) : 1 - t ≤ 1 := by
  obtain ⟨hfinite, habs⟩ := one_sub_within h hle
  rw [le_iff_value hfinite isFinite_one, value_one]
  exact (abs_le.1 habs).2

theorem one_sub_pos (h : 0 ≤ t) (hlt : t < 1) : 0 < 1 - t := by
  have hfinite := isFinite_of_zero_le_of_le h isFinite_one (le_of_lt hlt)
  have hvalue := (lt_iff_value hfinite isFinite_one).1 hlt
  have hrest := (one_sub_within h (le_of_lt hlt)).1
  have hgap := (representable_value hfinite).two_zpow_le_sub (representable_value isFinite_one)
    hvalue
  have hkept := ((rounds_sub isFinite_one hfinite).nearest_of_isFinite hrest).ge_of_ge
    (representable_two_zpow (e := -1074) le_rfl) hgap
  exact (zero_lt_iff hrest).2 ((two_zpow_pos _).trans_le hkept)

theorem not_isNaN_mixture (hlo : lo.isNaN = false) (hhi : hi.isFinite = true) (h : 0 ≤ t)
    (hlt : t < 1) : (lo * (1 - t) + hi * t).isNaN = false := by
  have ht := isFinite_of_zero_le_of_le h isFinite_one (le_of_lt hlt)
  obtain ⟨hrest, hle⟩ := one_sub_within h (le_of_lt hlt)
  have hpos := one_sub_pos h hlt
  have hweight : |value t| ≤ 1 := by
    have hone := (le_iff_value ht isFinite_one).1 (le_of_lt hlt)
    rw [value_one] at hone
    exact abs_le.2 ⟨by linarith [(zero_le_iff ht).1 h], hone⟩
  have hright := isFinite_mul_weight hhi ht hweight
  rcases isFinite_or_infinity hlo with hfinite | ⟨s, hs⟩
  · exact (rounds_add (isFinite_mul_weight hfinite hrest hle) hright).not_isNaN
  · exact not_isNaN_of_infinity (unpack_infinity_add (unpack_infinity_mul hs hrest hpos) hright)

/-- From one end of all numbers to the other no mixture is a number. -/
theorem isNaN_mixture_of_infinite (h : 0 ≤ t) (hlt : t < 1) :
    (-infinity * (1 - t) + infinity * t).isNaN = true := by
  have ht := isFinite_of_zero_le_of_le h isFinite_one (le_of_lt hlt)
  have hvalue := (zero_le_iff ht).1 h
  have hrest := (one_sub_within h (le_of_lt hlt)).1
  have hleft := unpack_infinity_mul unpack_negative_infinity hrest (one_sub_pos h hlt)
  -- a weight of zero takes the upper end to no number, any other one leaves it where it is
  have hright : (infinity * t).toModel.unpack = .notANumber ∨
      (infinity * t).toModel.unpack = .infinity .positive := by
    rcases hvalue.eq_or_lt with hzero | hweight
    · left
      change stored (UnpackedFloat.mul Format.binary64 (.infinity .positive) t.toModel.unpack) = _
      have hunpack := isCanonical_of_isFinite ht
      rw [value] at hzero
      generalize t.toModel.unpack = v at hzero hunpack
      rcases v with _ | _ | _ | ⟨s, m, e, hm⟩
      · exact hunpack.elim
      · exact hunpack.elim
      · exact (rfl : stored .notANumber = .notANumber)
      · have hne : (0 : ℝ) < m * 2 ^ e := mul_pos (by exact_mod_cast hm) (two_zpow_pos e)
        cases s <;> simp only [real, signed] at hzero <;> linarith
    · exact .inr (unpack_infinity_mul rfl ht ((zero_lt_iff ht).2 hweight))
  change (stored (UnpackedFloat.add Format.binary64 (-infinity * (1 - t)).toModel.unpack
    (infinity * t).toModel.unpack)).isNaN = true
  rw [hleft]
  rcases hright with hright | hright <;> rw [hright] <;> rfl

end Weights

end LedgerWatch.Binary64
