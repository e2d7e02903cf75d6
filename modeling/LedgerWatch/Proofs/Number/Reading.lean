import LedgerWatch.Number.Reading
import LedgerWatch.Proofs.Number.Parts

namespace LedgerWatch

open Float.Model
open Float.Model.UnpackedFloat

namespace Binary64

variable {m k : ℕ} {e : ℤ}

theorem representable_ten_pow (hk : k ≤ 22) : Representable ((10 : ℝ) ^ k) := by
  have hodd : |((5 : ℤ) ^ k)| ≤ 2 ^ 53 := by
    rw [abs_of_nonneg (by positivity)]
    exact (pow_le_pow_right₀ (by norm_num) hk).trans (by norm_num)
  have hsplit : (10 : ℝ) ^ k = ((5 : ℤ) ^ k : ℤ) * 2 ^ (k : ℤ) := by
    rw [zpow_natCast]
    push_cast
    rw [← mul_pow]
    norm_num
  rw [hsplit]
  exact representable_of_abs_le hodd (by omega)

theorem parts_tabulated : ∀ k : Fin Float.exactlyRepresentablePowersOfTen.size,
    Float.exactlyRepresentablePowersOfTen[k].isFinite = true ∧
      (parts Float.exactlyRepresentablePowersOfTen[k]).negative = false ∧
      -52 ≤ (parts Float.exactlyRepresentablePowersOfTen[k]).exponent ∧
      (parts Float.exactlyRepresentablePowersOfTen[k]).significand *
        2 ^ ((parts Float.exactlyRepresentablePowersOfTen[k]).exponent + 52).toNat =
          10 ^ (k : ℕ) * 2 ^ 52 := by
  decide +kernel

/-- A power of ten from the table of those that are doubles. -/
theorem value_tabulated (hk : k < Float.exactlyRepresentablePowersOfTen.size) :
    Float.exactlyRepresentablePowersOfTen[k].isFinite = true ∧
      value Float.exactlyRepresentablePowersOfTen[k] = 10 ^ k := by
  obtain ⟨hfinite, hsign, hexponent, hvalue⟩ := parts_tabulated ⟨k, hk⟩
  simp only [Fin.getElem_fin] at hfinite hsign hexponent hvalue
  generalize Float.exactlyRepresentablePowersOfTen[k] = x at hfinite hsign hexponent hvalue ⊢
  refine ⟨hfinite, ?_⟩
  obtain ⟨n, hn⟩ : ∃ n : ℕ, (parts x).exponent = n - 52 :=
    ⟨((parts x).exponent + 52).toNat, by omega⟩
  have hcast : ((parts x).significand : ℝ) * 2 ^ n = 10 ^ k * 2 ^ 52 := by
    rw [hn, sub_add_cancel, Int.toNat_natCast] at hvalue
    exact_mod_cast hvalue
  rw [value_eq_parts hfinite, Parts.sign, hsign]
  show ((parts x).significand : ℝ) * 2 ^ (parts x).exponent = 10 ^ k
  rw [hn, zpow_sub₀ two_ne_zero, zpow_natCast, mul_div_assoc', hcast]
  exact mul_div_cancel_right₀ _ (by positivity)

theorem two_zpow_le_ten_zpow {n : ℕ} : (2 : ℝ) ^ (n : ℤ) ≤ 10 ^ (n : ℤ) := by
  rw [zpow_natCast, zpow_natCast]
  exact pow_le_pow_left₀ (by norm_num) (by norm_num) n

theorem rounds_large {z : Float} (hm : 0 < m) (he : 2048 < e)
    (hz : z.toModel.unpack = .infinity .positive) : Rounds (m * 10 ^ e) z := by
  obtain ⟨k, rfl⟩ := Int.eq_ofNat_of_zero_le (show 0 ≤ e by omega)
  obtain ⟨r, hr⟩ : ∃ r, Nearest (m * 10 ^ (k : ℤ)) r := by
    have hround := isRounded_places (m := m * 10 ^ k) (by positivity)
    push_cast at hround
    rw [← zpow_natCast] at hround
    exact ⟨_, hround.nearest⟩
  refine .infinite .positive r hz ?_ hr
  apply hr.ge_of_ge (representable_two_zpow (by norm_num))
  calc limit ≤ (2 : ℝ) ^ (k : ℤ) := two_zpow_le_of_le (by omega)
    _ ≤ 10 ^ (k : ℤ) := two_zpow_le_ten_zpow
    _ ≤ m * 10 ^ (k : ℤ) := le_mul_of_one_le_left (by positivity) (by exact_mod_cast hm)

theorem rounds_small {z : Float} (he : e < -(2048 + (m.log2 : ℤ)))
    (hz : z.toModel.unpack = .zero .positive) : Rounds (m * 10 ^ e) z := by
  obtain ⟨k, rfl⟩ : ∃ k : ℕ, e = -k := ⟨(-e).toNat, by omega⟩
  have hvalue : value z = ((0 : ℕ) : ℝ) * 2 ^ (-1074 : ℤ) := by
    rw [value, hz, Nat.cast_zero, zero_mul]
    rfl
  refine .finite (by show z.toModel.unpack.isFinite = true; rw [hz]; rfl) ?_
  have hm : (m : ℝ) ≤ 2 ^ ((m.log2 : ℤ) + 1) := by
    exact_mod_cast (Nat.lt_log2_self (n := m)).le
  have hsmall : (m : ℝ) * 10 ^ (-k : ℤ) ≤ 2 ^ (-1076 : ℤ) := by
    have hten : (10 : ℝ) ^ (-k : ℤ) ≤ 2 ^ (-k : ℤ) := by
      rw [zpow_neg, zpow_neg]
      exact inv_anti₀ (by positivity) two_zpow_le_ten_zpow
    calc (m : ℝ) * 10 ^ (-k : ℤ) ≤ 2 ^ ((m.log2 : ℤ) + 1) * 2 ^ (-k : ℤ) :=
          mul_le_mul hm hten (by positivity) (by positivity)
      _ = 2 ^ ((m.log2 : ℤ) + 1 + -k) := (zpow_add₀ two_ne_zero _ _).symm
      _ ≤ 2 ^ (-1076 : ℤ) := two_zpow_le_of_le (by omega)
  have hquarter : (m : ℝ) * 10 ^ (-k : ℤ) / 2 ^ (-1074 : ℤ) ≤ 1 / 4 := by
    rw [div_le_iff₀ (two_zpow_pos _)]
    refine hsmall.trans_eq ?_
    rw [show (-1076 : ℤ) = -2 + -1074 by norm_num, zpow_add₀ two_ne_zero]
    norm_num
  have hnonneg : 0 ≤ (m : ℝ) * 10 ^ (-k : ℤ) / 2 ^ (-1074 : ℤ) := by positivity
  rw [hvalue]
  apply nearest_of_grid le_rfl (by norm_num) _ (fun _ => rfl) (.inl rfl)
  rw [Nat.cast_zero, zero_sub, abs_neg, abs_of_nonneg hnonneg]
  linarith

/-- A decimal that is rounded from an exact quotient or product. -/
theorem rounds_exact (m : ℕ) (e : ℤ) :
    Rounds (m * 10 ^ e) (Float.ofModel (Float.Model.ofScientific m e)) := by
  have hexponents : (2 : ℤ) ^ Format.binary64.exponentBits = 2048 := rfl
  obtain ⟨z, hz⟩ : ∃ z, z = Float.ofModel (Float.Model.ofScientific m e) := ⟨_, rfl⟩
  have hunpack : z.toModel.unpack = stored (UnpackedFloat.ofScientific Format.binary64 m e) := by
    rw [hz]
    rfl
  rw [← hz]
  rcases Nat.eq_zero_or_pos m with rfl | hm
  · have hzero : UnpackedFloat.ofScientific Format.binary64 0 e = .zero .positive := dif_pos rfl
    rw [hzero] at hunpack
    have hround := rounds_of_isRounded (isRounded_zero .positive) hunpack
    rwa [Nat.cast_zero, zero_mul]
  rcases lt_or_ge 2048 e with hlarge | hhigh
  · have hover : UnpackedFloat.ofScientific Format.binary64 m e = .infinity .positive := by
      rw [UnpackedFloat.ofScientific, dif_neg hm.ne', hexponents, if_pos hlarge]
    rw [hover, stored_infinity] at hunpack
    exact rounds_large hm hlarge hunpack
  rcases lt_or_ge e (-(2048 + (m.log2 : ℤ))) with hsmall | hlow
  · have hunder : UnpackedFloat.ofScientific Format.binary64 m e = .zero .positive := by
      rw [UnpackedFloat.ofScientific, dif_neg hm.ne', hexponents, if_neg (by omega), if_pos hsmall]
    rw [hunder, stored_zero] at hunpack
    exact rounds_small hsmall hunpack
  · exact rounds_of_isRounded (isRounded_ofScientific hm hlow hhigh) hunpack

end Binary64

namespace Decimal

open Binary64

/-- A decimal is rounded once. -/
theorem rounds_nearest (m : ℕ) (e : ℤ) : Rounds (m * 10 ^ e) (nearest m e) := by
  unfold nearest Float.ofScientific
  split
  · -- the digits and the power of ten are doubles
    rename_i h
    have hword : m.toUInt64.toNat = m := by
      show m % 2 ^ 64 = m
      omega
    have hround := rounds_toFloat m.toUInt64
    rw [hword] at hround
    obtain ⟨hfinite, hvalue⟩ := hround.eq_of_representable (representable_natCast h.1.le)
      (abs_natCast_lt_limit h.1.le)
    obtain ⟨hpower, hten⟩ := value_tabulated (Nat.lt_succ_of_le h.2)
    by_cases he : e < 0
    · have hdiv := rounds_div hfinite hpower (by rw [hten]; positivity)
      have hexp : (10 : ℝ) ^ e = ((10 : ℝ) ^ e.natAbs)⁻¹ := by
        rw [← zpow_natCast, ← zpow_neg]
        congr 1
        omega
      rw [hvalue, hten, div_eq_mul_inv, ← hexp] at hdiv
      rw [if_pos (decide_eq_true he)]
      exact hdiv
    · have hmul := rounds_mul hfinite hpower
      have hexp : (10 : ℝ) ^ e = (10 : ℝ) ^ e.natAbs := by
        rw [← zpow_natCast]
        congr 1
        omega
      rw [hvalue, hten, ← hexp] at hmul
      rw [if_neg (by simpa using he)]
      exact hmul
  · have hexp : (if decide (e < 0) = true then Int.negOfNat e.natAbs
        else Int.ofNat e.natAbs) = e := by
      simp only [decide_eq_true_eq, Int.negOfNat_eq, Int.ofNat_eq_natCast]
      split <;> omega
    simp only [hexp]
    exact rounds_exact m e

end Decimal

end LedgerWatch
