import LedgerWatch.Number.Elementary
import LedgerWatch.Proofs.Number.Parts
import LedgerWatch.Proofs.Number.Quotients

namespace LedgerWatch.Binary64

open Float.Model
open Float.Model.UnpackedFloat

section Bits

variable {b : BitVec Format.binary64.numBits} {n k w : ℕ}

/-- The bits of a positive number are its exponent in front of its significand. -/
theorem real_unpack (hb : b.toNat < 2047 * 2 ^ 52) :
    ∃ (m : ℕ) (e : ℤ), (UnpackedFloat.unpack Format.binary64 b).isFinite = true ∧
      real (UnpackedFloat.unpack Format.binary64 b) = m * 2 ^ e ∧ m < 2 ^ 53 ∧
      (e = -1074 ∨ 2 ^ 52 ≤ m) ∧ (b.toNat : ℤ) = (e + 1074) * 2 ^ 52 + m := by
  obtain ⟨hlt, -, hfull⟩ := fields_canonical b.toNat
  have hsum := eq_fields b.isLt
  have hpositive : ¬b.toNat / 2 ^ 63 = 1 := by omega
  rw [if_neg hpositive, zero_add] at hsum
  have hsign : Sign.ofBitVec (unpackSign b) = .positive := by
    rw [ofBitVec_unpackSign, if_neg hpositive]
  refine ⟨significandField b.toNat, exponentField b.toNat, ?_, ?_, hlt, hfull, hsum⟩ <;>
    rw [unpack_eq_fields b (by omega), hsign]
  · split <;> rfl
  · split
    · rename_i h
      simp [h, real]
    · rfl

theorem unpack_ofBits (w : UInt64) : (Float.ofBits w).toModel.unpack =
    stored (UnpackedFloat.unpack Format.binary64 w.toBitVec) := rfl

/-- The bits of the number two are not passed by those of a smaller number. -/
theorem ofBits_between (hw : w ≤ 1024 * 2 ^ 52) :
    Within 1 (Float.ofBits (UInt64.ofNat w)) ∧ 0 ≤ Float.ofBits (UInt64.ofNat w) := by
  have hword : (UInt64.ofNat w).toBitVec.toNat = w := toNat_ofNat_of_lt (by omega)
  obtain ⟨m, e, hfinite, hreal, hm, hfull, hbits⟩ :=
    real_unpack (b := (UInt64.ofNat w).toBitVec) (by omega)
  obtain ⟨hcanonical, hfits⟩ := isCanonical_unpack _ hfinite
  have hunpack := (unpack_ofBits (UInt64.ofNat w)).trans (stored_eq_self hcanonical hfits)
  have hfinite' : (Float.ofBits (UInt64.ofNat w)).isFinite = true := by
    show (Float.ofBits (UInt64.ofNat w)).toModel.unpack.isFinite = true
    rw [hunpack, hfinite]
  have hvalue : value (Float.ofBits (UInt64.ofNat w)) = m * 2 ^ e := by
    rw [value, hunpack, hreal]
  have hnonneg : 0 ≤ value (Float.ofBits (UInt64.ofNat w)) := by
    rw [hvalue]
    positivity
  refine ⟨⟨hfinite', ?_⟩, (zero_le_iff hfinite').2 hnonneg⟩
  rw [abs_of_nonneg hnonneg, hvalue]
  rw [hword] at hbits
  rcases (by omega : e ≤ -52 ∨ e = -51 ∧ m ≤ 2 ^ 52) with hsmall | ⟨rfl, htop⟩
  · have hm' : (m : ℝ) ≤ 2 ^ (53 : ℤ) := by exact_mod_cast hm.le
    calc (m : ℝ) * 2 ^ e ≤ 2 ^ (53 : ℤ) * 2 ^ (-52 : ℤ) :=
          mul_le_mul hm' (two_zpow_le_of_le hsmall) (by positivity) (by positivity)
      _ = 2 ^ (1 : ℤ) := by rw [← zpow_add₀ two_ne_zero]; norm_num
  · have hm' : (m : ℝ) ≤ 2 ^ (52 : ℤ) := by exact_mod_cast htop
    calc (m : ℝ) * 2 ^ (-51 : ℤ) ≤ 2 ^ (52 : ℤ) * 2 ^ (-51 : ℤ) :=
          mul_le_mul_of_nonneg_right hm' (by positivity)
      _ = 2 ^ (1 : ℤ) := by rw [← zpow_add₀ two_ne_zero]; norm_num

theorem roundDiv_le {n d B : ℕ} (h : n < d * B) : roundDiv n d ≤ B := by
  have hlt : n / d < B := Nat.div_lt_of_lt_mul h
  unfold roundDiv
  simp only
  split
  · exact hlt.le
  · split
    · exact hlt
    · have hparity : n / d % 2 ≤ 1 := by omega
      omega

/-- A natural number of up to `k + 1` binary digits, moved behind the point by `k` digits. -/
theorem ofDyadic_between (hn : n < 2 ^ (k + 1)) : Within 1 (ofDyadic n k) ∧ 0 ≤ ofDyadic n k := by
  unfold ofDyadic
  split
  · exact ⟨.zero 1, le_refl_of_not_isNaN (by decide)⟩
  rename_i hne
  have hlog : n.log2 < k + 1 := (Nat.log2_lt hne).2 hn
  have htop : n < 2 ^ (n.log2 + 1) := (Nat.log2_lt hne).1 (Nat.lt_succ_self _)
  simp only
  obtain ⟨unit, hunit⟩ : ∃ unit : ℤ, unit = max ((n.log2 : ℤ) - 52 - k) (-1074) := ⟨_, rfl⟩
  rw [← hunit]
  have hm : (if (k : ℤ) + unit ≤ 0 then n * Nat.pow 2 (-((k : ℤ) + unit)).toNat
      else roundDiv n (Nat.pow 2 ((k : ℤ) + unit).toNat)) ≤ 2 ^ 53 := by
    split
    · calc n * 2 ^ (-((k : ℤ) + unit)).toNat
          ≤ 2 ^ (n.log2 + 1) * 2 ^ (-((k : ℤ) + unit)).toNat := Nat.mul_le_mul_right _ htop.le
        _ = 2 ^ (n.log2 + 1 + (-((k : ℤ) + unit)).toNat) := (pow_add 2 _ _).symm
        _ ≤ 2 ^ 53 := Nat.pow_le_pow_right (by norm_num) (by omega)
    · refine roundDiv_le (htop.trans_le ?_)
      show 2 ^ (n.log2 + 1) ≤ 2 ^ ((k : ℤ) + unit).toNat * 2 ^ 53
      rw [← pow_add]
      exact Nat.pow_le_pow_right (by norm_num) (by omega)
  have hplace : (unit + 1074).toNat ≤ 1022 := by omega
  apply ofBits_between
  refine (min_le_left _ _).trans ?_
  calc (unit + 1074).toNat * 2 ^ 52 + _ ≤ 1022 * 2 ^ 52 + 2 ^ 53 :=
        add_le_add (Nat.mul_le_mul_right _ hplace) hm
    _ = 1024 * 2 ^ 52 := by norm_num

end Bits

end LedgerWatch.Binary64

namespace LedgerWatch.Elementary

open Binary64

theorem one_le_expFixed (r : ℕ) : one ≤ expFixed r := Nat.le_add_right _ _

theorem ofDyadic_inverse_between (r k : ℕ) :
    Within 1 (ofDyadic (one * one / expFixed r) (precision + k)) ∧
      0 ≤ ofDyadic (one * one / expFixed r) (precision + k) := by
  apply ofDyadic_between
  have hpos : 0 < one := Nat.pow_pos (by norm_num)
  calc one * one / expFixed r ≤ one * one / one := Nat.div_le_div_left (one_le_expFixed r) hpos
    _ = 2 ^ precision := Nat.mul_div_cancel _ hpos
    _ < 2 ^ (precision + k + 1) := Nat.pow_lt_pow_right (by norm_num) (by omega)

theorem halving_between (x : Float) : Within 1 (halving x) ∧ 0 ≤ halving x := by
  unfold halving halvedFixed
  split
  · exact ofDyadic_inverse_between _ _
  · exact ⟨.zero 1, le_refl_of_not_isNaN (by decide)⟩

theorem decay_between {x : Float} (hx : x.isNaN = false) : Within 1 (decay x) ∧ 0 ≤ decay x := by
  rw [decay, if_neg (Bool.eq_false_iff.1 hx)]
  split
  · exact ofDyadic_inverse_between _ _
  · exact ⟨.zero 1, le_refl_of_not_isNaN (by decide)⟩

theorem decay_of_isNaN {x : Float} (hx : x.isNaN = true) : decay x = x := if_pos hx

end LedgerWatch.Elementary
