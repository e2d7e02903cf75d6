import LedgerWatch.Number.Binary64
import LedgerWatch.Proofs.Number.Comparison

namespace LedgerWatch.Binary64

open Float.Model
open Float.Model.UnpackedFloat

/-- The significand in some bits, with its leading digit. -/
def significandField (n : ℕ) : ℕ :=
  if n / 2 ^ 52 % 2 ^ 11 = 0 then n % 2 ^ 52 else 2 ^ 52 + n % 2 ^ 52

def exponentField (n : ℕ) : ℤ :=
  if n / 2 ^ 52 % 2 ^ 11 = 0 then -1074 else ((n / 2 ^ 52 % 2 ^ 11 : ℕ) : ℤ) - 1075

section Fields

/-- The significand has up to 53 digits, and it has all of them above the least exponent. -/
theorem fields_canonical (n : ℕ) : significandField n < 2 ^ 53 ∧ -1074 ≤ exponentField n ∧
    (exponentField n = -1074 ∨ 2 ^ 52 ≤ significandField n) := by
  unfold significandField exponentField
  split <;> omega

/-- The bits are a sign in front of an exponent in front of a significand. -/
theorem eq_fields {n : ℕ} (hn : n < 2 ^ 64) : (n : ℤ) =
    (if n / 2 ^ 63 = 1 then 2 ^ 63 else 0) + (exponentField n + 1074) * 2 ^ 52 +
      significandField n := by
  unfold significandField exponentField
  split <;> split <;> omega

variable (b : BitVec Format.binary64.numBits)

theorem toNat_unpackExponent : (unpackExponent b).toNat = b.toNat / 2 ^ 52 % 2 ^ 11 := by
  rw [unpackExponent, BitVec.toNat_cast, BitVec.extractLsb_toNat, Nat.shiftRight_eq_div_pow]
  rfl

theorem toNat_unpackMantissa : (unpackMantissa b).toNat = b.toNat % 2 ^ 52 := by
  rw [unpackMantissa, BitVec.toNat_cast, BitVec.extractLsb_toNat]
  rfl

theorem ofBitVec_unpackSign :
    Sign.ofBitVec (unpackSign b) = if b.toNat / 2 ^ 63 = 1 then .negative else .positive := by
  have hbit : (unpackSign b).toNat = b.toNat / 2 ^ 63 := by
    have hlt : b.toNat < 2 ^ 64 := b.isLt
    rw [unpackSign, BitVec.toNat_cast, BitVec.extractLsb_toNat, Nat.shiftRight_eq_div_pow]
    show b.toNat / 2 ^ 63 % 2 ^ 1 = b.toNat / 2 ^ 63
    omega
  have hor : unpackSign b = 0#1 ∨ unpackSign b = 1#1 := by
    generalize unpackSign b = s
    revert s
    decide
  rw [← hbit]
  rcases hor with h | h <;> rw [h] <;> rfl

/-- What is behind some bits whose exponent is not the largest one. -/
theorem unpack_eq_fields (hb : b.toNat / 2 ^ 52 % 2 ^ 11 ≠ 2047) :
    UnpackedFloat.unpack Format.binary64 b =
      if h : significandField b.toNat = 0 then .zero (Sign.ofBitVec (unpackSign b))
      else .finite (Sign.ofBitVec (unpackSign b)) (significandField b.toNat)
        (exponentField b.toNat) (Nat.pos_of_ne_zero h) := by
  have hexponent := toNat_unpackExponent b
  have hmantissa := toNat_unpackMantissa b
  have hzero : unpackExponent b = 0#11 →
      significandField b.toNat = (unpackMantissa b).toNat ∧ exponentField b.toNat = -1074 := by
    intro h
    have hnone : (unpackExponent b).toNat = 0 := congrArg BitVec.toNat h
    rw [hexponent] at hnone
    rw [significandField, exponentField, if_pos hnone, if_pos hnone, hmantissa]
    exact ⟨rfl, rfl⟩
  have hnormal : unpackExponent b ≠ 0#11 →
      significandField b.toNat = 2 ^ 52 + (unpackMantissa b).toNat ∧
      exponentField b.toNat = (unpackExponent b).toNat - 1075 := by
    intro h
    have hsome : (unpackExponent b).toNat ≠ 0 := fun hz => h (BitVec.eq_of_toNat_eq hz)
    rw [hexponent] at hsome
    rw [significandField, exponentField, if_neg hsome, if_neg hsome, hmantissa, hexponent]
    exact ⟨rfl, rfl⟩
  fun_cases UnpackedFloat.unpack Format.binary64 b with
  | case1 mantissa exponent _ _ hones =>
    have hmax : (unpackExponent b).toNat = 2047 := congrArg BitVec.toNat hones
    omega
  | case2 mantissa exponent hones =>
    have hmax : (unpackExponent b).toNat = 2047 := congrArg BitVec.toNat hones
    omega
  | case3 mantissa exponent _ _ _ hexp hnone =>
    rw [dif_pos]
    rw [(hzero hexp).1]
    exact congrArg BitVec.toNat hnone
  | case4 mantissa exponent e _ sign _ hexp hsome =>
    obtain ⟨hm, he⟩ := hzero hexp
    have hpos : (unpackMantissa b).toNat ≠ 0 := fun hz => hsome (BitVec.eq_of_toNat_eq hz)
    have hleast : e + 1 = -1074 := by
      have hnone : exponent.toNat = 0 := congrArg BitVec.toNat hexp
      show (exponent.toNat : ℤ) - 1075 + 1 = -1074
      rw [hnone]
      rfl
    simp only [hm, he, dif_neg hpos, hleast]
    rfl
  | case5 mantissa exponent e _ sign hones hexp =>
    obtain ⟨hm, he⟩ := hnormal hexp
    have hleading : (1#1 ++ mantissa).toNat = 2 ^ 52 + (unpackMantissa b).toNat :=
      toNat_one_append mantissa
    have hpos : 2 ^ 52 + (unpackMantissa b).toNat ≠ 0 := by positivity
    simp only [hm, he, dif_neg hpos, hleading]
    rfl

theorem ne_max_of_isFinite (h : (UnpackedFloat.unpack Format.binary64 b).isFinite = true) :
    b.toNat / 2 ^ 52 % 2 ^ 11 ≠ 2047 := by
  rw [← toNat_unpackExponent]
  intro hmax
  have hones : unpackExponent b = -1#11 := BitVec.eq_of_toNat_eq hmax
  revert h
  fun_cases UnpackedFloat.unpack Format.binary64 b with
  | case1 => exact fun h => Bool.false_ne_true h
  | case2 => exact fun h => Bool.false_ne_true h
  | case3 _ _ _ _ hother => exact absurd hones hother
  | case4 _ _ _ _ _ hother => exact absurd hones hother
  | case5 _ _ _ _ _ hother => exact absurd hones hother

end Fields

def Parts.sign (d : Parts) : Sign := if d.negative then .negative else .positive

section Parts

variable {x y : Float}

theorem parts_canonical (x : Float) : (parts x).significand < 2 ^ 53 ∧ -1074 ≤ (parts x).exponent ∧
    ((parts x).exponent = -1074 ∨ 2 ^ 52 ≤ (parts x).significand) :=
  fields_canonical x.toBits.toNat

theorem toNat_toBits (x : Float) : (x.toBits.toNat : ℤ) =
    (if (parts x).negative then 2 ^ 63 else 0) + ((parts x).exponent + 1074) * 2 ^ 52 +
      (parts x).significand := by
  have hfields := eq_fields x.toBits.toNat_lt
  simp only [parts, Nat.pow_eq, beq_iff_eq]
  exact hfields

/-- No two doubles have the same parts. -/
theorem eq_of_parts (hsign : (parts x).negative = (parts y).negative)
    (hsignificand : (parts x).significand = (parts y).significand)
    (hexponent : (parts x).exponent = (parts y).exponent) : x = y := by
  have hsame : x.toBits.toNat = y.toBits.toNat := by
    have hx := toNat_toBits x
    rw [hsign, hsignificand, hexponent, ← toNat_toBits y] at hx
    exact_mod_cast hx
  exact Float.toBits_inj.1 (UInt64.toNat_inj.1 hsame)

/-- What is behind the bits of a finite double. -/
theorem unpack_eq_parts (hx : x.isFinite = true) :
    x.toModel.unpack = if h : (parts x).significand = 0 then .zero (parts x).sign
      else .finite (parts x).sign (parts x).significand (parts x).exponent
        (Nat.pos_of_ne_zero h) := by
  obtain ⟨b, hb⟩ : ∃ b : BitVec Format.binary64.numBits, b = x.toBits.toBitVec := ⟨_, rfl⟩
  have hsign : (parts x).sign = Sign.ofBitVec (unpackSign b) := by
    rw [ofBitVec_unpackSign, hb, Parts.sign, parts]
    simp only [Nat.pow_eq, beq_iff_eq]
    rfl
  have hunpack : x.toModel.unpack = UnpackedFloat.unpack Format.binary64 b := by rw [hb]; rfl
  change x.toModel.unpack.isFinite = true at hx
  rw [hunpack] at hx
  rw [hunpack, hsign, unpack_eq_fields b (ne_max_of_isFinite b hx), hb]
  rfl

theorem value_eq_parts (hx : x.isFinite = true) :
    value x = signed (parts x).sign ((parts x).significand * 2 ^ (parts x).exponent) := by
  rw [value, unpack_eq_parts hx]
  split
  · rename_i h
    rw [h]
    cases (parts x).sign <;> simp [real, signed]
  · rfl

theorem negative_iff_of_ne_zero (hx : x.isFinite = true) (hne : value x ≠ 0) :
    (parts x).negative = true ↔ value x < 0 := by
  have hvalue := value_eq_parts hx
  have hmag : (0 : ℝ) ≤ (parts x).significand * 2 ^ (parts x).exponent := by positivity
  unfold Parts.sign at hvalue
  cases hsign : (parts x).negative with
  | true =>
    rw [hsign] at hvalue
    simp only [if_true, signed] at hvalue
    refine iff_of_true rfl (lt_of_le_of_ne ?_ hne)
    linarith
  | false =>
    rw [hsign] at hvalue
    simp only [Bool.false_eq_true, if_false, signed] at hvalue
    refine iff_of_false Bool.false_ne_true ?_
    linarith

/-- No two doubles have the same value, apart from the two zeros. -/
theorem eq_of_value (hx : x.isFinite = true) (hy : y.isFinite = true) (hne : value x ≠ 0)
    (h : value y = value x) : y = x := by
  have hmag : ((parts y).significand : ℝ) * 2 ^ (parts y).exponent =
      (parts x).significand * 2 ^ (parts x).exponent := by
    have habs := congrArg (|·|) h
    simp only [value_eq_parts hx, value_eq_parts hy, abs_signed] at habs
    rwa [abs_of_nonneg (by positivity), abs_of_nonneg (by positivity)] at habs
  have hle := (mul_zpow_le_iff (parts_canonical y) (parts_canonical x)).1 hmag.le
  have hge := (mul_zpow_le_iff (parts_canonical x) (parts_canonical y)).1 hmag.ge
  have hsignificand : (parts y).significand = (parts x).significand := by omega
  have hexponent : (parts y).exponent = (parts x).exponent := by omega
  have hsign : (parts y).negative = (parts x).negative := by
    have hiff := negative_iff_of_ne_zero hy (h ▸ hne)
    rw [h, ← negative_iff_of_ne_zero hx hne] at hiff
    exact Bool.eq_iff_iff.2 hiff
  exact eq_of_parts hsign hsignificand hexponent

end Parts

end LedgerWatch.Binary64
