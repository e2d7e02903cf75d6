import LedgerWatch.Proofs.Number.Order
import LedgerWatch.Proofs.Number.Packing

namespace LedgerWatch.Binary64

open Float.Model
open Float.Model.UnpackedFloat

/-- The value of a double; infinities and what is no number count as zero. -/
noncomputable def value (x : Float) : ℝ := real x.toModel.unpack

theorem limit_pos : 0 < limit := two_zpow_pos 1024

theorem two_zpow_lt_limit {e : ℤ} (h : e < 1024) : (2 : ℝ) ^ e < limit :=
  zpow_lt_zpow_right₀ one_lt_two h

/-- The outcome of an operation whose exact result is `q`. -/
inductive Rounds (q : ℝ) (z : Float) : Prop
  | finite (isFinite : z.isFinite = true) (nearest : Nearest q (value z))
  | infinite (s : Sign) (r : ℝ) (unpacked : z.toModel.unpack = .infinity s)
      (large : limit ≤ r) (nearest : Nearest q (signed s r))

section Finite

variable {x : Float}

theorem isCanonical_of_isFinite (hx : x.isFinite = true) : IsCanonical x.toModel.unpack :=
  (isCanonical_unpack _ hx).1

theorem fits_of_isFinite (hx : x.isFinite = true) : Fits x.toModel.unpack :=
  (isCanonical_unpack _ hx).2

theorem representable_value (hx : x.isFinite = true) : Representable (value x) :=
  (isCanonical_of_isFinite hx).representable

theorem abs_value_lt (x : Float) : |value x| < limit := by
  cases hu : x.toModel.unpack with
  | finite s m e hm =>
    have hfinite : x.isFinite = true := by
      show x.toModel.unpack.isFinite = true
      rw [hu]
      rfl
    have hc := isCanonical_of_isFinite hfinite
    have hfits := fits_of_isFinite hfinite
    rw [hu] at hc hfits
    have hm' : (m : ℝ) < 2 ^ 53 := by exact_mod_cast hc.1
    have he : (2 : ℝ) ^ e ≤ 2 ^ (971 : ℤ) := two_zpow_le_of_le hfits
    rw [value, hu, real, abs_signed, abs_of_nonneg (by positivity)]
    calc (m : ℝ) * 2 ^ e ≤ m * 2 ^ (971 : ℤ) := mul_le_mul_of_nonneg_left he (by positivity)
      _ < 2 ^ 53 * 2 ^ (971 : ℤ) := mul_lt_mul_of_pos_right hm' (two_zpow_pos 971)
      _ = limit := by rw [limit, ← zpow_natCast, ← zpow_add₀ two_ne_zero]; norm_num
  | _ => simpa [value, hu, real] using limit_pos

theorem not_isNaN_of_isFinite (hx : x.isFinite = true) : x.isNaN = false := by
  change x.toModel.unpack.isFinite = true at hx
  show x.toModel.unpack.isNaN = false
  cases hu : x.toModel.unpack <;> rw [hu] at hx
  · rfl
  · cases hx
  · rfl
  · rfl

end Finite

section Operations

variable {x y z : Float} {q : ℝ}

theorem rounds_of_isRounded {u : UnpackedFloat} (h : IsRounded q u)
    (hz : z.toModel.unpack = stored u) : Rounds q z := by
  have hfinite : stored u = u → Rounds q z := by
    intro hsame
    rw [hsame] at hz
    refine .finite ?_ ?_
    · show z.toModel.unpack.isFinite = true
      have hc := h.canonical
      rw [hz]
      cases u with
      | zero | finite => rfl
      | _ => exact hc.elim
    · rw [value, hz]
      exact h.nearest
  cases u with
  | notANumber => exact h.canonical.elim
  | infinity s => exact h.canonical.elim
  | zero s => exact hfinite (stored_zero s)
  | finite s m e hm =>
    rcases le_or_gt e 971 with hle | hgt
    · exact hfinite (stored_of_fits hm h.canonical hle)
    · rw [stored_of_large hm hgt] at hz
      refine .infinite s (m * 2 ^ e) hz ?_ h.nearest
      have hm' : (2 : ℝ) ^ 52 ≤ m := by
        exact_mod_cast h.canonical.2.2.resolve_left (by omega)
      have he : (2 : ℝ) ^ (972 : ℤ) ≤ 2 ^ e := two_zpow_le_of_le (by omega)
      have hsplit : limit = 2 ^ 52 * 2 ^ (972 : ℤ) := by
        rw [limit, ← zpow_natCast, ← zpow_add₀ two_ne_zero]
        norm_num
      rw [hsplit]
      exact mul_le_mul hm' he (two_zpow_pos 972).le (by positivity)

theorem rounds_add (hx : x.isFinite = true) (hy : y.isFinite = true) :
    Rounds (value x + value y) (x + y) :=
  rounds_of_isRounded (isRounded_add (isCanonical_of_isFinite hx) (isCanonical_of_isFinite hy)) rfl

theorem rounds_sub (hx : x.isFinite = true) (hy : y.isFinite = true) :
    Rounds (value x - value y) (x - y) :=
  rounds_of_isRounded (isRounded_sub (isCanonical_of_isFinite hx) (isCanonical_of_isFinite hy)) rfl

theorem rounds_mul (hx : x.isFinite = true) (hy : y.isFinite = true) :
    Rounds (value x * value y) (x * y) :=
  rounds_of_isRounded (isRounded_mul (isCanonical_of_isFinite hx) (isCanonical_of_isFinite hy)) rfl

theorem rounds_div (hx : x.isFinite = true) (hy : y.isFinite = true) (hne : value y ≠ 0) :
    Rounds (value x / value y) (x / y) :=
  rounds_of_isRounded
    (isRounded_div (isCanonical_of_isFinite hx) (isCanonical_of_isFinite hy) hne) rfl

theorem rounds_sqrt (hx : x.isFinite = true) (hpos : 0 ≤ value x) :
    Rounds (Real.sqrt (value x)) x.sqrt :=
  rounds_of_isRounded (isRounded_sqrt (isCanonical_of_isFinite hx) hpos) rfl

end Operations

section Signs

variable (x : Float)

/-- A sign does not matter to what is stored. -/
theorem stored_finite {s : Sign} {m : ℕ} {e : ℤ} {hm : 0 < m}
    (hu : x.toModel.unpack = .finite s m e hm) (s' : Sign) :
    stored (.finite s' m e hm) = .finite s' m e hm := by
  have hx : x.isFinite = true := by
    show x.toModel.unpack.isFinite = true
    rw [hu]
    rfl
  have hc := isCanonical_of_isFinite hx
  have hfits := fits_of_isFinite hx
  rw [hu] at hc hfits
  exact stored_of_fits hm hc hfits

theorem unpack_neg : (-x).toModel.unpack = x.toModel.unpack.neg := by
  show stored x.toModel.unpack.neg = x.toModel.unpack.neg
  cases hu : x.toModel.unpack with
  | notANumber => rfl
  | infinity s => exact stored_infinity (-s)
  | zero s => exact stored_zero (-s)
  | finite s m e hm => exact stored_finite x hu (-s)

theorem unpack_abs : x.abs.toModel.unpack = x.toModel.unpack.abs := by
  show stored x.toModel.unpack.abs = x.toModel.unpack.abs
  cases hu : x.toModel.unpack with
  | notANumber => rfl
  | infinity s => exact stored_infinity .positive
  | zero s => exact stored_zero .positive
  | finite s m e hm => exact stored_finite x hu .positive

theorem value_neg : value (-x) = -value x := by
  rw [value, unpack_neg, real_neg]
  rfl

theorem value_abs : value x.abs = |value x| := by
  rw [value, unpack_abs, real_abs]
  rfl

theorem isFinite_neg : (-x).isFinite = x.isFinite := by
  show (-x).toModel.unpack.isFinite = x.toModel.unpack.isFinite
  rw [unpack_neg]
  cases x.toModel.unpack <;> rfl

theorem isFinite_abs : x.abs.isFinite = x.isFinite := by
  show x.abs.toModel.unpack.isFinite = x.toModel.unpack.isFinite
  rw [unpack_abs]
  cases x.toModel.unpack <;> rfl

end Signs

namespace Rounds

variable {z : Float} {q B : ℝ}

theorem nearest_of_isFinite (h : Rounds q z) (hz : z.isFinite = true) : Nearest q (value z) := by
  cases h with
  | finite _ hnearest => exact hnearest
  | infinite s r hunpack _ _ =>
    change z.toModel.unpack.isFinite = true at hz
    rw [hunpack] at hz
    cases hz

/-- A result that is a double is exact. -/
theorem eq_of_representable (h : Rounds q z) (hq : Representable q) (hlt : |q| < limit) :
    z.isFinite = true ∧ value z = q := by
  cases h with
  | finite hfinite hnearest => exact ⟨hfinite, hnearest.eq_self hq⟩
  | infinite s r _ hlarge hnearest =>
    rw [← hnearest.eq_self hq, abs_signed] at hlt
    linarith [le_abs_self r]

/-- Below a bound that is a double the result is finite, and it keeps the bound. -/
theorem isFinite_of_abs_le (h : Rounds q z) (hB : Representable B) (hlt : B < limit)
    (hq : |q| ≤ B) : z.isFinite = true ∧ |value z| ≤ B := by
  cases h with
  | finite hfinite hnearest => exact ⟨hfinite, hnearest.abs_le_of_abs_le hB hq⟩
  | infinite s r _ hlarge hnearest =>
    have hle := hnearest.abs_le_of_abs_le hB hq
    rw [abs_signed] at hle
    linarith [le_abs_self r]

theorem nonneg (h : Rounds q z) (hq : 0 ≤ q) (hz : z.isFinite = true) : 0 ≤ value z :=
  (h.nearest_of_isFinite hz).nonneg hq

/-- An infinite result has the sign of the exact one. -/
theorem eq_infinity_of_nonneg (h : Rounds q z) (hq : 0 ≤ q) (hz : z.isFinite = false) :
    z.toModel.unpack = .infinity .positive := by
  cases h with
  | finite hfinite _ =>
    rw [hfinite] at hz
    cases hz
  | infinite s r hunpack hlarge hnearest =>
    cases s with
    | positive => exact hunpack
    | negative =>
      have hnonneg := hnearest.nonneg hq
      simp only [signed] at hnonneg
      linarith [limit_pos]

end Rounds

section Whole

theorem isFinite_one : (1 : Float).isFinite = true := rfl

theorem value_zero : value 0 = 0 := rfl

theorem value_one : value 1 = 1 := by
  have hunpack : (1 : Float).toModel.unpack = .finite .positive (2 ^ 52) (-52) (by decide) := rfl
  rw [value, hunpack]
  norm_num [real, signed]

theorem abs_natCast_lt_limit {n : ℕ} (hn : n ≤ 2 ^ 53) : |(n : ℝ)| < limit := by
  have hcast : (n : ℝ) ≤ 2 ^ (53 : ℤ) := by exact_mod_cast hn
  rw [Nat.abs_cast]
  exact hcast.trans_lt (two_zpow_lt_limit (by norm_num))

theorem representable_natCast {n : ℕ} (hn : n ≤ 2 ^ 53) : Representable (n : ℝ) := by
  have habs : |(n : ℤ)| ≤ 2 ^ 53 := by
    rw [Nat.abs_cast]
    exact_mod_cast hn
  simpa using representable_intCast habs

theorem rounds_toFloat (n : UInt64) : Rounds n.toNat n.toFloat :=
  rounds_of_isRounded (isRounded_ofNat n.toNat) rfl

theorem rounds_ofNat (n : ℕ) : Rounds n (Float.ofNat n) := by
  show Rounds n (Float.ofScientific n false 0)
  unfold Float.ofScientific
  split
  · -- a number of up to 53 digits is taken over as a word, and multiplied by one
    rename_i h
    have hword : n.toUInt64.toNat = n := by
      show n % 2 ^ 64 = n
      omega
    have hround := rounds_toFloat n.toUInt64
    rw [hword] at hround
    obtain ⟨hfinite, hvalue⟩ := hround.eq_of_representable (representable_natCast h.1.le)
      (abs_natCast_lt_limit h.1.le)
    have hmul := rounds_mul hfinite isFinite_one
    rw [hvalue, value_one, mul_one] at hmul
    exact hmul
  · rename_i h
    have hn : n ≠ 0 := by
      rintro rfl
      exact h ⟨by decide, by decide⟩
    have hround := isRounded_ofScientific (e := 0) (Nat.pos_of_ne_zero hn) (by omega) (by norm_num)
    rw [zpow_zero, mul_one] at hround
    exact rounds_of_isRounded hround rfl

end Whole

end LedgerWatch.Binary64
