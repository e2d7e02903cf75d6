import LedgerWatch.Proofs.Number.Nearest

namespace LedgerWatch.Binary64

open Float.Model
open Float.Model.UnpackedFloat

namespace Holds

variable {em : ExtendedMantissa} {y : ℝ}

theorem bounds (h : Holds em y) : (em.mantissa : ℝ) ≤ y ∧ y < em.mantissa + 1 := by
  obtain ⟨m, round, sticky⟩ := em
  cases round <;> cases sticky <;> simp only [Holds] at h ⊢ <;> constructor <;> linarith

theorem shiftRightOne (h : Holds em y) : Holds em.shiftRightOne (y / 2) := by
  obtain ⟨m, round, sticky⟩ := em
  -- the last digit of the significand becomes the first of the two bits
  have hsplit : (m : ℝ) = 2 * ((m / 2 : ℕ) : ℝ) + ((m % 2 : ℕ) : ℝ) := by
    exact_mod_cast (Nat.div_add_mod m 2).symm
  have hparity : m % 2 = 0 ∨ m % 2 = 1 := Nat.mod_two_eq_zero_or_one m
  rcases hparity with hm | hm <;> rw [hm] at hsplit <;> cases round <;> cases sticky <;>
    simp [Holds, ExtendedMantissa.shiftRightOne, hm] at h hsplit ⊢ <;>
    first
      | linarith
      | (constructor <;> linarith)

theorem shiftRight (h : Holds em y) (n : ℕ) : Holds (em >>> n) (y / 2 ^ n) := by
  show Holds (n.repeat ExtendedMantissa.shiftRightOne em) (y / 2 ^ n)
  induction n with
  | zero => simpa [Nat.repeat] using h
  | succ n ih =>
    rw [Nat.repeat, pow_succ, ← div_div]
    exact ih.shiftRightOne

theorem abs_sub_le (h : Holds em y) : |(em.roundedMantissa : ℝ) - y| ≤ 1 / 2 := by
  obtain ⟨m, round, sticky⟩ := em
  rw [abs_le]
  cases round <;> cases sticky <;>
    simp only [Holds, ExtendedMantissa.roundedMantissa, ExtendedMantissa.accuracy,
      Accuracy.roundToNearestEven] at h ⊢
  · constructor <;> linarith
  · constructor <;> linarith
  · have hparity : m % 2 = 0 ∨ m % 2 = 1 := Nat.mod_two_eq_zero_or_one m
    rcases hparity with hm | hm <;> rw [hm] <;> push_cast <;> constructor <;> linarith
  · push_cast
    constructor <;> linarith

theorem even_of_tie (h : Holds em y) (htie : |(em.roundedMantissa : ℝ) - y| = 1 / 2) :
    em.roundedMantissa % 2 = 0 := by
  obtain ⟨m, round, sticky⟩ := em
  cases round <;> cases sticky <;>
    simp only [Holds, ExtendedMantissa.roundedMantissa, ExtendedMantissa.accuracy,
      Accuracy.roundToNearestEven] at h htie ⊢
  · rw [h, sub_self, abs_zero] at htie
    norm_num at htie
  · rw [abs_of_neg (by linarith)] at htie
    linarith
  · omega
  · push_cast at htie
    rw [abs_of_pos (by linarith)] at htie
    linarith

end Holds

theorem mantissa_shiftRight (em : ExtendedMantissa) (n : ℕ) :
    (em >>> n).mantissa = em.mantissa / 2 ^ n := by
  show (n.repeat ExtendedMantissa.shiftRightOne em).mantissa = em.mantissa / 2 ^ n
  induction n with
  | zero => simp [Nat.repeat]
  | succ n ih =>
    rw [Nat.repeat, pow_succ, ← Nat.div_div_eq_div_mul, ← ih]
    rfl

theorem roundedMantissa_le (em : ExtendedMantissa) : em.roundedMantissa ≤ em.mantissa + 1 := by
  obtain ⟨m, round, sticky⟩ := em
  cases round <;> cases sticky <;>
    simp only [ExtendedMantissa.roundedMantissa, ExtendedMantissa.accuracy,
      Accuracy.roundToNearestEven] <;> omega

theorem le_roundedMantissa (em : ExtendedMantissa) : em.mantissa ≤ em.roundedMantissa := by
  obtain ⟨m, round, sticky⟩ := em
  cases round <;> cases sticky <;>
    simp only [ExtendedMantissa.roundedMantissa, ExtendedMantissa.accuracy,
      Accuracy.roundToNearestEven] <;> omega

section Grid

variable {x v : ℝ} {t : ℤ} {r : ℕ}

theorem abs_mul_zpow_sub (a x : ℝ) (t : ℤ) : |a * 2 ^ t - x| = |a - x / 2 ^ t| * 2 ^ t := by
  have hpos := two_zpow_pos t
  rw [← abs_of_pos hpos, ← abs_mul, abs_of_pos hpos, sub_mul, div_mul_cancel₀ _ hpos.ne']

/-- Two different whole numbers are not both close to one number. -/
theorem one_le_abs_sub_add {y : ℝ} {j : ℤ} (hne : j ≠ r) : 1 ≤ |(j : ℝ) - y| + |(r : ℝ) - y| := by
  have hapart : (1 : ℝ) ≤ |(j : ℝ) - r| := by
    exact_mod_cast Int.one_le_abs (sub_ne_zero.2 hne)
  calc (1 : ℝ) ≤ |(j : ℝ) - r| := hapart
    _ ≤ |(j : ℝ) - y| + |y - r| := abs_sub_le _ _ _
    _ = |(j : ℝ) - y| + |(r : ℝ) - y| := by rw [abs_sub_comm y]

/-- A double off the grid lies below all that is rounded on the grid. -/
theorem Representable.on_grid_or_below (hv : Representable v) (t : ℤ) :
    (∃ j : ℤ, v = j * 2 ^ t) ∨ -1074 < t ∧ |v| < 2 ^ 52 * 2 ^ t := by
  obtain ⟨k, e, hk, he, rfl⟩ := hv
  rcases le_or_gt t e with hle | hlt
  · exact .inl (exists_mul_zpow_of_le k hle)
  · refine .inr ⟨by omega, ?_⟩
    have hk' : ((|k| : ℤ) : ℝ) < 2 ^ 53 := by exact_mod_cast hk
    have hhalf : (2 : ℝ) * 2 ^ e ≤ 2 ^ t := by
      rw [← zpow_one_add₀ two_ne_zero]
      exact two_zpow_le_of_le (by omega)
    rw [abs_intCast_mul_zpow]
    nlinarith [two_zpow_pos e]

theorem coarse_of_even (ht : -1074 ≤ t) (hr : r ≤ 2 ^ 53) (heven : r % 2 = 0) :
    Coarse (r * 2 ^ t) := by
  obtain ⟨s, rfl⟩ : ∃ s, r = 2 * s := ⟨r / 2, by omega⟩
  refine ⟨s, t + 1, ?_, by omega, ?_⟩
  · rw [Nat.abs_cast]
    norm_cast
    omega
  · rw [zpow_add₀ two_ne_zero]
    push_cast
    ring

/-- The nearest whole multiple is the nearest double, where all that lies between the multiples is
too small. -/
theorem nearest_of_grid (ht : -1074 ≤ t) (hr : r ≤ 2 ^ 53) (hnear : |(r : ℝ) - x / 2 ^ t| ≤ 1 / 2)
    (heven : |(r : ℝ) - x / 2 ^ t| = 1 / 2 → r % 2 = 0)
    (hlarge : t = -1074 ∨ 2 ^ 52 ≤ x / 2 ^ t) : Nearest x (r * 2 ^ t) := by
  have hpos := two_zpow_pos t
  have hrep : Representable ((r : ℝ) * 2 ^ t) := by
    have habs : |(r : ℤ)| ≤ 2 ^ 53 := by
      rw [Nat.abs_cast]
      exact_mod_cast hr
    simpa using representable_of_abs_le habs ht
  -- a double off the grid is farther away than the multiple that is just above all of them
  have hoff : ∀ v : ℝ, -1074 < t → |v| < 2 ^ 52 * 2 ^ t → |r * 2 ^ t - x| < |v - x| := by
    intro v hlt hv
    have hx : (2 : ℝ) ^ 52 ≤ x / 2 ^ t := hlarge.resolve_left (by omega)
    have hv' : v / 2 ^ t < 2 ^ 52 := (div_lt_iff₀ hpos).2 ((le_abs_self v).trans_lt hv)
    have hbelow : |v - x| = |v / 2 ^ t - x / 2 ^ t| * 2 ^ t := by
      rw [← abs_mul_zpow_sub, div_mul_cancel₀ _ hpos.ne']
    rw [hbelow, abs_mul_zpow_sub]
    apply mul_lt_mul_of_pos_right _ hpos
    have hfar : |v / 2 ^ t - x / 2 ^ t| = x / 2 ^ t - v / 2 ^ t := by
      rw [abs_sub_comm, abs_of_pos (by linarith)]
    rw [hfar]
    rcases eq_or_ne (2 ^ 52 : ℤ) r with heq | hne
    · have hcast : (r : ℝ) = 2 ^ 52 := by exact_mod_cast heq.symm
      rw [hcast, abs_sub_comm, abs_of_nonneg (by linarith)]
      linarith
    · have hsum : 1 ≤ |(2 : ℝ) ^ 52 - x / 2 ^ t| + |(r : ℝ) - x / 2 ^ t| := by
        have hstep := one_le_abs_sub_add (y := x / 2 ^ t) hne
        rwa [Int.cast_pow, Int.cast_ofNat] at hstep
      rw [abs_sub_comm, abs_of_nonneg (by linarith)] at hsum
      linarith
  refine ⟨hrep, fun v hv => ?_, fun v hv htie => ?_⟩
  · rcases hv.on_grid_or_below t with ⟨j, rfl⟩ | ⟨hlt, hv'⟩
    · rw [abs_mul_zpow_sub, abs_mul_zpow_sub]
      apply mul_le_mul_of_nonneg_right _ hpos.le
      rcases eq_or_ne j r with rfl | hne
      · simp
      · linarith [one_le_abs_sub_add (y := x / 2 ^ t) hne]
    · exact (hoff v hlt hv').le
  · rcases hv.on_grid_or_below t with ⟨j, rfl⟩ | ⟨hlt, hv'⟩
    · rcases eq_or_ne j r with rfl | hne
      · exact .inl (by simp)
      · right
        rw [abs_mul_zpow_sub, abs_mul_zpow_sub] at htie
        have hsame := mul_right_cancel₀ hpos.ne' htie
        have hhalf : |(r : ℝ) - x / 2 ^ t| = 1 / 2 := by
          linarith [one_le_abs_sub_add (y := x / 2 ^ t) hne]
        exact coarse_of_even ht hr (heven hhalf)
    · exact absurd htie (hoff v hlt hv').ne'

end Grid

/-- A zero, or a significand and an exponent in the only form that is stored. -/
def IsCanonical : UnpackedFloat → Prop
  | .zero _ => True
  | .finite _ m e _ => m < 2 ^ 53 ∧ -1074 ≤ e ∧ (e = -1074 ∨ 2 ^ 52 ≤ m)
  | _ => False

/-- The result of rounding a real number, before its exponent is held against the upper end. -/
structure IsRounded (q : ℝ) (u : UnpackedFloat) : Prop where
  canonical : IsCanonical u
  nearest : Nearest q (real u)

section Unpacked

variable {s : Sign} {x v : ℝ} {m r : ℕ} {e t : ℤ} {acc : Accuracy}

theorem abs_signed (s : Sign) (x : ℝ) : |signed s x| = |x| := by
  cases s <;> simp [signed]

theorem Nearest.signed (h : Nearest x v) (s : Sign) :
    Nearest (Binary64.signed s x) (Binary64.signed s v) := by
  cases s with
  | negative => exact h.neg
  | positive => exact h

theorem targetExponent_eq (e : ℤ) :
    Format.binary64.targetExponent e = max (e - 53) (-1074) := rfl

theorem shiftToExponent_eq (m : ℕ) (acc : Accuracy) (h : e ≤ t) :
    shiftToExponent m e acc t =
      (ExtendedMantissa.ofMantissaAndAccuracy m acc >>> (t - e).toNat, t) := by
  simp only [shiftToExponent, Prod.mk.injEq, true_and]
  omega

/-- A significand of 53 digits, or of up to 53 at the lower end of the exponents, is not moved
any more; the one with 54 digits is a power of two and gives one of them up. -/
theorem shiftToTargetExponent_rounded (ht : -1074 ≤ t) (hr : r ≤ 2 ^ 53)
    (hfull : t = -1074 ∨ 2 ^ 52 ≤ r) :
    ∃ m' e', (shiftToTargetExponent Format.binary64 r t .exact).1.mantissa = m' ∧
      (shiftToTargetExponent Format.binary64 r t .exact).2 = e' ∧
      (m' : ℝ) * 2 ^ e' = r * 2 ^ t ∧ m' < 2 ^ 53 ∧ -1074 ≤ e' ∧ (e' = -1074 ∨ 2 ^ 52 ≤ m') := by
  rcases hr.lt_or_eq with hlt | rfl
  · refine ⟨r, t, ?_, ?_, rfl, hlt, ht, hfull⟩
    all_goals
      have hlog : r.log2 < 53 := by
        rcases Nat.eq_zero_or_pos r with rfl | hpos
        · simp
        · exact (Nat.log2_lt hpos.ne').2 hlt
      have hstay : (Format.binary64.targetExponent (totalExponent r t) - t).toNat = 0 := by
        rw [targetExponent_eq, totalExponent]
        omega
      simp [shiftToTargetExponent, shiftToExponent, hstay, mantissa_shiftRight,
        ExtendedMantissa.ofMantissaAndAccuracy]
  · have hnext : Format.binary64.targetExponent (totalExponent (2 ^ 53) t) = t + 1 := by
      rw [targetExponent_eq, totalExponent, Nat.log2_two_pow]
      omega
    refine ⟨2 ^ 52, t + 1, ?_, ?_, ?_, by norm_num, by omega, .inr le_rfl⟩
    · rw [shiftToTargetExponent, hnext, shiftToExponent_eq _ _ (by omega), mantissa_shiftRight]
      simp [ExtendedMantissa.ofMantissaAndAccuracy]
    · rw [shiftToTargetExponent, hnext, shiftToExponent_eq _ _ (by omega)]
    · rw [zpow_add₀ two_ne_zero]
      push_cast
      ring

theorem isCanonical_dite (s : Sign) (hm : m < 2 ^ 53) (he : -1074 ≤ e)
    (hfull : e = -1074 ∨ 2 ^ 52 ≤ m) :
    IsCanonical (if h : m = 0 then .zero s else .finite s m e (Nat.pos_of_ne_zero h)) ∧
      real (if h : m = 0 then .zero s else .finite s m e (Nat.pos_of_ne_zero h)) =
        signed s (m * 2 ^ e) := by
  split
  · rename_i h
    subst h
    exact ⟨trivial, by cases s <;> simp [real, signed]⟩
  · exact ⟨⟨hm, he, hfull⟩, rfl⟩

theorem lt_two_pow_of_log2 (h : m.log2 < 53 + r) : m / 2 ^ r < 2 ^ 53 := by
  rw [Nat.div_lt_iff_lt_mul (by positivity), ← pow_add]
  rcases Nat.eq_zero_or_pos m with rfl | hpos
  · positivity
  · exact (Nat.log2_lt hpos.ne').1 h

theorem two_pow_le_of_log2 (hm : m ≠ 0) (h : m.log2 = 52 + r) : 2 ^ 52 ≤ m / 2 ^ r := by
  rw [Nat.le_div_iff_mul_le (by positivity), ← pow_add, ← h]
  exact Nat.log2_self_le hm

/-- A significand with enough digits is rounded to the nearest double. -/
theorem isRounded_roundWithAccuracy (s : Sign)
    (hx : Holds (ExtendedMantissa.ofMantissaAndAccuracy m acc) (x / 2 ^ e))
    (he : e ≤ Format.binary64.targetExponent (totalExponent m e)) :
    IsRounded (signed s x) (roundWithAccuracy Format.binary64 s m e acc) := by
  obtain ⟨t, ht⟩ : ∃ t, t = Format.binary64.targetExponent (totalExponent m e) := ⟨_, rfl⟩
  rw [← ht] at he
  rw [targetExponent_eq, totalExponent] at ht
  obtain ⟨n, hn⟩ : ∃ n : ℕ, t = e + n := ⟨(t - e).toNat, by omega⟩
  set em := ExtendedMantissa.ofMantissaAndAccuracy m acc >>> n with hem
  have hstart : (ExtendedMantissa.ofMantissaAndAccuracy m acc).mantissa = m := by
    cases acc with
    | exact => rfl
    | inexact o => cases o <;> rfl
  have hmantissa : em.mantissa = m / 2 ^ n := by rw [hem, mantissa_shiftRight, hstart]
  have hfirst : shiftToTargetExponent Format.binary64 m e acc = (em, t) := by
    rw [shiftToTargetExponent, targetExponent_eq, totalExponent, ← ht, shiftToExponent_eq _ _ he,
      hem]
    congr 2
    omega
  have hholds : Holds em (x / 2 ^ t) := by
    have hshift := hx.shiftRight n
    rwa [div_div, ← zpow_natCast (2 : ℝ) n, ← zpow_add₀ two_ne_zero, ← hn] at hshift
  have hsmall : em.mantissa < 2 ^ 53 := by
    rw [hmantissa]
    exact lt_two_pow_of_log2 (by omega)
  have hlarge : t = -1074 ∨ 2 ^ 52 ≤ em.mantissa := by
    rcases eq_or_ne t (-1074) with hlow | hlow
    · exact .inl hlow
    · right
      rw [hmantissa]
      have hm : m ≠ 0 := by
        rintro rfl
        simp at ht
        omega
      exact two_pow_le_of_log2 hm (by omega)
  have hlower := le_roundedMantissa em
  have hupper := roundedMantissa_le em
  have hmin : -1074 ≤ t := by omega
  have hnearest : Nearest x (em.roundedMantissa * 2 ^ t) := by
    refine nearest_of_grid hmin (by omega) hholds.abs_sub_le hholds.even_of_tie ?_
    refine hlarge.imp_right fun h => ?_
    have hcast : ((2 ^ 52 : ℕ) : ℝ) ≤ em.mantissa := by exact_mod_cast h
    push_cast at hcast
    linarith [hholds.bounds.1]
  obtain ⟨m', e', hm', he', hvalue, hlt, hle, hfull⟩ := shiftToTargetExponent_rounded
    hmin (by omega : em.roundedMantissa ≤ 2 ^ 53) (hlarge.imp_right fun h => h.trans hlower)
  obtain ⟨hcanonical, hreal⟩ := isCanonical_dite s hlt hle hfull
  have hresult : roundWithAccuracy Format.binary64 s m e acc =
      if h : m' = 0 then .zero s else .finite s m' e' (Nat.pos_of_ne_zero h) := by
    simp only [roundWithAccuracy, hfirst, hm', he']
  rw [hresult]
  refine ⟨hcanonical, ?_⟩
  rw [hreal, hvalue]
  exact hnearest.signed s

end Unpacked

end LedgerWatch.Binary64
