import Mathlib

namespace LedgerWatch.Binary64

open Float.Model
open Float.Model.UnpackedFloat

/-- Up to 53 binary digits in front of a power of two that is not too small. -/
def Representable (v : ℝ) : Prop :=
  ∃ k e : ℤ, |k| < 2 ^ 53 ∧ -1074 ≤ e ∧ v = k * 2 ^ e

/-- A double with an even last digit. -/
def Coarse (v : ℝ) : Prop :=
  ∃ k e : ℤ, |k| ≤ 2 ^ 52 ∧ -1073 ≤ e ∧ v = k * 2 ^ e

/-- The double `r` nearest to `q`; of two that are equally near, the one with an even last digit. -/
structure Nearest (q r : ℝ) : Prop where
  representable : Representable r
  le : ∀ v, Representable v → |r - q| ≤ |v - q|
  coarse_of_tie : ∀ v, Representable v → |v - q| = |r - q| → v = r ∨ Coarse r

/-- The power of two behind the largest double. -/
noncomputable def limit : ℝ := 2 ^ (1024 : ℤ)

/-- A number with a sign put in front. -/
def signed (s : Sign) (x : ℝ) : ℝ :=
  match s with
  | .negative => -x
  | .positive => x

/-- The value of a number; what has none counts as zero. -/
noncomputable def real : UnpackedFloat → ℝ
  | .finite s m e _ => signed s (m * 2 ^ e)
  | _ => 0

/-- The numbers that a significand and its two bits may stand for. -/
def Holds (em : ExtendedMantissa) (y : ℝ) : Prop :=
  match em.roundBit, em.stickyBit with
  | false, false => y = em.mantissa
  | false, true => em.mantissa < y ∧ y < em.mantissa + 1 / 2
  | true, false => y = em.mantissa + 1 / 2
  | true, true => em.mantissa + 1 / 2 < y ∧ y < em.mantissa + 1

section Representable

variable {v : ℝ} {k e t : ℤ}

theorem two_zpow_pos (e : ℤ) : (0 : ℝ) < 2 ^ e := by positivity

theorem two_zpow_le_of_le (h : e ≤ t) : (2 : ℝ) ^ e ≤ 2 ^ t :=
  zpow_le_zpow_right₀ one_le_two h

theorem exists_mul_zpow_of_le (k : ℤ) (h : t ≤ e) : ∃ j : ℤ, (k : ℝ) * 2 ^ e = j * 2 ^ t := by
  refine ⟨k * 2 ^ (e - t).toNat, ?_⟩
  have hsplit : (2 : ℝ) ^ e = 2 ^ (e - t).toNat * 2 ^ t := by
    rw [← zpow_natCast, ← zpow_add₀ two_ne_zero]
    congr 1
    omega
  rw [hsplit]
  push_cast
  ring

theorem Representable.neg (h : Representable v) : Representable (-v) := by
  obtain ⟨k, e, hk, he, rfl⟩ := h
  exact ⟨-k, e, by rwa [abs_neg], he, by push_cast; ring⟩

theorem Representable.abs (h : Representable v) : Representable |v| := by
  rcases abs_choice v with hv | hv <;> rw [hv]
  · exact h
  · exact h.neg

theorem Coarse.neg (h : Coarse v) : Coarse (-v) := by
  obtain ⟨k, e, hk, he, rfl⟩ := h
  exact ⟨-k, e, by rwa [abs_neg], he, by push_cast; ring⟩

theorem mul_two_zpow_succ (k e : ℤ) : 2 * ((k : ℝ) * 2 ^ e) = k * 2 ^ (e + 1) := by
  rw [zpow_add_one₀ two_ne_zero]
  ring

theorem Representable.two_mul (h : Representable v) : Representable (2 * v) := by
  obtain ⟨k, e, hk, he, rfl⟩ := h
  exact ⟨k, e + 1, hk, by omega, mul_two_zpow_succ k e⟩

theorem Coarse.two_mul (h : Coarse v) : Coarse (2 * v) := by
  obtain ⟨k, e, hk, he, rfl⟩ := h
  exact ⟨k, e + 1, hk, by omega, mul_two_zpow_succ k e⟩

/-- Half of a double is a double, unless it is among the smallest ones. -/
theorem Representable.half_or_lt (h : Representable v) : Representable (v / 2) ∨ v < 1 := by
  obtain ⟨k, e, hk, he, rfl⟩ := h
  rcases he.eq_or_lt with rfl | hlt
  · right
    have hk' : (k : ℝ) < 2 ^ (53 : ℤ) := by exact_mod_cast (abs_lt.1 hk).2
    calc (k : ℝ) * 2 ^ (-1074 : ℤ) < 2 ^ (53 : ℤ) * 2 ^ (-1074 : ℤ) :=
          mul_lt_mul_of_pos_right hk' (two_zpow_pos _)
      _ = 2 ^ (-1021 : ℤ) := by rw [← zpow_add₀ two_ne_zero]; norm_num
      _ ≤ 2 ^ (0 : ℤ) := two_zpow_le_of_le (by norm_num)
      _ = 1 := zpow_zero 2
  · left
    refine ⟨k, e - 1, hk, by omega, ?_⟩
    rw [div_eq_iff two_ne_zero, mul_comm _ (2 : ℝ), mul_two_zpow_succ, sub_add_cancel]

/-- A power of two in front of another one gives up a digit to it. -/
theorem exists_abs_lt_of_abs_le {b : ℕ} (hk : |k| ≤ 2 ^ (b + 1)) :
    ∃ j t : ℤ, |j| < 2 ^ (b + 1) ∧ e ≤ t ∧ (k : ℝ) * 2 ^ e = j * 2 ^ t := by
  rcases hk.lt_or_eq with hlt | heq
  · exact ⟨k, e, hlt, le_rfl, rfl⟩
  · obtain ⟨j, hj, hhalf⟩ : ∃ j : ℤ, |j| = 2 ^ b ∧ k = 2 * j := by
      rcases abs_eq (by positivity) |>.1 heq with rfl | rfl
      · exact ⟨2 ^ b, abs_of_nonneg (by positivity), pow_succ' 2 b⟩
      · exact ⟨-2 ^ b, by rw [abs_neg, abs_of_nonneg (by positivity)], by rw [pow_succ']; ring⟩
    refine ⟨j, e + 1, ?_, by omega, ?_⟩
    · rw [hj]
      exact pow_lt_pow_right₀ one_lt_two (Nat.lt_succ_self b)
    · rw [hhalf, zpow_add₀ two_ne_zero]
      push_cast
      ring

/-- One more digit is no harm in a power of two. -/
theorem representable_of_abs_le (hk : |k| ≤ 2 ^ 53) (he : -1074 ≤ e) :
    Representable (k * 2 ^ e) := by
  obtain ⟨j, t, hj, ht, heq⟩ := exists_abs_lt_of_abs_le hk
  exact ⟨j, t, hj, he.trans ht, heq⟩

theorem representable_zero : Representable 0 := ⟨0, 0, by norm_num, by norm_num, by norm_num⟩

theorem representable_intCast (hk : |k| ≤ 2 ^ 53) : Representable k := by
  simpa using representable_of_abs_le (e := 0) hk (by norm_num)

theorem representable_one : Representable 1 := by
  simpa using representable_intCast (k := 1) (by norm_num)

theorem representable_two_zpow (he : -1074 ≤ e) : Representable (2 ^ e) := by
  simpa using representable_of_abs_le (k := 1) (by norm_num) he

theorem abs_intCast_mul_zpow (k e : ℤ) : |(k : ℝ) * 2 ^ e| = (|k| : ℤ) * 2 ^ e := by
  rw [abs_mul, abs_of_pos (two_zpow_pos e), Int.cast_abs]

/-- Large doubles lie on a coarse grid. -/
theorem Representable.exists_mul_zpow (hv : Representable v) (h : 2 ^ (53 + e) ≤ |v|) :
    ∃ j : ℤ, v = j * 2 ^ (e + 1) := by
  obtain ⟨k, e', hk, he', rfl⟩ := hv
  rcases le_or_gt (e + 1) e' with hle | hlt
  · exact exists_mul_zpow_of_le k hle
  · exfalso
    have hk' : ((|k| : ℤ) : ℝ) < 2 ^ (53 : ℤ) := by exact_mod_cast hk
    have hsmall : |(k : ℝ) * 2 ^ e'| < 2 ^ (53 + e) := by
      calc |(k : ℝ) * 2 ^ e'| = (|k| : ℤ) * 2 ^ e' := abs_intCast_mul_zpow k e'
        _ < 2 ^ (53 : ℤ) * 2 ^ e' := mul_lt_mul_of_pos_right hk' (two_zpow_pos e')
        _ = 2 ^ (53 + e') := (zpow_add₀ two_ne_zero 53 e').symm
        _ ≤ 2 ^ (53 + e) := two_zpow_le_of_le (by omega)
    exact absurd h (not_le.2 hsmall)

/-- Behind a double with an even last digit there is room for one more, in front of the next one
of that kind. -/
theorem exists_between_of_le {k' e' : ℤ} (hk : |k| < 2 ^ 52) (he : -1073 ≤ e) (hle : e ≤ e')
    (hlt : (k : ℝ) * 2 ^ e < k' * 2 ^ e') :
    ∃ w, Representable w ∧ (k : ℝ) * 2 ^ e < w ∧ w < k' * 2 ^ e' := by
  obtain ⟨j, hj⟩ := exists_mul_zpow_of_le k' hle
  rw [hj] at hlt ⊢
  have hstep : (k : ℝ) + 1 ≤ j := by
    have hcast : (k : ℝ) < j := lt_of_mul_lt_mul_right hlt (two_zpow_pos e).le
    have hsucc : k + 1 ≤ j := by exact_mod_cast hcast
    exact_mod_cast hsucc
  have hhalf : (2 : ℝ) ^ e = 2 * 2 ^ (e - 1) := by
    rw [← zpow_one_add₀ two_ne_zero]
    congr 1
    ring
  have hodd : |2 * k + 1| ≤ 2 ^ 53 := by
    rw [abs_lt] at hk
    rw [abs_le]
    omega
  have hpos := two_zpow_pos (e - 1)
  refine ⟨(2 * k + 1 : ℤ) * 2 ^ (e - 1), representable_of_abs_le hodd (by omega), ?_, ?_⟩ <;>
    rw [hhalf] <;> push_cast <;> nlinarith

theorem Coarse.exists_between {w : ℝ} (hv : Coarse v) (hw : Coarse w) (hlt : v < w) :
    ∃ u, Representable u ∧ v < u ∧ u < w := by
  have hshrink : ∀ {x : ℝ}, Coarse x → ∃ k e : ℤ, |k| < 2 ^ 52 ∧ -1073 ≤ e ∧ x = k * 2 ^ e := by
    rintro x ⟨k, e, hk, he, rfl⟩
    obtain ⟨j, t, hj, ht, heq⟩ := exists_abs_lt_of_abs_le hk
    exact ⟨j, t, hj, he.trans ht, heq⟩
  obtain ⟨k, e, hk, he, rfl⟩ := hshrink hv
  obtain ⟨k', e', hk', he', rfl⟩ := hshrink hw
  rcases le_total e e' with hle | hle
  · exact exists_between_of_le hk he hle hlt
  · -- mirrored at zero
    have hmirror : ((-k' : ℤ) : ℝ) * 2 ^ e' < (-k : ℤ) * 2 ^ e := by
      push_cast
      linarith
    obtain ⟨u, hu, hlow, hhigh⟩ := exists_between_of_le (by rwa [abs_neg]) he' hle hmirror
    push_cast at hlow hhigh
    exact ⟨-u, hu.neg, by linarith, by linarith⟩

end Representable

namespace Nearest

variable {q r v x y B : ℝ} {e : ℤ}

theorem neg (h : Nearest q r) : Nearest (-q) (-r) := by
  have hflip : ∀ v : ℝ, |v - -q| = |-v - q| := by
    intro v
    rw [← abs_neg]
    congr 1
    ring
  refine ⟨h.representable.neg, fun v hv => ?_, fun v hv htie => ?_⟩
  · rw [hflip, hflip, neg_neg]
    exact h.le (-v) hv.neg
  · rw [hflip, hflip, neg_neg] at htie
    rcases h.coarse_of_tie (-v) hv.neg htie with heq | hcoarse
    · exact .inl (by rw [← heq, neg_neg])
    · exact .inr hcoarse.neg

/-- What is a double already is not moved. -/
theorem eq_self (h : Nearest q r) (hq : Representable q) : r = q := by
  have hle := h.le q hq
  rw [sub_self, abs_zero] at hle
  exact sub_eq_zero.1 (abs_nonpos_iff.1 hle)

/-- A number is rounded to one double only. -/
theorem unique {r' : ℝ} (h : Nearest q r) (h' : Nearest q r') : r = r' := by
  by_contra hne
  have htie : |r' - q| = |r - q| :=
    le_antisymm (h'.le r h.representable) (h.le r' h'.representable)
  have hcoarse : Coarse r := (h.coarse_of_tie r' h'.representable htie).resolve_left (Ne.symm hne)
  have hcoarse' : Coarse r' := (h'.coarse_of_tie r h.representable htie.symm).resolve_left hne
  -- what is between two numbers equally far from `q` is nearer
  have hnearer : ∀ {a b w : ℝ}, |a - q| = |b - q| → a < w → w < b → |w - q| < |a - q| := by
    intro a b w hab haw hwb
    rcases abs_eq_abs.1 hab with hsame | hopposite
    · linarith
    · rw [abs_of_neg (show a - q < 0 by linarith), abs_lt]
      constructor <;> linarith
  rcases lt_or_gt_of_ne hne with hlt | hgt
  · obtain ⟨w, hw, hlow, hhigh⟩ := hcoarse.exists_between hcoarse' hlt
    exact absurd (h.le w hw) (not_le.2 (hnearer htie.symm hlow hhigh))
  · obtain ⟨w, hw, hlow, hhigh⟩ := hcoarse'.exists_between hcoarse hgt
    exact absurd (h'.le w hw) (not_le.2 (hnearer htie hlow hhigh))

theorem le_of_le (h : Nearest q r) (hB : Representable B) (hq : q ≤ B) : r ≤ B := by
  by_contra hr
  have hfar : |B - q| < |r - q| := by
    rw [abs_of_nonneg (sub_nonneg.2 hq), abs_of_nonneg (by linarith)]
    linarith
  exact absurd (h.le B hB) (not_le.2 hfar)

theorem ge_of_ge (h : Nearest q r) (hB : Representable B) (hq : B ≤ q) : B ≤ r :=
  neg_le_neg_iff.1 (h.neg.le_of_le hB.neg (neg_le_neg hq))

theorem abs_le_of_abs_le (h : Nearest q r) (hB : Representable B) (hq : |q| ≤ B) : |r| ≤ B :=
  abs_le.2 ⟨h.ge_of_ge hB.neg (abs_le.1 hq).1, h.le_of_le hB (abs_le.1 hq).2⟩

theorem le_abs_of_le_abs (h : Nearest q r) (hB : Representable B) (hq : B ≤ |q|) : B ≤ |r| := by
  rcases le_abs.1 hq with hq | hq
  · exact (h.ge_of_ge hB hq).trans (le_abs_self r)
  · exact (h.neg.ge_of_ge hB hq).trans (neg_le_abs r)

theorem nonneg (h : Nearest q r) (hq : 0 ≤ q) : 0 ≤ r := h.ge_of_ge representable_zero hq

/-- Rounding keeps the order. -/
theorem mono {q' r' : ℝ} (h : Nearest q r) (h' : Nearest q' r') (hle : q ≤ q') : r ≤ r' := by
  rcases hle.eq_or_lt with rfl | hlt
  · exact (h.unique h').le
  by_contra hr
  -- the middle of the two doubles would lie on the wrong side of both numbers
  rw [not_le] at hr
  have hnear := sq_le_sq.2 (h.le r' h'.representable)
  have hnear' := sq_le_sq.2 (h'.le r h.representable)
  have hbelow : r + r' ≤ 2 * q := by nlinarith
  have habove : 2 * q' ≤ r + r' := by nlinarith
  linarith

/-- Twice a number that is not too small is rounded to twice the double. -/
theorem two_mul (h : Nearest q r) (hq : 1 ≤ q) : Nearest (2 * q) (2 * r) := by
  have hdouble : ∀ v : ℝ, |2 * v - 2 * q| = 2 * |v - q| := by
    intro v
    rw [← mul_sub, abs_mul, abs_two]
  have hone := h.le 1 representable_one
  rw [abs_of_nonpos (show 1 - q ≤ 0 by linarith)] at hone
  refine ⟨h.representable.two_mul, fun v hv => ?_, fun v hv htie => ?_⟩
  · rw [hdouble]
    rcases hv.half_or_lt with hhalf | hsmall
    · have hle := h.le _ hhalf
      have heq := hdouble (v / 2)
      rw [mul_div_cancel₀ v two_ne_zero] at heq
      linarith
    · rw [abs_of_nonpos (show v - 2 * q ≤ 0 by linarith)]
      linarith
  · rw [hdouble] at htie
    rcases hv.half_or_lt with hhalf | hsmall
    · have heq := hdouble (v / 2)
      rw [mul_div_cancel₀ v two_ne_zero] at heq
      rcases h.coarse_of_tie _ hhalf (by linarith) with hsame | hcoarse
      · exact .inl (by linarith)
      · exact .inr hcoarse.two_mul
    · rw [abs_of_nonpos (show v - 2 * q ≤ 0 by linarith)] at htie
      linarith

/-- A sum does not grow any more once the terms are small beside it. -/
theorem le_of_add (h : Nearest (x + y) r) (he : -1074 ≤ e) (hx : x ≤ 2 ^ (54 + e))
    (hy : y ≤ 2 ^ e) : r ≤ 2 ^ (54 + e) := by
  have hB : Representable (2 ^ (54 + e)) := representable_two_zpow (by omega)
  rcases le_or_gt (x + y) (2 ^ (54 + e)) with hle | hgt
  · exact h.le_of_le hB hle
  by_contra hr
  -- the next double is four times as far away as a term is large
  obtain ⟨j, hj⟩ : ∃ j : ℤ, r = j * 2 ^ (e + 1 + 1) := by
    apply h.representable.exists_mul_zpow
    have habs : r ≤ |r| := le_abs_self r
    have hexp : (53 + (e + 1) : ℤ) = 54 + e := by ring
    rw [hexp]
    linarith
  have hstep : (2 : ℝ) ^ (e + 1 + 1) = 4 * 2 ^ e := by
    rw [zpow_add₀ two_ne_zero, zpow_add₀ two_ne_zero]
    ring
  have hbound : (2 : ℝ) ^ (54 + e) = 2 ^ 52 * (4 * 2 ^ e) := by
    rw [zpow_add₀ two_ne_zero]
    norm_num
    ring
  have hpos := two_zpow_pos e
  have hnext : 2 ^ (54 + e) + 4 * 2 ^ e ≤ r := by
    have hint : (2 ^ 52 : ℤ) < j := by
      have hlt : ((2 ^ 52 : ℤ) : ℝ) < j := by
        push_cast
        rw [hj, hstep, hbound] at hr
        nlinarith
      exact_mod_cast hlt
    have hsucc : ((2 : ℝ) ^ 52 + 1) ≤ j := by exact_mod_cast hint
    rw [hj, hstep, hbound]
    nlinarith
  have hnear := h.le _ hB
  rw [abs_of_nonneg (by linarith), abs_of_neg (by linarith)] at hnear
  linarith

theorem abs_le_of_add (h : Nearest (x + y) r) (he : -1074 ≤ e) (hx : |x| ≤ 2 ^ (54 + e))
    (hy : |y| ≤ 2 ^ e) : |r| ≤ 2 ^ (54 + e) := by
  obtain ⟨hx₁, hx₂⟩ := abs_le.1 hx
  obtain ⟨hy₁, hy₂⟩ := abs_le.1 hy
  have hneg : Nearest (-x + -y) (-r) := by
    have hsum := h.neg
    rwa [neg_add] at hsum
  refine abs_le.2 ⟨?_, h.le_of_add he hx₂ hy₂⟩
  linarith [hneg.le_of_add he (by linarith) (by linarith)]

end Nearest

end LedgerWatch.Binary64
