import LedgerWatch.Number.Shortest
import LedgerWatch.Proofs.Number.Operations

namespace LedgerWatch.Decimal

open Binary64

noncomputable def Scientific.real (s : Scientific) : ℝ := s.digits * 10 ^ s.exponent

namespace Interval

variable {tie : Tie} {i : Interval} {e : ℤ} {c : ℕ} {s : Scientific}

theorem roundDiv_eq_or (tie : Tie) (n : ℕ) {d : ℕ} (hd : 0 < d) :
    tie.roundDiv n d = n / d ∨ tie.roundDiv n d = n / d + 1 := by
  cases tie with
  | even =>
    simp only [Tie.roundDiv, Binary64.roundDiv]
    have hparity : n / d % 2 ≤ 1 := by omega
    split
    · exact .inl rfl
    · split
      · exact .inr rfl
      · omega
  | up =>
    -- half a unit more in front of the division
    have hdiv : 2 * n + d = 2 * d * (n / d) + (2 * (n % d) + d) := by
      have hsplit := Nat.div_add_mod n d
      nlinarith
    have hrest : (2 * (n % d) + d) / (2 * d) ≤ 1 := by
      have hmod := Nat.mod_lt n hd
      exact Nat.le_of_lt_succ ((Nat.div_lt_iff_lt_mul (by omega)).2 (by omega))
    rw [Tie.roundDiv, hdiv, Nat.mul_add_div (by omega)]
    rcases Nat.le_one_iff_eq_zero_or_eq_one.1 hrest with heq | heq <;> rw [heq]
    · exact .inl rfl
    · exact .inr rfl

theorem contains_of_nearest? (hdown : 0 < i.down) (h : i.nearest? tie e = some c) :
    i.contains e c = true := by
  have hstep : 0 < i.denominator e := Nat.mul_pos hdown (Nat.pow_pos (by norm_num))
  unfold nearest? at h
  simp only at h
  split at h
  · rename_i hbelow habove
    obtain rfl := Option.some.inj h
    rcases roundDiv_eq_or tie (i.middle * i.numerator e) hstep with heq | heq <;> rw [heq]
    · exact hbelow
    · exact habove
  · rename_i hbelow _
    obtain rfl := Option.some.inj h
    exact hbelow
  · rename_i _ habove
    obtain rfl := Option.some.inj h
    exact habove
  · cases h

theorem contains_of_firstHit? (hdown : 0 < i.down) {steps : ℕ}
    (h : i.firstHit? tie steps e = some s) : i.contains s.exponent s.digits = true := by
  induction steps generalizing e with
  | zero => cases h
  | succ steps ih =>
    rw [firstHit?] at h
    cases hnearest : i.nearest? tie e with
    | none =>
      rw [hnearest] at h
      exact ih h
    | some c =>
      rw [hnearest] at h
      obtain rfl := Option.some.inj h
      exact contains_of_nearest? hdown hnearest

end Interval

section Nearest

variable {tie : Tie} {m c : ℕ} {q e : ℤ}

theorem two_pow_toNat (q : ℤ) : (2 : ℝ) ^ q.toNat = 2 ^ q * 2 ^ (-q).toNat := by
  rw [← zpow_natCast, ← zpow_natCast, ← zpow_add₀ two_ne_zero]
  congr 1
  omega

/-- The two sides of a comparison stand for a quarter of a unit and for a power of ten. -/
theorem numerator_mul_ten_zpow (m : ℕ) (q e : ℤ) :
    ((interval m q).numerator e : ℝ) * 10 ^ e =
      2 ^ (q - 2) * ((interval m q).denominator e : ℝ) := by
  have hten : (10 : ℝ) ^ (-e).toNat * 10 ^ e = 10 ^ e.toNat := by
    rw [← zpow_natCast, ← zpow_natCast, ← zpow_add₀ (by norm_num)]
    congr 1
    omega
  have htwo : (2 : ℝ) ^ (q - 2).toNat = 2 ^ (q - 2) * 2 ^ (2 - q).toNat := by
    rw [two_pow_toNat, neg_sub]
  simp only [interval, Interval.numerator, Interval.denominator, Nat.pow_eq]
  push_cast
  rw [mul_assoc, hten, htwo]
  ring

theorem numerator_pos (m : ℕ) (q e : ℤ) : (0 : ℝ) < (interval m q).numerator e := by
  exact_mod_cast Nat.mul_pos (Nat.pow_pos (by norm_num)) (Nat.pow_pos (by norm_num))

/-- A decimal in quarters of a unit of the last binary place. -/
theorem quarters_eq (m c : ℕ) (q e : ℤ) : (c : ℝ) * 10 ^ e / 2 ^ (q - 2) =
    ((c * (interval m q).denominator e : ℕ) : ℝ) / ((interval m q).numerator e : ℕ) := by
  have hnum := numerator_pos m q e
  rw [div_eq_div_iff (two_zpow_pos _).ne' hnum.ne', mul_assoc, mul_comm ((10 : ℝ) ^ e),
    numerator_mul_ten_zpow]
  push_cast
  ring

/-- A decimal in the interval lies between its ends, and not on them when the last digit is odd. -/
theorem bounds_of_contains (h : (interval m q).contains e c = true) :
    ((interval m q).low : ℝ) ≤ c * 10 ^ e / 2 ^ (q - 2) ∧
      (c : ℝ) * 10 ^ e / 2 ^ (q - 2) ≤ 4 * m + 2 ∧
      (m % 2 = 1 → ((interval m q).low : ℝ) < c * 10 ^ e / 2 ^ (q - 2) ∧
        (c : ℝ) * 10 ^ e / 2 ^ (q - 2) < 4 * m + 2) := by
  have hnum := numerator_pos m q e
  have hhigh : (4 * (m : ℝ) + 2) = ((interval m q).high : ℕ) := by
    simp [interval]
  rw [quarters_eq, hhigh, le_div_iff₀ hnum, div_le_iff₀ hnum, lt_div_iff₀ hnum, div_lt_iff₀ hnum]
  unfold Interval.contains at h
  have hclosed : (interval m q).closed = (m % 2 == 0) := rfl
  rw [hclosed] at h
  norm_cast
  split at h
  · rename_i heven
    simp only [Bool.and_eq_true, decide_eq_true_eq] at h
    refine ⟨h.1, h.2, fun hodd => ?_⟩
    rw [hodd] at heven
    cases heven
  · simp only [Bool.and_eq_true, decide_eq_true_eq] at h
    exact ⟨h.1.le, h.2.le, fun _ => h⟩

/-- A double is the nearest one to every decimal in its interval. -/
theorem nearest_of_contains (hm : 0 < m) (hlt : m < 2 ^ 53) (hq : -1074 ≤ q)
    (hfull : q = -1074 ∨ 2 ^ 52 ≤ m) (h : (interval m q).contains e c = true) :
    Nearest (c * 10 ^ e) (m * 2 ^ q) := by
  obtain ⟨hlow, hhigh, hstrict⟩ := bounds_of_contains h
  obtain ⟨x, hx⟩ : ∃ x : ℝ, x = c * 10 ^ e := ⟨_, rfl⟩
  obtain ⟨y, hy⟩ : ∃ y, y = x / 2 ^ (q - 2) := ⟨_, rfl⟩
  rw [← hx, ← hy] at hlow hhigh hstrict
  rw [← hx]
  have hscale : ∀ n : ℕ, x / 2 ^ (q - 2 + n) = y / 2 ^ n := by
    intro n
    rw [hy, zpow_add₀ two_ne_zero, zpow_natCast, div_div]
  have hwide : (4 * m - 2 : ℝ) ≤ (interval m q).low := by
    have hnat : 4 * m ≤ (interval m q).low + 2 := by
      simp only [interval]
      split <;> omega
    have hcast : (4 * m : ℝ) ≤ (interval m q).low + 2 := by exact_mod_cast hnat
    linarith
  rcases em (m = 2 ^ 52 ∧ -1074 < q ∧ y < 4 * m) with ⟨rfl, hgt, hbelow⟩ | hother
  · -- below a power of two the doubles stand twice as close
    have hnarrow : (4 * (2 : ℝ) ^ 52 - 1) ≤ y := by
      have hnat : (interval (2 ^ 52) q).low + 1 = 4 * 2 ^ 52 := by
        simp only [interval, Nat.pow_eq, hgt, and_self, if_true]
        norm_num
      have hcast : ((interval (2 ^ 52) q).low : ℝ) + 1 = 4 * 2 ^ 52 := by exact_mod_cast hnat
      linarith
    push_cast at hbelow
    have hdiv : x / 2 ^ (q - 1) = y / 2 := by
      have hone := hscale 1
      rwa [pow_one, show q - 2 + ((1 : ℕ) : ℤ) = q - 1 by push_cast; ring] at hone
    have hnear : |((2 ^ 53 : ℕ) : ℝ) - x / 2 ^ (q - 1)| ≤ 1 / 2 := by
      rw [hdiv, abs_le]
      push_cast
      constructor <;> linarith
    have hgrid := nearest_of_grid (by omega : -1074 ≤ q - 1) le_rfl hnear (fun _ => by norm_num)
      (.inr (by rw [hdiv]; linarith))
    have hsame : ((2 ^ 53 : ℕ) : ℝ) * 2 ^ (q - 1) = ((2 ^ 52 : ℕ) : ℝ) * 2 ^ q := by
      rw [zpow_sub_one₀ two_ne_zero]
      push_cast
      ring
    rwa [hsame] at hgrid
  · have hdiv : x / 2 ^ q = y / 4 := by
      have htwo := hscale 2
      rw [show q - 2 + ((2 : ℕ) : ℤ) = q by push_cast; ring] at htwo
      rw [htwo]
      norm_num
    apply nearest_of_grid hq hlt.le
    · rw [hdiv, abs_le]
      constructor <;> linarith
    · intro htie
      by_contra hodd
      obtain ⟨hlow', hhigh'⟩ := hstrict (by omega)
      have hinside : |(m : ℝ) - y / 4| < 1 / 2 := by
        rw [abs_lt]
        constructor <;> linarith
      rw [hdiv] at htie
      exact absurd htie hinside.ne
    · rcases hfull with hleast | hlarge
      · exact .inl hleast
      · rcases eq_or_ne q (-1074) with hleast | hgt
        · exact .inl hleast
        right
        rw [hdiv]
        have hlarge' : (2 : ℝ) ^ 52 ≤ m := by exact_mod_cast hlarge
        rcases le_or_gt (4 * (m : ℝ)) y with hle | hbelow
        · linarith
        · have hne : m ≠ 2 ^ 52 := fun heq => hother ⟨heq, by omega, hbelow⟩
          have hnext : (2 : ℝ) ^ 52 + 1 ≤ m := by
            exact_mod_cast (by omega : 2 ^ 52 + 1 ≤ m)
          linarith

theorem real_exact (m : ℕ) (q : ℤ) : (exact m q).real = m * 2 ^ q := by
  unfold exact Scientific.real
  split
  · rename_i hq
    obtain ⟨n, rfl⟩ := Int.eq_ofNat_of_zero_le hq
    simp
  · rename_i hq
    obtain ⟨n, rfl⟩ : ∃ n : ℕ, q = -n := ⟨(-q).toNat, by omega⟩
    have hten : (10 : ℝ) = 2 * 5 := by norm_num
    rw [neg_neg, Int.toNat_natCast, Nat.pow_eq, zpow_neg, zpow_neg, hten, mul_zpow, zpow_natCast,
      zpow_natCast]
    push_cast
    field_simp

/-- A double is the nearest one to its shortest decimal. -/
theorem nearest_shortest (tie : Tie) (hm : 0 < m) (hlt : m < 2 ^ 53) (hq : -1074 ≤ q)
    (hfull : q = -1074 ∨ 2 ^ 52 ≤ m) : Nearest (shortest tie m q).real (m * 2 ^ q) := by
  unfold shortest
  rw [if_neg hm.ne']
  cases hhit : (interval m q).firstHit? tie 20 (coarsest m q) with
  | none =>
    have hrep : Representable ((m : ℝ) * 2 ^ q) := ⟨m, q, by simpa using hlt, hq, by simp⟩
    rw [Option.getD_none, real_exact]
    exact hrep.nearest_self
  | some s =>
    have hdown : 0 < (interval m q).down := Nat.pow_pos (by norm_num)
    exact nearest_of_contains hm hlt hq hfull (Interval.contains_of_firstHit? hdown hhit)

/-- The digits of a shortest decimal begin with a zero only for the number zero. -/
theorem shortest_of_digits_eq_zero {tie : Tie} (h : (shortest tie m q).digits = 0) :
    shortest tie m q = ⟨0, 0⟩ := by
  unfold shortest at h ⊢
  split
  · rfl
  rename_i hm
  rw [if_neg hm] at h
  exfalso
  cases hhit : (interval m q).firstHit? tie 20 (coarsest m q) with
  | none =>
    rw [hhit, Option.getD_none, exact] at h
    split at h <;> simp [hm] at h
  | some s =>
    rw [hhit, Option.getD_some] at h
    have hdown : 0 < (interval m q).down := Nat.pow_pos (by norm_num)
    obtain ⟨hlow, -, -⟩ := bounds_of_contains (Interval.contains_of_firstHit? hdown hhit)
    have hpos : 0 < (interval m q).low := by
      simp only [interval]
      split <;> omega
    have hcast : (0 : ℝ) < (interval m q).low := by exact_mod_cast hpos
    rw [h, Nat.cast_zero, zero_mul, zero_div] at hlow
    linarith

end Nearest

end LedgerWatch.Decimal
