import LedgerWatch.Proofs.Number.Rounding

namespace LedgerWatch.Binary64

open Float.Model
open Float.Model.UnpackedFloat

section Values

variable {u v : UnpackedFloat} {s : Sign} {m : ℕ} {e t : ℤ} {q : ℝ}

theorem Representable.nearest_self (h : Representable q) : Nearest q q := by
  refine ⟨h, fun v _ => ?_, fun v _ htie => .inl ?_⟩
  · rw [sub_self, abs_zero]
    exact abs_nonneg _
  · rw [sub_self, abs_zero, abs_eq_zero, sub_eq_zero] at htie
    exact htie

theorem IsCanonical.representable (h : IsCanonical u) : Representable (real u) := by
  cases u with
  | notANumber => exact h.elim
  | infinity s => exact h.elim
  | zero s => exact representable_zero
  | finite s m e hm =>
    obtain ⟨hlt, hle, -⟩ := h
    have hmag : Representable ((m : ℝ) * 2 ^ e) := ⟨m, e, by simpa using hlt, hle, by simp⟩
    cases s with
    | negative => exact hmag.neg
    | positive => exact hmag

theorem IsCanonical.isRounded_self (h : IsCanonical u) : IsRounded (real u) u :=
  ⟨h, h.representable.nearest_self⟩

theorem real_finite (s : Sign) (m : ℕ) (e : ℤ) (hm : 0 < m) :
    real (.finite s m e hm) = ((s.apply m : ℤ) : ℝ) * 2 ^ e := by
  cases s <;> simp [real, signed, Sign.apply]

theorem isRounded_zero (s : Sign) : IsRounded 0 (.zero s) :=
  ⟨trivial, representable_zero.nearest_self⟩

end Values

section Scaling

variable {s : Sign} {m : ℕ} {e t : ℤ}

theorem decreaseExponent_fst (m : ℕ) (e t : ℤ) (h : t ≤ e) :
    ((decreaseExponent m e t).1 : ℝ) * 2 ^ t = m * 2 ^ e := by
  obtain ⟨n, rfl⟩ : ∃ n : ℕ, e = t + n := ⟨(e - t).toNat, by omega⟩
  have hn : (t + n - t).toNat = n := by omega
  simp only [decreaseExponent, hn, Nat.shiftLeft_eq]
  rw [zpow_add₀ two_ne_zero, zpow_natCast]
  push_cast
  ring

theorem log2_mul_two_pow (hm : 0 < m) (n : ℕ) : (m * 2 ^ n).log2 = m.log2 + n := by
  rw [Nat.log2_eq_iff (by positivity)]
  have hle := Nat.log2_self_le hm.ne'
  have hlt := (Nat.log2_lt hm.ne').1 (Nat.lt_succ_self m.log2)
  constructor
  · rw [pow_add]
    exact Nat.mul_le_mul_right _ hle
  · have hpow : 2 ^ (m.log2 + n + 1) = 2 ^ (m.log2 + 1) * 2 ^ n := by ring
    rw [hpow]
    exact Nat.mul_lt_mul_of_pos_right hlt (by positivity)

theorem holds_exact (m : ℕ) : Holds (ExtendedMantissa.ofMantissaAndAccuracy m .exact) m := by
  simp [Holds, ExtendedMantissa.ofMantissaAndAccuracy]

theorem isRounded_roundWithAccuracy_exact (s : Sign) (m : ℕ) (e : ℤ)
    (he : e ≤ Format.binary64.targetExponent (totalExponent m e)) :
    IsRounded (signed s (m * 2 ^ e)) (roundWithAccuracy Format.binary64 s m e .exact) := by
  apply isRounded_roundWithAccuracy s _ he
  rw [mul_div_cancel_right₀ _ (two_zpow_pos e).ne']
  exact holds_exact m

theorem isRounded_round (s : Sign) (hm : 0 < m) (e : ℤ) :
    IsRounded (signed s (m * 2 ^ e)) (UnpackedFloat.round Format.binary64 s m e) := by
  obtain ⟨t, ht⟩ : ∃ t, t = Format.binary64.targetExponent (totalExponent m e) := ⟨_, rfl⟩
  rcases le_or_gt e t with hle | hlt
  · have hstay : decreaseExponent m e t = (m, e) := by
      have hzero : (e - t).toNat = 0 := by omega
      simp [decreaseExponent, hzero]
    rw [UnpackedFloat.round, ← ht, hstay]
    exact isRounded_roundWithAccuracy_exact s m e (ht ▸ hle)
  · -- more digits at a smaller exponent, so that all of them are there
    obtain ⟨n, rfl⟩ : ∃ n : ℕ, e = t + n := ⟨(e - t).toNat, by omega⟩
    have hn : (t + n - t).toNat = n := by omega
    have hmove : decreaseExponent m (t + n) t = (m * 2 ^ n, t) := by
      simp only [decreaseExponent, hn, Nat.shiftLeft_eq, Prod.mk.injEq, true_and]
      omega
    have htotal : totalExponent (m * 2 ^ n) t = totalExponent m (t + n) := by
      rw [totalExponent, totalExponent, log2_mul_two_pow hm]
      push_cast
      ring
    have hvalue : ((m * 2 ^ n : ℕ) : ℝ) * 2 ^ t = m * 2 ^ (t + (n : ℤ)) := by
      have hfst := decreaseExponent_fst m (t + n) t hlt.le
      rwa [hmove] at hfst
    rw [UnpackedFloat.round, ← ht, hmove, ← hvalue]
    exact isRounded_roundWithAccuracy_exact s _ t (by rw [htotal, ← ht])

theorem isRounded_normalize (k e : ℤ) (s : Sign) :
    IsRounded (k * 2 ^ e) (UnpackedFloat.normalize Format.binary64 k e s) := by
  unfold UnpackedFloat.normalize
  rcases lt_trichotomy k 0 with hneg | rfl | hpos
  · rw [compare_lt_iff_lt.2 hneg]
    have hk : (((-k).toNat : ℕ) : ℝ) = -k := by
      have hcast : (((-k).toNat : ℕ) : ℤ) = -k := by omega
      exact_mod_cast hcast
    have hround := isRounded_round .negative (by omega : 0 < (-k).toNat) e
    rwa [hk, neg_mul, signed, neg_neg] at hround
  · simpa [compare_eq_iff_eq.2 rfl] using isRounded_zero s
  · rw [compare_gt_iff_gt.2 hpos]
    have hk : ((k.toNat : ℕ) : ℝ) = k := by
      have hcast : ((k.toNat : ℕ) : ℤ) = k := by omega
      exact_mod_cast hcast
    have hround := isRounded_round .positive (by omega : 0 < k.toNat) e
    rwa [hk, signed] at hround

end Scaling

section Operations

variable {u v : UnpackedFloat}

theorem decreaseExponent_apply (s : Sign) (m : ℕ) (e t : ℤ) (h : t ≤ e) :
    ((s.apply ((decreaseExponent m e t).1 : ℕ) : ℤ) : ℝ) * 2 ^ t =
      ((s.apply m : ℤ) : ℝ) * 2 ^ e := by
  have hfst := decreaseExponent_fst m e t h
  cases s with
  | negative =>
    simp only [Sign.apply, Int.cast_neg, Int.cast_natCast, neg_mul]
    rw [hfst]
  | positive =>
    simp only [Sign.apply, Int.cast_natCast]
    exact hfst

theorem isRounded_add (hu : IsCanonical u) (hv : IsCanonical v) :
    IsRounded (real u + real v) (u.add Format.binary64 v) := by
  cases u with
  | notANumber => exact hu.elim
  | infinity s => exact hu.elim
  | zero s =>
    cases v with
    | notANumber => exact hv.elim
    | infinity s' => exact hv.elim
    | zero s' =>
      simp only [UnpackedFloat.add, real, add_zero]
      split <;> exact isRounded_zero _
    | finite s' m e hm =>
      simp only [UnpackedFloat.add]
      simpa [real] using hv.isRounded_self
  | finite s m e hm =>
    cases v with
    | notANumber => exact hv.elim
    | infinity s' => exact hv.elim
    | zero s' =>
      simp only [UnpackedFloat.add]
      simpa [real] using hu.isRounded_self
    | finite s' m' e' hm' =>
      have hround := isRounded_normalize (s.apply ((decreaseExponent m e (min e e')).1 : ℕ) +
        s'.apply ((decreaseExponent m' e' (min e e')).1 : ℕ)) (min e e') .positive
      rw [Int.cast_add, add_mul, decreaseExponent_apply s m e _ (min_le_left e e'),
        decreaseExponent_apply s' m' e' _ (min_le_right e e')] at hround
      rw [real_finite, real_finite]
      exact hround

theorem isCanonical_neg (hu : IsCanonical u) : IsCanonical u.neg := by
  cases u <;> exact hu

theorem signed_neg_sign (s : Sign) (x : ℝ) : signed (-s) x = -signed s x := by
  cases s with
  | negative => exact (neg_neg x).symm
  | positive => rfl

theorem real_neg (u : UnpackedFloat) : real u.neg = -real u := by
  cases u with
  | finite s m e hm => exact signed_neg_sign s _
  | _ => simp [UnpackedFloat.neg, real]

theorem apply_neg_sign (s : Sign) (k : ℤ) : (-s).apply k = -s.apply k := by
  cases s with
  | negative => exact (neg_neg k).symm
  | positive => rfl

theorem sub_eq_add_neg (hu : IsCanonical u) (hv : IsCanonical v) :
    u.sub Format.binary64 v = u.add Format.binary64 v.neg := by
  cases u with
  | notANumber => exact hu.elim
  | infinity s => exact hu.elim
  | zero s =>
    cases v with
    | notANumber => exact hv.elim
    | infinity s' => exact hv.elim
    | zero s' => rfl
    | finite s' m' e' hm' => rfl
  | finite s m e hm =>
    cases v with
    | notANumber => exact hv.elim
    | infinity s' => exact hv.elim
    | zero s' => rfl
    | finite s' m' e' hm' =>
      simp only [UnpackedFloat.sub, UnpackedFloat.add, UnpackedFloat.neg, apply_neg_sign]
      rfl

theorem isRounded_sub (hu : IsCanonical u) (hv : IsCanonical v) :
    IsRounded (real u - real v) (u.sub Format.binary64 v) := by
  rw [sub_eq_add_neg hu hv]
  have hround := isRounded_add hu (isCanonical_neg hv)
  rw [real_neg] at hround
  exact hround

theorem signed_mul (s s' : Sign) (x y : ℝ) :
    signed (s * s') (x * y) = signed s x * signed s' y := by
  cases s <;> cases s'
  · exact (neg_mul_neg x y).symm
  · exact (neg_mul x y).symm
  · exact (mul_neg x y).symm
  · rfl

theorem signed_div (s s' : Sign) (x y : ℝ) :
    signed (s / s') (x / y) = signed s x / signed s' y := by
  cases s <;> cases s'
  · exact (neg_div_neg_eq x y).symm
  · exact (neg_div y x).symm
  · exact (div_neg x).symm
  · rfl

theorem le_targetExponent_mul {m m' : ℕ} {e e' : ℤ} (hm : 0 < m) (hm' : 0 < m')
    (hfull : e = -1074 ∨ 2 ^ 52 ≤ m) (hfull' : e' = -1074 ∨ 2 ^ 52 ≤ m') :
    e + e' ≤ Format.binary64.targetExponent (totalExponent (m * m') (e + e')) := by
  rw [targetExponent_eq, totalExponent]
  have hlog : (e = -1074 ∧ e' = -1074) ∨ 52 ≤ (m * m').log2 := by
    rcases hfull with he | hlarge
    · rcases hfull' with he' | hlarge'
      · exact .inl ⟨he, he'⟩
      · exact .inr ((Nat.le_log2 (by positivity)).2 (hlarge'.trans (Nat.le_mul_of_pos_left m' hm)))
    · exact .inr ((Nat.le_log2 (by positivity)).2 (hlarge.trans (Nat.le_mul_of_pos_right m hm')))
  omega

theorem isRounded_mul (hu : IsCanonical u) (hv : IsCanonical v) :
    IsRounded (real u * real v) (u.mul Format.binary64 v) := by
  cases u with
  | notANumber => exact hu.elim
  | infinity s => exact hu.elim
  | zero s =>
    have hzero : real (.zero s) * real v = 0 := by simp [real]
    rw [hzero]
    cases v with
    | notANumber => exact hv.elim
    | infinity s' => exact hv.elim
    | zero s' => exact isRounded_zero _
    | finite s' m' e' hm' => exact isRounded_zero _
  | finite s m e hm =>
    cases v with
    | notANumber => exact hv.elim
    | infinity s' => exact hv.elim
    | zero s' =>
      have hzero : real (.finite s m e hm) * real (.zero s') = 0 := by simp [real]
      rw [hzero]
      exact isRounded_zero _
    | finite s' m' e' hm' =>
      have hround := isRounded_roundWithAccuracy_exact (s * s') (m * m') (e + e')
        (le_targetExponent_mul hm hm' hu.2.2 hv.2.2)
      have hvalue : signed (s * s') (((m * m' : ℕ) : ℝ) * 2 ^ (e + e')) =
          signed s (m * 2 ^ e) * signed s' (m' * 2 ^ e') := by
        rw [← signed_mul, zpow_add₀ two_ne_zero]
        congr 1
        push_cast
        ring
      rw [hvalue] at hround
      exact hround

theorem holds_fraction (n : ℕ) {d : ℕ} (hd : 0 < d) :
    Holds (ExtendedMantissa.ofMantissaAndAccuracy (n / d) (accuracyOfFraction (n % d) d))
      ((n : ℝ) / d) := by
  have hd' : (0 : ℝ) < d := by exact_mod_cast hd
  have hsplit : (n : ℝ) / d = (n / d : ℕ) + ((n % d : ℕ) : ℝ) / d := by
    have hnat : (n : ℝ) = d * ((n / d : ℕ) : ℝ) + ((n % d : ℕ) : ℝ) := by
      exact_mod_cast (Nat.div_add_mod n d).symm
    rw [add_div' _ _ _ hd'.ne', hnat]
    congr 1
    ring
  have hlt : ((n % d : ℕ) : ℝ) < d := by exact_mod_cast Nat.mod_lt n hd
  rw [hsplit, accuracyOfFraction]
  split
  · rename_i hzero
    simp [hzero, Holds, ExtendedMantissa.ofMantissaAndAccuracy]
  · rename_i hne
    have hpos : (0 : ℝ) < ((n % d : ℕ) : ℝ) := by exact_mod_cast Nat.pos_of_ne_zero hne
    rcases lt_trichotomy (2 * (n % d)) d with hcmp | hcmp | hcmp
    · have hcmp' : 2 * ((n % d : ℕ) : ℝ) < d := by exact_mod_cast hcmp
      rw [compare_lt_iff_lt.2 hcmp]
      refine ⟨?_, ?_⟩
      · simpa [ExtendedMantissa.ofMantissaAndAccuracy] using div_pos hpos hd'
      · have hhalf : ((n % d : ℕ) : ℝ) / d < 1 / 2 := by
          rw [div_lt_div_iff₀ hd' two_pos]
          linarith
        simpa [ExtendedMantissa.ofMantissaAndAccuracy] using hhalf
    · have hcmp' : 2 * ((n % d : ℕ) : ℝ) = d := by exact_mod_cast hcmp
      have hhalf : ((n % d : ℕ) : ℝ) / d = 1 / 2 := by
        rw [div_eq_div_iff hd'.ne' two_ne_zero]
        linarith
      rw [compare_eq_iff_eq.2 hcmp, hhalf]
      rfl
    · have hcmp' : (d : ℝ) < 2 * ((n % d : ℕ) : ℝ) := by exact_mod_cast hcmp
      rw [compare_gt_iff_gt.2 hcmp]
      have hhalf : 1 / 2 < ((n % d : ℕ) : ℝ) / d := by
        rw [div_lt_div_iff₀ two_pos hd']
        linarith
      have hone : ((n % d : ℕ) : ℝ) / d < 1 := (div_lt_one hd').2 hlt
      refine ⟨?_, ?_⟩ <;> simp only [ExtendedMantissa.ofMantissaAndAccuracy] <;> linarith

theorem log2_le_of_div (n : ℕ) {d : ℕ} (hd : 0 < d) : n.log2 ≤ (n / d).log2 + d.log2 + 1 := by
  rcases Nat.eq_zero_or_pos n with rfl | hn
  · simp
  have hq : n / d + 1 ≤ 2 ^ ((n / d).log2 + 1) := Nat.lt_log2_self
  have hd' : d < 2 ^ (d.log2 + 1) := Nat.lt_log2_self
  have hlt : n < 2 ^ ((n / d).log2 + d.log2 + 2) := by
    calc n < (n / d + 1) * d := by
          have hdiv := Nat.div_add_mod n d
          have hmod := Nat.mod_lt n hd
          rw [Nat.mul_comm] at hdiv
          rw [Nat.add_mul]
          omega
      _ ≤ 2 ^ ((n / d).log2 + 1) * 2 ^ (d.log2 + 1) := Nat.mul_le_mul hq hd'.le
      _ = 2 ^ ((n / d).log2 + d.log2 + 2) := by rw [← pow_add]; congr 1; omega
  have hlog := (Nat.log2_lt hn.ne').2 hlt
  omega

theorem isRounded_div_finite (s s' : Sign) {m m' : ℕ} (e e' : ℤ) (hm : 0 < m) (hm' : 0 < m') :
    IsRounded (real (.finite s m e hm) / real (.finite s' m' e' hm'))
      ((UnpackedFloat.finite s m e hm).div Format.binary64 (.finite s' m' e' hm')) := by
  obtain ⟨t, ht⟩ : ∃ t, t = min (e - e') (Format.binary64.targetExponent
    (totalExponent m e - totalExponent m' e')) := ⟨_, rfl⟩
  obtain ⟨n, hn⟩ : ∃ n : ℕ, e - e' = t + n := ⟨(e - e' - t).toNat, by omega⟩
  have hshift : (e - e' - t).toNat = n := by omega
  have hcore : divCore Format.binary64 m e m' e' =
      (m * 2 ^ n / m', t, accuracyOfFraction (m * 2 ^ n % m') m') := by
    simp only [divCore, ← ht, hshift, Nat.shiftLeft_eq]
  have hm'' : (0 : ℝ) < m' := by exact_mod_cast hm'
  have hquotient : (m * 2 ^ e) / (m' * 2 ^ e') / 2 ^ t = ((m * 2 ^ n : ℕ) : ℝ) / m' := by
    have he : e = t + n + e' := by omega
    have hpos := two_zpow_pos t
    have hpos' := two_zpow_pos e'
    rw [he, zpow_add₀ two_ne_zero, zpow_add₀ two_ne_zero, zpow_natCast]
    push_cast
    field_simp
  have hround := isRounded_roundWithAccuracy (s / s')
    (x := (m * 2 ^ e) / (m' * 2 ^ e')) (e := t)
    (hquotient ▸ holds_fraction (m * 2 ^ n) hm') (by
      have hlog := log2_le_of_div (m * 2 ^ n) hm'
      rw [log2_mul_two_pow hm] at hlog
      simp only [targetExponent_eq, totalExponent] at ht ⊢
      omega)
  rw [signed_div] at hround
  simp only [UnpackedFloat.div, hcore]
  exact hround

theorem isRounded_div (hu : IsCanonical u) (hv : IsCanonical v) (hzero : real v ≠ 0) :
    IsRounded (real u / real v) (u.div Format.binary64 v) := by
  cases v with
  | notANumber => exact hv.elim
  | infinity s' => exact hv.elim
  | zero s' => exact absurd rfl hzero
  | finite s' m' e' hm' =>
    cases u with
    | notANumber => exact hu.elim
    | infinity s => exact hu.elim
    | zero s =>
      have hzero : real (.zero s) / real (.finite s' m' e' hm') = 0 := by simp [real]
      rw [hzero]
      exact isRounded_zero _
    | finite s m e hm => exact isRounded_div_finite s s' e e' hm hm'

theorem holds_sqrt (n : ℕ) :
    Holds (ExtendedMantissa.ofMantissaAndAccuracy n.sqrt
      (if n - n.sqrt * n.sqrt = 0 then .exact
        else .inexact (if n - n.sqrt * n.sqrt ≤ n.sqrt then .lt else .gt))) (Real.sqrt n) := by
  obtain ⟨root, hroot⟩ : ∃ root, root = n.sqrt := ⟨_, rfl⟩
  rw [← hroot]
  have hlow : root * root ≤ n := hroot ▸ Nat.sqrt_le n
  have hhigh : n < (root + 1) * (root + 1) := hroot ▸ Nat.lt_succ_sqrt n
  have hpos : (0 : ℝ) ≤ root := by positivity
  obtain ⟨rest, hrest⟩ : ∃ rest, n = root * root + rest := ⟨n - root * root, by omega⟩
  have hsub : n - root * root = rest := by omega
  have hcast : (n : ℝ) = root * root + rest := by exact_mod_cast hrest
  have hupper : Real.sqrt n < root + 1 := by
    rw [Real.sqrt_lt' (by linarith)]
    have hhigh' : (n : ℝ) < (root + 1) * (root + 1) := by exact_mod_cast hhigh
    rw [sq]
    exact hhigh'
  rw [hsub]
  split
  · rename_i hzero
    rw [hcast, hzero, Nat.cast_zero, add_zero, Real.sqrt_mul_self hpos]
    exact holds_exact root
  · rename_i hne
    have hrest' : (1 : ℝ) ≤ rest := by exact_mod_cast Nat.one_le_iff_ne_zero.2 hne
    have hlower : (root : ℝ) < Real.sqrt n := by
      rw [Real.lt_sqrt hpos, hcast, sq]
      linarith
    split
    · rename_i hle
      have hle' : (rest : ℝ) ≤ root := by exact_mod_cast hle
      have hhalf : Real.sqrt n < root + 1 / 2 := by
        rw [Real.sqrt_lt' (by linarith), hcast]
        nlinarith
      exact ⟨hlower, hhalf⟩
    · rename_i hlt
      have hlt' : (root : ℝ) + 1 ≤ rest := by exact_mod_cast not_le.1 hlt
      have hhalf : root + 1 / 2 < Real.sqrt n := by
        rw [Real.lt_sqrt (by linarith), hcast]
        nlinarith
      exact ⟨hhalf, hupper⟩

theorem log2_le_of_sqrt (n : ℕ) : n.log2 ≤ 2 * n.sqrt.log2 + 1 := by
  rcases Nat.eq_zero_or_pos n with rfl | hn
  · simp
  have hroot : n.sqrt + 1 ≤ 2 ^ (n.sqrt.log2 + 1) := Nat.lt_log2_self
  have hlt : n < 2 ^ (2 * n.sqrt.log2 + 2) := by
    calc n < (n.sqrt + 1) * (n.sqrt + 1) := Nat.lt_succ_sqrt n
      _ ≤ 2 ^ (n.sqrt.log2 + 1) * 2 ^ (n.sqrt.log2 + 1) := Nat.mul_le_mul hroot hroot
      _ = 2 ^ (2 * n.sqrt.log2 + 2) := by rw [← pow_add]; congr 1; omega
  have hlog := (Nat.log2_lt hn.ne').2 hlt
  omega

theorem isRounded_sqrt (hu : IsCanonical u) (hpos : 0 ≤ real u) :
    IsRounded (Real.sqrt (real u)) (u.sqrt Format.binary64) := by
  cases u with
  | notANumber => exact hu.elim
  | infinity s => exact hu.elim
  | zero s =>
    have hzero : Real.sqrt (real (.zero s)) = 0 := by simp [real]
    rw [hzero]
    exact isRounded_zero s
  | finite s m e hm =>
    have hm' : (0 : ℝ) < m := by exact_mod_cast hm
    cases s with
    | negative =>
      have hneg : 0 < (m : ℝ) * 2 ^ e := mul_pos hm' (two_zpow_pos e)
      simp only [real, signed] at hpos
      linarith
    | positive =>
      obtain ⟨t, ht⟩ : ∃ t, t = min (e.ediv 2) (Format.binary64.targetExponent
        ((totalExponent m e + 1).ediv 2)) := ⟨_, rfl⟩
      obtain ⟨n, hn⟩ : ∃ n : ℕ, e = 2 * t + n := ⟨(e - 2 * t).toNat, by
        have hdiv : e.ediv 2 = e / 2 := rfl
        omega⟩
      have hshift : (e - 2 * t).toNat = n := by omega
      have hroot : Real.sqrt (m * 2 ^ e) / 2 ^ t = Real.sqrt ((m * 2 ^ n : ℕ) : ℝ) := by
        have hsplit : (m : ℝ) * 2 ^ e = ((m * 2 ^ n : ℕ) : ℝ) * (2 ^ t * 2 ^ t) := by
          have he : e = n + (t + t) := by omega
          rw [he, zpow_add₀ two_ne_zero, zpow_add₀ two_ne_zero, zpow_natCast]
          push_cast
          ring
        rw [hsplit, Real.sqrt_mul (by positivity), Real.sqrt_mul_self (two_zpow_pos t).le,
          mul_div_cancel_right₀ _ (two_zpow_pos t).ne']
      have hround := isRounded_roundWithAccuracy .positive (x := Real.sqrt (m * 2 ^ e)) (e := t)
        (hroot ▸ holds_sqrt (m * 2 ^ n)) (by
          have hlog := log2_le_of_sqrt (m * 2 ^ n)
          rw [log2_mul_two_pow hm] at hlog
          have hdiv : ((m.log2 : ℤ) + 1 + e + 1).ediv 2 = (m.log2 + 1 + e + 1) / 2 := rfl
          simp only [targetExponent_eq, totalExponent] at ht ⊢
          omega)
      have hcore : sqrtCore Format.binary64 m e = ((m * 2 ^ n).sqrt, t,
          if m * 2 ^ n - (m * 2 ^ n).sqrt * (m * 2 ^ n).sqrt = 0 then .exact
          else .inexact (if m * 2 ^ n - (m * 2 ^ n).sqrt * (m * 2 ^ n).sqrt ≤ (m * 2 ^ n).sqrt
            then .lt else .gt)) := by
        simp only [sqrtCore, ← ht, hshift, Nat.shiftLeft_eq]
      simp only [UnpackedFloat.sqrt, hcore]
      exact hround

theorem isRounded_ofNat (n : ℕ) : IsRounded n (UnpackedFloat.ofNat Format.binary64 n) := by
  have hround := isRounded_normalize n 0 .positive
  rwa [zpow_zero, mul_one, Int.cast_natCast] at hround

theorem real_abs (u : UnpackedFloat) : real u.abs = |real u| := by
  cases u with
  | finite s m e hm =>
    have hpos : (0 : ℝ) ≤ m * 2 ^ e := by positivity
    rw [real, abs_signed, abs_of_nonneg hpos]
    rfl
  | _ => simp [UnpackedFloat.abs, real]

theorem isRounded_places {m : ℕ} (hm : 0 < m) :
    IsRounded m (roundWithAccuracy Format.binary64 .positive (m * 2 ^ 53) (-53) .exact) := by
  have hround := isRounded_roundWithAccuracy_exact .positive (m * 2 ^ 53) (-53) (by
    rw [targetExponent_eq, totalExponent, log2_mul_two_pow hm]
    omega)
  have hvalue : signed .positive (((m * 2 ^ 53 : ℕ) : ℝ) * 2 ^ (-53 : ℤ)) = m := by
    rw [signed, zpow_neg]
    push_cast
    field_simp
    norm_num
  rwa [hvalue] at hround

/-- A decimal whose exponent is neither too large nor too small to be looked at. -/
theorem isRounded_ofScientific {m : ℕ} {e : ℤ} (hm : 0 < m) (hlow : -(2048 + (m.log2 : ℤ)) ≤ e)
    (hhigh : e ≤ 2048) :
    IsRounded (m * 10 ^ e) (UnpackedFloat.ofScientific Format.binary64 m e) := by
  have hexponents : (2 : ℤ) ^ Format.binary64.exponentBits = 2048 := rfl
  unfold UnpackedFloat.ofScientific
  rw [dif_neg hm.ne', hexponents, if_neg (by omega), if_neg (by omega)]
  split
  · rename_i hsign
    obtain ⟨k, rfl⟩ := Int.eq_ofNat_of_zero_le hsign
    have hplaces : m <<< Format.binary64.mantissaBits * 10 ^ k = m * 10 ^ k * 2 ^ 53 := by
      rw [Nat.shiftLeft_eq]
      show m * 2 ^ 53 * 10 ^ k = _
      ring
    have hround := isRounded_places (m := m * 10 ^ k) (by positivity)
    rw [← hplaces] at hround
    push_cast at hround
    exact hround
  · rename_i hsign
    obtain ⟨k, rfl⟩ : ∃ k : ℕ, e = -k := ⟨(-e).toNat, by omega⟩
    have hround := isRounded_div_finite .positive .positive 0 0 hm
      (show 0 < 10 ^ (- -(k : ℤ)).toNat from Nat.pow_pos (by norm_num))
    have hvalue : real (.finite .positive m 0 hm) /
        real (.finite .positive (10 ^ (- -(k : ℤ)).toNat) 0 (Nat.pow_pos (by norm_num))) =
          m * 10 ^ (-k : ℤ) := by
      simp [real, signed, div_eq_mul_inv]
    rw [hvalue] at hround
    exact hround

end Operations

end LedgerWatch.Binary64
