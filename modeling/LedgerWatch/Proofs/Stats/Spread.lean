import LedgerWatch.Proofs.Scores.Basic

namespace LedgerWatch

open Binary64
open Float.Model
open Float.Model.UnpackedFloat

namespace Binary64

variable {x y : Float} {k : ℤ}

theorem isFinite_of_foldl_add {xs : List Float} (h : (xs.foldl (· + ·) x).isFinite = true) :
    x.isFinite = true ∧ ∀ y ∈ xs, y.isFinite = true := by
  induction xs generalizing x with
  | nil => exact ⟨h, List.forall_mem_nil _⟩
  | cons y ys ih =>
    obtain ⟨hsum, hrest⟩ := ih h
    obtain ⟨hx, hy⟩ := isFinite_of_isFinite_add hsum
    exact ⟨hx, List.forall_mem_cons.2 ⟨hy, hrest⟩⟩

theorem within_of_isFinite_square (h : (x * x).isFinite = true) : Within 512 x := by
  obtain ⟨hx, -⟩ := isFinite_of_isFinite_mul h
  refine ⟨hx, ?_⟩
  by_contra hlarge
  have hsquare : (2 : ℝ) ^ (1024 : ℤ) ≤ |value x * value x| := by
    rw [abs_mul]
    calc (2 : ℝ) ^ (1024 : ℤ) = 2 ^ (512 : ℤ) * 2 ^ (512 : ℤ) := by
          rw [← zpow_add₀ two_ne_zero]; norm_num
      _ ≤ |value x| * |value x| := by
          have hle := (not_le.1 hlarge).le
          exact mul_le_mul hle hle (two_zpow_pos _).le (abs_nonneg _)
  have hnear := (rounds_mul hx hx).nearest_of_isFinite h
  have hle := hnear.le_abs_of_le_abs (representable_two_zpow (by norm_num)) hsquare
  exact absurd (abs_value_lt (x * x)) (not_lt.2 hle)

theorem within_sqrt (h : x.sqrt.isFinite = true) : Within 512 x.sqrt := by
  have hx := isFinite_of_isFinite_sqrt h
  have hpos : 0 ≤ value x := by
    have hsqrt : (x.toModel.unpack.sqrt Format.binary64).isFinite = true :=
      isFinite_of_isFinite_stored h
    rw [value]
    rcases hu : x.toModel.unpack with _ | _ | _ | ⟨_ | _, m, e, hm⟩
    · exact le_rfl
    · exact le_rfl
    · exact le_rfl
    · rw [hu] at hsqrt
      cases hsqrt
    · rw [real, signed]
      positivity
  refine (rounds_sqrt hx hpos).within (by decide) ?_
  rw [abs_of_nonneg (Real.sqrt_nonneg _)]
  apply Real.sqrt_le_iff.2
  refine ⟨(two_zpow_pos 512).le, ?_⟩
  calc value x ≤ limit := (le_abs_self _).trans (abs_value_lt x).le
    _ = (2 ^ (512 : ℤ)) ^ 2 := by rw [limit, ← zpow_natCast, ← zpow_mul]; norm_num

/-- A difference bounds what it is taken of. -/
theorem Within.of_sub (h : Within k (x - y)) (hy : Within k y) (hk : InRange (k + 1)) :
    Within (k + 2) x := by
  obtain ⟨hx, -⟩ := isFinite_of_isFinite_sub h.isFinite
  refine ⟨hx, ?_⟩
  have hnear := (rounds_sub hx hy.isFinite).nearest_of_isFinite h.isFinite
  have hgap : |value x - value y| < 2 ^ (k + 1) := by
    by_contra hlarge
    have hle := hnear.le_abs_of_le_abs (representable_two_zpow hk.1) (not_lt.1 hlarge)
    have hlt : (2 : ℝ) ^ k < 2 ^ (k + 1) := zpow_lt_zpow_right₀ one_lt_two (by omega)
    linarith [h.abs_le]
  have hsum : |value x| ≤ |value x - value y| + |value y| := by
    calc |value x| = |value x - value y + value y| := by rw [sub_add_cancel]
      _ ≤ |value x - value y| + |value y| := abs_add_le _ _
  have hstep : (2 : ℝ) ^ k ≤ 2 ^ (k + 1) := two_zpow_le_of_le (by omega)
  have htwo : (2 : ℝ) ^ (k + 2) = 2 ^ (k + 1) + 2 ^ (k + 1) := by
    rw [Within.two_mul_zpow]
    congr 1
    ring
  linarith [hy.abs_le]

end Binary64

namespace Stats

variable {xs : List Float} {s : Summary Float}

/-- What is known of a sample that has a spread. -/
structure Spread (xs : List Float) (s : Summary Float) : Prop where
  mean?_eq : mean? xs = some s.mean
  mean : Within 542 s.mean
  std : Within 512 s.std
  le_std : 2 ^ (-30 : ℤ) ≤ value s.std
  deviation : ∀ x ∈ xs, Within 512 (x - s.mean)

theorem unpack_tolerance : (Quantity.tolerance : Float).toModel.unpack =
    .finite .positive 4835703278458517 (-82) (by decide) := rfl

theorem value_tolerance : value Quantity.tolerance = 4835703278458517 * 2 ^ (-82 : ℤ) := by
  rw [value, unpack_tolerance, real, signed]
  norm_num

theorem le_value_tolerance : 2 ^ (-30 : ℤ) ≤ value Quantity.tolerance := by
  rw [value_tolerance]
  norm_num

theorem value_tolerance_le_one : value Quantity.tolerance ≤ 1 := by
  rw [value_tolerance]
  norm_num

/-- A spread that does not count as none is beyond its share of the mean. -/
theorem spread_of_not_flat {mean std : Float} (hmean : mean.isFinite = true)
    (hstd : Within 512 std) (hflat : isDegenerate std mean = false) :
    Within 542 mean ∧ 2 ^ (-30 : ℤ) ≤ value std := by
  obtain ⟨-, hnot⟩ := Bool.or_eq_false_iff.1 hflat
  replace hnot : ¬std ≤ Quantity.tolerance * larger mean.abs 1 := of_decide_eq_false hnot
  obtain ⟨size, hsize⟩ : ∃ size, size = larger mean.abs 1 := ⟨_, rfl⟩
  rw [← hsize] at hnot
  have habs : mean.abs.isFinite = true := (isFinite_abs mean).trans hmean
  have hfinite : size.isFinite = true := by
    rw [hsize]
    rcases larger_eq_or mean.abs 1 with heq | heq <;> rw [heq]
    · exact habs
    · exact isFinite_one
  have hle_mean : |value mean| ≤ value size := by
    rw [← value_abs, ← le_iff_value habs hfinite, hsize]
    exact le_larger_left (not_isNaN_of_isFinite habs)
  have hle_one : 1 ≤ value size := by
    rw [← value_one, ← le_iff_value isFinite_one hfinite, hsize]
    exact le_larger_right (not_isNaN_of_isFinite habs) rfl
  -- the share is a double: it is at most the mean, or one
  have hshare := rounds_mul (x := Quantity.tolerance) (y := size) rfl hfinite
  have hshare_le : |value Quantity.tolerance * value size| ≤ |value size| := by
    rw [abs_mul, abs_of_nonneg ((two_zpow_pos _).le.trans le_value_tolerance)]
    exact mul_le_of_le_one_left (abs_nonneg _) value_tolerance_le_one
  have hshare_finite := (hshare.isFinite_of_abs_le (representable_value hfinite).abs
    (abs_value_lt size) hshare_le).1
  have hnear := hshare.nearest_of_isFinite hshare_finite
  have hlt : value (Quantity.tolerance * size) < value std := by
    rw [le_iff_value hstd.isFinite hshare_finite] at hnot
    exact not_le.1 hnot
  have hmul : ∀ j k : ℤ, j + 30 = k → -1074 ≤ j → 2 ^ k ≤ value size →
      2 ^ j ≤ value (Quantity.tolerance * size) := by
    intro j k hjk hj hk
    apply hnear.ge_of_ge (representable_two_zpow hj)
    calc (2 : ℝ) ^ j = 2 ^ (-30 : ℤ) * 2 ^ k := by
          rw [← zpow_add₀ two_ne_zero, ← hjk]; congr 1; ring
      _ ≤ value Quantity.tolerance * value size :=
          mul_le_mul le_value_tolerance hk (two_zpow_pos k).le
            ((two_zpow_pos _).le.trans le_value_tolerance)
  constructor
  · refine ⟨hmean, ?_⟩
    by_contra hlarge
    have hge := hmul 512 542 (by norm_num) (by norm_num) ((not_le.1 hlarge).le.trans hle_mean)
    linarith [le_abs_self (value std), hstd.abs_le]
  · have hge := hmul (-30) 0 (by norm_num) (by norm_num) (by rwa [zpow_zero])
    linarith

/-- What is known of a sample that has a summary, with a spread or without. -/
structure Summarized (xs : List Float) (s : Summary Float) : Prop where
  mean?_eq : mean? xs = some s.mean
  mean : s.mean.isFinite = true
  std : Within 512 s.std
  deviation : ∀ x ∈ xs, Within 512 (x - s.mean)

theorem summarized_of_summarize? (h : summarize? xs = some s) : Summarized xs s := by
  obtain ⟨mean, hmean, h⟩ := Option.bind_eq_some_iff.1 h
  simp only at h
  split at h
  swap
  · cases h
  rename_i hfinite
  obtain rfl := Option.some.inj h
  refine ⟨hmean, ?_, within_sqrt hfinite, ?_⟩
  · unfold mean? at hmean
    split at hmean
    · cases hmean
    · exact isFinite_of_finite? hmean
  · intro x hx
    have hsum := isFinite_of_isFinite_div (isFinite_of_isFinite_sqrt hfinite)
    have hsquare := (isFinite_of_foldl_add hsum).2 _ (List.mem_map_of_mem hx)
    exact within_of_isFinite_square hsquare

theorem spread_of_summarize? (h : summarize? xs = some s) (hflat : s.isFlat = false) :
    Spread xs s := by
  have hs := summarized_of_summarize? h
  obtain ⟨hmean, hle⟩ := spread_of_not_flat hs.mean hs.std hflat
  exact ⟨hs.mean?_eq, hmean, hs.std, hle, hs.deviation⟩

theorem Spread.within (h : Spread xs s) {x : Float} (hx : x ∈ xs) : Within 544 x :=
  Within.of_sub ((h.deviation x hx).mono (by norm_num)) h.mean
    (by decide)

end Stats

end LedgerWatch
