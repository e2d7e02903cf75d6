import LedgerWatch.Proofs.Scores.Deviations
import LedgerWatch.Proofs.Scores.Shares
import LedgerWatch.Proofs.Stats.Spread

namespace LedgerWatch

open Binary64
open Float.Model
open Float.Model.UnpackedFloat

namespace Stats

variable {xs : List Float} {s : Summary Float}

/-- Bounds for the two sums behind a slope. -/
structure SumsWithin (acc : Float × Float) : Prop where
  cross : Within (54 + 577) acc.1
  square : Within (54 + 130) acc.2
  le_square : 2 ^ (-2 : ℤ) ≤ value acc.2

variable {xMean yMean : Float} {ys : List Float} {i : ℕ}

/-- The products that one more point adds to the sums. -/
theorem within_products {x y : Float} (hx : Within 64 x) (hxMean : Within 64 xMean)
    (hy : Within 512 (y - yMean)) :
    Within 577 ((x - xMean) * (y - yMean)) ∧ Within 130 ((x - xMean) * (x - xMean)) := by
  have hdx : Within (64 + 1) (x - xMean) :=
    hx.sub hxMean (by decide)
  exact ⟨hdx.mul hy (by decide),
    hdx.mul hdx (by decide)⟩

theorem sumsWithin_crossSums (hxMean : Within 64 xMean) (hys : ∀ y ∈ ys, Within 512 (y - yMean))
    (hi : i + ys.length < 2 ^ 64) {acc : Float × Float} (h : SumsWithin acc) :
    SumsWithin (crossSums xMean yMean i ys acc) := by
  induction ys generalizing i acc with
  | nil => exact h
  | cons y ys ih =>
    rw [List.forall_mem_cons] at hys
    rw [List.length_cons] at hi
    apply ih hys.2 (by omega)
    obtain ⟨hcross, hsquare⟩ := within_products (within_ofNat (by omega : i < 2 ^ 64)) hxMean hys.1
    have hsum := h.square.add_term hsquare (by norm_num) (by decide)
    refine ⟨h.cross.add_term hcross (by norm_num) (by decide),
      hsum, ?_⟩
    -- a square adds nothing below zero
    have hdx := (isFinite_of_isFinite_mul hsquare.isFinite).1
    have hterm := (rounds_mul hdx hdx).nonneg (mul_self_nonneg _) hsquare.isFinite
    have hnear := (rounds_add h.square.isFinite hsquare.isFinite).nearest_of_isFinite hsum.isFinite
    exact hnear.ge_of_ge (representable_two_zpow (by norm_num)) (by linarith [h.le_square])

/-- The first point is at least one half away from the middle. -/
theorem sumsWithin_first (hxMean : Within 64 xMean) (hle : 2 ^ (-1 : ℤ) ≤ value xMean) {y : Float}
    (hy : Within 512 (y - yMean)) :
    SumsWithin (0 + (0 - xMean) * (y - yMean), 0 + (0 - xMean) * (0 - xMean)) := by
  obtain ⟨hcross, hsquare⟩ := within_products (.zero 64) hxMean hy
  have hsum : Within (54 + 130) (0 + (0 - xMean) * (0 - xMean)) :=
    (Within.zero _).add_term hsquare (by norm_num) (by decide)
  refine ⟨(Within.zero _).add_term hcross (by norm_num)
    (by decide), hsum, ?_⟩
  have hdx := (isFinite_of_isFinite_mul hsquare.isFinite).1
  have hgap : 2 ^ (-1 : ℤ) ≤ |value (0 - xMean)| := by
    apply ((rounds_sub rfl hxMean.isFinite).nearest_of_isFinite hdx).le_abs_of_le_abs
      (representable_two_zpow (by norm_num))
    rw [value_zero, zero_sub, abs_neg]
    exact hle.trans (le_abs_self _)
  have hterm : 2 ^ (-2 : ℤ) ≤ value ((0 - xMean) * (0 - xMean)) := by
    apply ((rounds_mul hdx hdx).nearest_of_isFinite hsquare.isFinite).ge_of_ge
      (representable_two_zpow (by norm_num))
    rw [← abs_mul_abs_self]
    calc (2 : ℝ) ^ (-2 : ℤ) = 2 ^ (-1 : ℤ) * 2 ^ (-1 : ℤ) := by
          rw [← zpow_add₀ two_ne_zero]; norm_num
      _ ≤ _ := mul_le_mul hgap hgap (by positivity) (abs_nonneg _)
  apply ((rounds_add rfl hsquare.isFinite).nearest_of_isFinite hsum.isFinite).ge_of_ge
    (representable_two_zpow (by norm_num))
  rw [value_zero, zero_add]
  exact hterm

theorem value_two : value (Float.ofNat 2) = 2 := by
  have hunpack : (Float.ofNat 2).toModel.unpack =
      .finite .positive (2 ^ 52) (-51) (by decide) := rfl
  rw [value, hunpack, real, signed]
  norm_num

/-- The middle of at least two positions. -/
theorem middle_bounds {n : ℕ} (hn : 1 < n) (hlen : n < 2 ^ 64) :
    Within 64 (Float.ofNat (n - 1) / Float.ofNat 2) ∧
      2 ^ (-1 : ℤ) ≤ value (Float.ofNat (n - 1) / Float.ofNat 2) := by
  have hlast : Within 64 (Float.ofNat (n - 1)) := within_ofNat (by omega)
  have hmiddle : Within 64 (Float.ofNat (n - 1) / Float.ofNat 2) :=
    hlast.div_of_one_le (one_le_ofNat (by norm_num))
  refine ⟨hmiddle, ?_⟩
  have hone : 1 ≤ value (Float.ofNat (n - 1)) := by
    rw [← value_one, ← le_iff_value isFinite_one hlast.isFinite]
    exact one_le_ofNat (by omega)
  have hround := rounds_div hlast.isFinite (within_ofNat (by norm_num : 2 < 2 ^ 64)).isFinite
    (by rw [value_two]; norm_num)
  apply (hround.nearest_of_isFinite hmiddle.isFinite).ge_of_ge
    (representable_two_zpow (by norm_num))
  rw [value_two]
  norm_num
  linarith

theorem Spread.sums (h : Spread xs s) (hxMean : Within 64 xMean)
    (hhalf : 2 ^ (-1 : ℤ) ≤ value xMean) (hpos : 0 < xs.length) (hlen : xs.length < 2 ^ 64) :
    SumsWithin (crossSums xMean s.mean 0 xs (0, 0)) := by
  cases xs with
  | nil => cases hpos
  | cons y ys =>
    obtain ⟨hy, hys⟩ := List.forall_mem_cons.1 h.deviation
    rw [List.length_cons] at hlen
    exact sumsWithin_crossSums hxMean hys (by omega) (sumsWithin_first hxMean hhalf hy)

theorem Spread.line (h : Spread xs s) (hlen : xs.length < 2 ^ 64) {line : Line Float}
    (hfit : fit? xs = some line) :
    Within (54 + 577 - -2) line.slope ∧ Within (54 + 577 - -2 + 64 + 1) line.intercept := by
  unfold fit? at hfit
  split at hfit
  · cases hfit
  rename_i hmany
  simp only [h.mean?_eq, Option.bind_some] at hfit
  split at hfit
  swap
  · cases hfit
  obtain rfl := Option.some.inj hfit
  obtain ⟨hxMean, hhalf⟩ := middle_bounds (by omega : 1 < xs.length) hlen
  have hsums := h.sums hxMean hhalf (by omega) hlen
  have hslope := hsums.cross.div hsums.square.isFinite (hsums.le_square.trans (le_abs_self _))
    (by decide)
  have hrise := hslope.mul hxMean (by decide)
  exact ⟨hslope, (h.mean.mono (by norm_num)).sub hrise
    (by decide)⟩

/-- Neither a residual nor its share of the spread is near the largest double. -/
theorem Spread.isFinite_residual (h : Spread xs s) (hlen : xs.length < 2 ^ 64) {line : Line Float}
    (hfit : fit? xs = some line) {x : Float} (hx : x ∈ xs) {position : ℕ}
    (hposition : position < xs.length) :
    ((x - line.at (Float.ofNat position)) / s.std).isFinite = true := by
  obtain ⟨hslope, hintercept⟩ := h.line hlen hfit
  have hrise : Within (54 + 577 - -2 + 64) (line.slope * Float.ofNat position) :=
    hslope.mul (within_ofNat (hposition.trans hlen)) (by decide)
  have hpredicted : Within (54 + 577 - -2 + 64 + 1 + 1) (line.at (Float.ofNat position)) :=
    (hrise.mono (by norm_num)).add hintercept (by decide)
  have hresidual := ((h.within hx).mono (by norm_num)).sub hpredicted
    (by decide)
  exact (hresidual.div h.std.isFinite (h.le_std.trans (le_abs_self _))
    (by decide)).isFinite

end Stats

namespace Temporal

variable {c : Settings} {bands : Bands} {points : List Point}

theorem isScaled_of_mem_trend (hlen : points.length < 2 ^ 64) {f : Finding}
    (h : f ∈ c.trend bands points) : IsScaled c.scoreScale f.score := by
  unfold Settings.trend at h
  split at h
  · cases h
  rename_i line stats htrend
  simp only [trend?, bind, Option.bind_eq_some_iff] at htrend
  obtain ⟨s, hs, htrend⟩ := htrend
  split at htrend
  · cases htrend
  rename_i hflat
  obtain ⟨l, hfit, htrend⟩ := Option.bind_eq_some_iff.1 htrend
  obtain ⟨rfl, rfl⟩ := Prod.mk.inj (Option.some.inj htrend)
  obtain ⟨⟨p, position⟩, hp, hf⟩ := List.mem_filterMap.1 h
  simp only at hf
  split at hf
  swap
  · cases hf
  obtain rfl := Option.some.inj hf
  have hspread := Stats.spread_of_summarize? hs (Bool.not_eq_true _ ▸ hflat)
  have hamount : p.amount ∈ points.map Point.amount :=
    List.mem_map_of_mem (List.fst_mem_of_mem_zipIdx hp)
  have hposition : position < (points.map Point.amount).length := by
    rw [List.length_map]
    exact List.snd_lt_of_mem_zipIdx hp
  have hlen' : (points.map Point.amount).length < 2 ^ 64 := by rwa [List.length_map]
  exact ⟨_, hspread.isFinite_residual hlen' hfit hamount hposition, rfl⟩

theorem length_series_le (records : List Record) : (series records).length ≤ records.length := by
  unfold series
  rw [List.length_mergeSort]
  exact (List.length_filterMap_le _ _).trans List.length_zipIdx.le

theorem isScaled_of_detect (hc : c.check = .ok ()) {records : List Record}
    (hlen : records.length < 2 ^ 64) {fs : List Finding}
    (h : c.detect bands records = .found fs) : ∀ f ∈ fs, IsScaled c.scoreScale f.score := by
  rw [detect_eq hc] at h
  obtain rfl := Outcome.found.inj h
  intro f hf
  have hmem := (Ranking.firsts_sublist _).subset hf
  rcases List.mem_append.1 hmem with hmem | hmem
  · rcases List.mem_append.1 hmem with hmem | hmem
    · exact isScaled_of_mem_rolling hmem
    · exact isScaled_of_mem_seasonal hmem
  · exact isScaled_of_mem_trend ((length_series_le records).trans_lt hlen) hmem

end Temporal

end LedgerWatch
