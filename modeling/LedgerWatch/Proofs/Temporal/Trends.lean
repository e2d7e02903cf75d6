import LedgerWatch.Proofs.Stats.LeastSquares
import LedgerWatch.Temporal.Series

namespace LedgerWatch.Temporal

open Exact

/-- The value at a position lies farther from the line through all values than so many of their
standard deviations. -/
def OffTrend {α : Type} [Quantity α] [LT α] (sigma : α) (ys : List α) (i : ℕ) : Prop :=
  ∃ s line y, Stats.summarize? ys = some s ∧ s.isFlat = false ∧ Stats.fit? ys = some line ∧
    ys[i]? = some y ∧ sigma * s.std < Quantity.abs (y - line.at (Quantity.ofNat i))

section Series

variable {c : Settings} {bands : Bands} {points : List Point}

theorem trend?_eq_some_iff {line : Stats.Line Float} {s : Stats.Summary Float} :
    trend? points = some (line, s) ↔ Stats.summarize? (points.map Point.amount) = some s ∧
      s.isFlat = false ∧ Stats.fit? (points.map Point.amount) = some line := by
  simp only [trend?, bind, Option.bind_eq_some_iff, Option.ite_none_left_eq_some]
  constructor
  · rintro ⟨s', hs, hflat, line', hline, heq⟩
    obtain ⟨rfl, rfl⟩ := Prod.mk.inj (Option.some.inj heq)
    exact ⟨hs, Bool.not_eq_true _ ▸ hflat, hline⟩
  · rintro ⟨hs, hflat, hline⟩
    exact ⟨s, hs, by simp [hflat], line, hline, rfl⟩

theorem mem_trend_iff {f : Finding} : f ∈ c.trend bands points ↔ ∃ line s i p,
    trend? points = some (line, s) ∧ points[i]? = some p ∧
      c.trendSigma * s.std < (p.amount - line.at (Float.ofNat i)).abs ∧
      c.finding bands p ((p.amount - line.at (Float.ofNat i)) / s.std)
        (.trend i (line.at (Float.ofNat i)) (p.amount - line.at (Float.ofNat i))
          (c.trendSigma * s.std)) = f := by
  unfold Settings.trend
  cases htrend : trend? points with
  | none => simp
  | some found =>
    simp only [List.mem_filterMap, Option.ite_none_right_eq_some, Option.some.injEq]
    constructor
    · rintro ⟨⟨p, i⟩, hp, hfar, rfl⟩
      exact ⟨_, _, i, p, rfl, List.mem_zipIdx_iff_getElem?.1 hp, hfar, rfl⟩
    · rintro ⟨line, s, i, p, rfl, hp, hfar, rfl⟩
      exact ⟨(p, i), List.mem_zipIdx_iff_getElem?.2 hp, hfar, rfl⟩

/-- The points that are found are those whose amounts are off the trend. -/
theorem exists_mem_trend_iff {record : ℕ} :
    (∃ f ∈ c.trend bands points, f.record = record) ↔ ∃ i p, points[i]? = some p ∧
      p.record = record ∧ OffTrend c.trendSigma (points.map Point.amount) i := by
  constructor
  · rintro ⟨f, hf, rfl⟩
    obtain ⟨line, s, i, p, htrend, hp, hfar, rfl⟩ := mem_trend_iff.1 hf
    obtain ⟨hs, hflat, hline⟩ := trend?_eq_some_iff.1 htrend
    exact ⟨i, p, hp, rfl, s, line, p.amount, hs, hflat, hline, by rw [List.getElem?_map, hp]; rfl,
      hfar⟩
  · rintro ⟨i, p, hp, rfl, s, line, y, hs, hflat, hline, hy, hfar⟩
    rw [List.getElem?_map, hp] at hy
    obtain rfl := Option.some.inj hy
    exact ⟨_, mem_trend_iff.2 ⟨line, s, i, p, trend?_eq_some_iff.2 ⟨hs, hflat, hline⟩, hp, hfar,
      rfl⟩, rfl⟩

end Series

section Exact

variable {K : Type} [Field K] [LinearOrder K] [IsStrictOrderedRing K] [Root K]

theorem not_offTrend_of_through {ys : List K} (hlen : 2 ≤ ys.length) {l : Stats.Line K}
    (h : ∀ (i : ℕ) y, ys[i]? = some y → y = l.at i) {sigma : K} (hsigma : 0 ≤ sigma) (i : ℕ) :
    ¬OffTrend sigma ys i := by
  rintro ⟨s, line, y, -, hflat, hline, hy, hfar⟩
  have hpos := Stats.pos_of_not_isDegenerate hflat
  have hzero : y - line.at (i : K) = 0 := by
    rw [← Stats.fit_of_through hlen hline h, h i y hy, sub_self]
  have hresidual : Quantity.abs (y - line.at (Quantity.ofNat i)) = |y - line.at (i : K)| := rfl
  rw [hresidual, hzero, abs_zero] at hfar
  exact hfar.not_ge (mul_nonneg hsigma hpos.le)

end Exact

/-- Without rounding the line through at least two values has the least squared residuals of all
lines, and residuals that add up to zero; its slope is a quotient by a positive number. Values that
lie on a line have that line, and none of them is off the trend. What is off the trend is what is
found in a series. -/
theorem trend_of_least_squares :
    (∀ (K : Type) [Field K] [LinearOrder K] [IsStrictOrderedRing K] [Root K] (ys : List K),
      2 ≤ ys.length → ∃ line, Stats.fit? ys = some line ∧
        (∀ l, Stats.squaredResiduals line ys ≤ Stats.squaredResiduals l ys) ∧
        (∀ l, l ≠ line → Stats.squaredResiduals line ys < Stats.squaredResiduals l ys) ∧
        (Stats.residuals line ys).sum = 0 ∧
        (∀ l, (∀ (i : ℕ) y, ys[i]? = some y → y = l.at i) →
          l = line ∧ ∀ sigma, 0 ≤ sigma → ∀ i, ¬OffTrend sigma ys i) ∧
        ∃ yMean sxy sxx, Stats.mean? ys = some yMean ∧
          Stats.crossSums (Quantity.ofNat (ys.length - 1) / Quantity.ofNat 2) yMean 0 ys
            (Quantity.ofNat 0, Quantity.ofNat 0) = (sxy, sxx) ∧
          0 < sxx ∧ line.slope = sxy / sxx) ∧
      ∀ (c : Settings) (bands : Bands) (points : List Point) (record : ℕ),
        (∃ f ∈ c.trend bands points, f.record = record) ↔ ∃ i p, points[i]? = some p ∧
          p.record = record ∧ OffTrend c.trendSigma (points.map Point.amount) i := by
  refine ⟨?_, fun c bands points record => exists_mem_trend_iff⟩
  intro K _ _ _ _ ys hlen
  have hfit := Stats.fit?_eq hlen
  have hne : ys ≠ [] := List.ne_nil_of_length_pos (by omega)
  refine ⟨_, hfit, Stats.squaredResiduals_le hlen hfit,
    fun l => Stats.squaredResiduals_lt hlen hfit, Stats.sum_residuals_fit hlen hfit, ?_, ?_⟩
  · intro l hl
    exact ⟨Stats.fit_of_through hlen hfit hl, fun sigma hsigma =>
      not_offTrend_of_through hlen hl hsigma⟩
  · exact ⟨_, _, _, Stats.mean?_eq hne, Stats.crossSums_centered ys, Stats.squareSum_pos hlen, rfl⟩

/-- Four values on a line, and three that are not: another line has more squared residuals. -/
theorem trend_of_least_squares_odd :
    (∃ line : Stats.Line ℚ, Stats.fit? [1, 3, 5, 7] = some line ∧ ⟨2, 1⟩ = line ∧
        ¬OffTrend 0 ([1, 3, 5, 7] : List ℚ) 3) ∧
      ∃ line : Stats.Line ℚ, Stats.fit? [0, 0, 3] = some line ∧
        Stats.squaredResiduals line [0, 0, 3] < Stats.squaredResiduals ⟨0, 0⟩ [0, 0, 3] := by
  constructor
  · obtain ⟨line, hfit, -, -, -, hthrough, -⟩ :=
      trend_of_least_squares.1 ℚ [1, 3, 5, 7] (by decide)
    have hodd : ∀ (i : ℕ) (y : ℚ), [1, 3, 5, 7][i]? = some y →
        y = (⟨2, 1⟩ : Stats.Line ℚ).at i := by
      intro i y hy
      rcases i with _ | _ | _ | _ | i
      · rw [← Option.some.inj hy]
        norm_num [Stats.Line.at]
      · rw [← Option.some.inj hy]
        norm_num [Stats.Line.at]
      · rw [← Option.some.inj hy]
        norm_num [Stats.Line.at]
      · rw [← Option.some.inj hy]
        norm_num [Stats.Line.at]
      · cases hy
    obtain ⟨hline, hoff⟩ := hthrough _ hodd
    exact ⟨line, hfit, hline, hoff 0 le_rfl 3⟩
  · obtain ⟨line, hfit, -, hless, hsum, -⟩ := trend_of_least_squares.1 ℚ [0, 0, 3] (by decide)
    refine ⟨line, hfit, hless _ ?_⟩
    rintro rfl
    norm_num [Stats.residuals, Stats.Line.at] at hsum

end LedgerWatch.Temporal
