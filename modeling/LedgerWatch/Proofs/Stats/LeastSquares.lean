import LedgerWatch.Proofs.Stats.Exact
import LedgerWatch.Stats.Line

namespace LedgerWatch.Stats

open Exact

section Lines

variable {K : Type} [Field K] [LinearOrder K] [Root K]

/-- How far the values at the positions of a list lie above a line. -/
def residuals (l : Line K) (ys : List K) : List K := ys.zipIdx.map fun m => m.1 - l.at m.2

def squaredResiduals (l : Line K) (ys : List K) : K := ((residuals l ys).map fun r => r ^ 2).sum

/-- The mean of the positions of a list. -/
def middle (ys : List K) : K := ((ys.length - 1 : ℕ) : K) / (2 : ℕ)

/-- How far the mean of the values lies above a line in the middle. -/
def lift (l : Line K) (ys : List K) : K := average ys - l.at (middle ys)

/-- A sum over the points of a list, taken by what position and value deviate from their means. -/
def centered (ys : List K) (f : K → K → K) : K :=
  (ys.zipIdx.map fun m => f (m.2 - middle ys) (m.1 - average ys)).sum

def squareSum (ys : List K) : K := centered ys fun u _ => u * u

def crossSum (ys : List K) : K := centered ys fun u v => u * v

theorem crossSums_eq (xMean yMean : K) (i : ℕ) (ys : List K) (sxy sxx : K) :
    crossSums xMean yMean i ys (sxy, sxx) =
      (sxy + ((ys.zipIdx i).map fun m => (m.2 - xMean) * (m.1 - yMean)).sum,
        sxx + ((ys.zipIdx i).map fun m => (m.2 - xMean) * (m.2 - xMean)).sum) := by
  induction ys generalizing i sxy sxx with
  | nil =>
    simp only [List.zipIdx_nil, List.map_nil, List.sum_nil, add_zero]
    rfl
  | cons y ys ih =>
    rw [List.zipIdx_cons, List.map_cons, List.map_cons, List.sum_cons, List.sum_cons, ← add_assoc,
      ← add_assoc]
    exact ih (i + 1) _ _

theorem crossSums_centered (ys : List K) :
    crossSums (middle ys) (average ys) 0 ys (((0 : ℕ) : K), ((0 : ℕ) : K)) =
      (crossSum ys, squareSum ys) := by
  rw [crossSums_eq, Nat.cast_zero, zero_add, zero_add]
  rfl

theorem fit?_eq {ys : List K} (hlen : 2 ≤ ys.length) :
    fit? ys = some ⟨crossSum ys / squareSum ys,
      average ys - crossSum ys / squareSum ys * middle ys⟩ := by
  have hne : ys ≠ [] := List.ne_nil_of_length_pos (by omega)
  have hfit : fit? ys =
      let sums := crossSums (middle ys) (average ys) 0 ys (((0 : ℕ) : K), ((0 : ℕ) : K))
      some ⟨sums.1 / sums.2, average ys - sums.1 / sums.2 * middle ys⟩ := by
    rw [fit?, if_neg (Nat.not_lt.2 hlen), mean?_eq hne]
    rfl
  rw [hfit, crossSums_centered]

section Sums

variable (ys : List K) (f g : K → K → K) (c : K)

theorem centered_add :
    centered ys (fun u v => f u v + g u v) = centered ys f + centered ys g :=
  List.sum_map_add

theorem centered_mul_left : centered ys (fun u v => c * f u v) = c * centered ys f :=
  List.sum_map_mul_left ..

theorem centered_const : centered ys (fun _ _ => c) = ys.length * c := by
  rw [centered, List.map_const', List.sum_replicate, List.length_zipIdx, nsmul_eq_mul]

theorem sum_map_sub_const {ι : Type} (h : ι → K) (xs : List ι) :
    (xs.map fun x => h x - c).sum = (xs.map h).sum - xs.length * c := by
  induction xs with
  | nil => simp
  | cons x xs ih =>
    rw [List.map_cons, List.map_cons, List.sum_cons, List.sum_cons, ih, List.length_cons]
    push_cast
    ring

theorem two_mul_sum_positions (start : ℕ) :
    2 * ((ys.zipIdx start).map fun m => (m.2 : K)).sum =
      ys.length * (2 * start + ys.length - 1) := by
  induction ys generalizing start with
  | nil => simp
  | cons y ys ih =>
    rw [List.zipIdx_cons, List.map_cons, List.sum_cons, mul_add, ih, List.length_cons]
    push_cast
    ring

variable [IsStrictOrderedRing K]

/-- Positions deviate from their mean to both sides alike. -/
theorem centered_position : centered ys (fun u _ => u) = 0 := by
  rcases Nat.eq_zero_or_pos ys.length with hzero | hpos
  · rw [List.length_eq_zero_iff.1 hzero]
    rfl
  · have hpositions := two_mul_sum_positions ys 0
    rw [centered, sum_map_sub_const, List.length_zipIdx, middle, Nat.cast_sub hpos]
    push_cast at hpositions ⊢
    linear_combination hpositions / 2

theorem centered_value : centered ys (fun _ v => v) = 0 := by
  rw [centered, sum_map_sub_const, List.length_zipIdx, length_mul_average, List.zipIdx_map_fst,
    sub_self]

theorem squareSum_pos {ys : List K} (hlen : 2 ≤ ys.length) : 0 < squareSum ys := by
  have hmiddle : 0 < middle ys := by
    have hlast : (0 : K) < (ys.length - 1 : ℕ) := Nat.cast_pos.2 (by omega)
    have htwo : (0 : K) < (2 : ℕ) := Nat.cast_pos.2 two_pos
    exact div_pos hlast htwo
  obtain ⟨y, rest, rfl⟩ := List.exists_cons_of_length_pos (by omega : 0 < ys.length)
  rw [squareSum, centered, List.zipIdx_cons, List.map_cons, List.sum_cons]
  apply add_pos_of_pos_of_nonneg
  · rw [Nat.cast_zero, zero_sub, neg_mul_neg]
    exact mul_pos hmiddle hmiddle
  · apply List.sum_nonneg
    intro x hx
    obtain ⟨m, -, rfl⟩ := List.mem_map.1 hx
    exact mul_self_nonneg _

end Sums

section Least

variable (l : Line K) (ys : List K)

theorem residual_eq (x y : K) : y - l.at x =
    (y - average ys) + -l.slope * (x - middle ys) + lift l ys := by
  rw [lift, Line.at, Line.at]
  ring

variable [IsStrictOrderedRing K]

theorem sum_residuals : (residuals l ys).sum = ys.length * lift l ys := by
  have hcentered : (residuals l ys).sum =
      centered ys fun u v => v + -l.slope * u + lift l ys := by
    rw [residuals, centered]
    simp only [residual_eq l ys]
  rw [hcentered, centered_add, centered_add, centered_mul_left, centered_value, centered_position,
    centered_const]
  ring

theorem squaredResiduals_eq : squaredResiduals l ys =
    centered ys (fun _ v => v * v) - 2 * l.slope * crossSum ys + l.slope ^ 2 * squareSum ys +
      ys.length * lift l ys ^ 2 := by
  have hsquare : ∀ u v : K, (v + -l.slope * u + lift l ys) ^ 2 = v * v +
      -(2 * l.slope) * (u * v) + l.slope ^ 2 * (u * u) + 2 * lift l ys * v +
        -(2 * l.slope * lift l ys) * u + lift l ys ^ 2 := by
    intro u v
    ring
  have hcentered : squaredResiduals l ys = centered ys fun u v => v * v +
      -(2 * l.slope) * (u * v) + l.slope ^ 2 * (u * u) + 2 * lift l ys * v +
        -(2 * l.slope * lift l ys) * u + lift l ys ^ 2 := by
    rw [squaredResiduals, residuals, List.map_map, centered]
    simp only [← hsquare, ← residual_eq l ys]
    rfl
  rw [hcentered, centered_add, centered_add, centered_add, centered_add, centered_add,
    centered_mul_left, centered_mul_left, centered_mul_left, centered_mul_left, centered_value,
    centered_position, centered_const, crossSum, squareSum]
  ring

variable {l ys} {line : Line K} (hlen : 2 ≤ ys.length) (hfit : fit? ys = some line)
include hlen hfit

/-- The fitted line goes through the mean of the points. -/
theorem lift_fit : lift line ys = 0 := by
  rw [fit?_eq hlen] at hfit
  rw [← Option.some.inj hfit, lift, Line.at]
  ring

theorem slope_fit : line.slope * squareSum ys = crossSum ys := by
  rw [fit?_eq hlen] at hfit
  rw [← Option.some.inj hfit]
  exact div_mul_cancel₀ _ (squareSum_pos hlen).ne'

theorem sum_residuals_fit : (residuals line ys).sum = 0 := by
  rw [sum_residuals, lift_fit hlen hfit, mul_zero]

/-- What another line has more in squared residuals than the fitted one. -/
theorem squaredResiduals_eq_fit : squaredResiduals l ys = squaredResiduals line ys +
    (squareSum ys * (l.slope - line.slope) ^ 2 + ys.length * lift l ys ^ 2) := by
  rw [squaredResiduals_eq, squaredResiduals_eq, lift_fit hlen hfit, ← slope_fit hlen hfit]
  ring

theorem squaredResiduals_lt (hne : l ≠ line) :
    squaredResiduals line ys < squaredResiduals l ys := by
  have hcount : (0 : K) < ys.length := Nat.cast_pos.2 (by omega)
  have hsquare := squareSum_pos hlen
  rw [squaredResiduals_eq_fit (l := l) hlen hfit, lt_add_iff_pos_right]
  by_cases hslope : l.slope = line.slope
  · -- lines of one slope differ in the middle as they differ everywhere
    have hlift : lift l ys ≠ 0 := by
      intro hzero
      apply hne
      have hmiddle := hzero.trans (lift_fit hlen hfit).symm
      rw [lift, lift, Line.at, Line.at, hslope] at hmiddle
      have hintercept : l.intercept = line.intercept := by linear_combination -hmiddle
      cases l
      cases line
      exact congrArg₂ Line.mk hslope hintercept
    positivity
  · have hgap : l.slope - line.slope ≠ 0 := sub_ne_zero.2 hslope
    positivity

theorem squaredResiduals_le (l : Line K) : squaredResiduals line ys ≤ squaredResiduals l ys := by
  by_cases hne : l = line
  · rw [hne]
  · exact (squaredResiduals_lt hlen hfit hne).le

/-- A line through all points is the fitted one. -/
theorem fit_of_through (h : ∀ (i : ℕ) y, ys[i]? = some y → y = l.at i) : l = line := by
  have hzero : squaredResiduals l ys = 0 := by
    apply List.sum_eq_zero
    intro x hx
    obtain ⟨r, hr, rfl⟩ := List.mem_map.1 hx
    obtain ⟨m, hm, rfl⟩ := List.mem_map.1 hr
    rw [h m.2 m.1 (List.mem_zipIdx_iff_getElem?.1 hm), sub_self]
    exact zero_pow two_ne_zero
  by_contra hne
  have hlt := squaredResiduals_lt hlen hfit hne
  rw [hzero] at hlt
  refine hlt.not_ge (List.sum_nonneg ?_)
  intro x hx
  obtain ⟨r, -, rfl⟩ := List.mem_map.1 hx
  exact sq_nonneg r

end Least

end Lines

end LedgerWatch.Stats
