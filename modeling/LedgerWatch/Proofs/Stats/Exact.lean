import Mathlib
import LedgerWatch.Stats.Summary

/-!
Statistics without rounding. The numbers of an ordered field are quantities on which every operation
of the statistics is exact and every result finite, so there a summary has the mean and the variance
of its sample. The real numbers have square roots as well; for the rational numbers and for other
fields anything may stand for them that takes zero to zero.
-/

namespace LedgerWatch

/-- What stands for the square root among the numbers of a field. -/
class Root (K : Type) [Field K] where
  root : K → K
  root_zero : root 0 = 0

noncomputable instance : Root ℝ := ⟨Real.sqrt, Real.sqrt_zero⟩

instance : Root ℚ := ⟨Rat.sqrt, by decide⟩

namespace Exact

/-- The numbers of an ordered field are quantities where this namespace is open. -/
scoped instance (priority := low) quantity {K : Type} [Field K] [LinearOrder K] [Root K] :
    Quantity K where
  ofNat n := n
  sqrt := Root.root
  abs x := |x|
  larger := max
  atMost x y := decide (x ≤ y)
  isFinite _ := true
  isMissing _ := false
  tolerance := ((10 ^ 9 : ℕ) : K)⁻¹

end Exact

namespace Stats

open Exact

section Samples

variable {K : Type} [Field K]

def average (xs : List K) : K := xs.sum / xs.length

/-- The sum of the squared deviations from a point. -/
def deviation (c : K) (xs : List K) : K := (xs.map fun x => (x - c) ^ 2).sum

def variance (xs : List K) : K := deviation (average xs) xs / xs.length

@[simp] theorem deviation_nil (c : K) : deviation c [] = 0 := rfl

@[simp] theorem deviation_cons (c x : K) (xs : List K) :
    deviation c (x :: xs) = (x - c) ^ 2 + deviation c xs := List.sum_cons

@[simp] theorem deviation_append (c : K) (xs ys : List K) :
    deviation c (xs ++ ys) = deviation c xs + deviation c ys := by
  rw [deviation, List.map_append, List.sum_append, deviation, deviation]

theorem average_of_perm {xs ys : List K} (h : xs.Perm ys) : average xs = average ys := by
  rw [average, average, h.sum_eq, h.length_eq]

theorem deviation_of_perm {xs ys : List K} (h : xs.Perm ys) (c : K) :
    deviation c xs = deviation c ys := (h.map _).sum_eq

theorem variance_of_perm {xs ys : List K} (h : xs.Perm ys) : variance xs = variance ys := by
  rw [variance, variance, average_of_perm h, deviation_of_perm h, h.length_eq]

theorem deviation_replicate (c x : K) (n : ℕ) :
    deviation c (List.replicate n x) = n * (x - c) ^ 2 := by
  rw [deviation, List.map_replicate, List.sum_replicate, nsmul_eq_mul]

variable [CharZero K]

theorem length_mul_average (xs : List K) : xs.length * average xs = xs.sum := by
  rcases eq_or_ne xs [] with rfl | hne
  · simp
  · have hlen : (xs.length : K) ≠ 0 := by simpa using hne
    rw [average, mul_div_cancel₀ _ hlen]

/-- From another point than the mean the deviation is larger by the distance to it. -/
theorem deviation_eq (c : K) (xs : List K) :
    deviation c xs = deviation (average xs) xs + xs.length * (average xs - c) ^ 2 := by
  have hshift : ∀ (m : K) (ys : List K), deviation c ys =
      deviation m ys + 2 * (m - c) * (ys.sum - ys.length * m) + ys.length * (m - c) ^ 2 := by
    intro m ys
    induction ys with
    | nil => simp
    | cons y ys ih =>
      rw [deviation_cons, ih, deviation_cons, List.sum_cons, List.length_cons, Nat.cast_succ]
      ring
  rw [hshift (average xs) xs, length_mul_average, sub_self, mul_zero, add_zero]

/-- The mean moves by its share of the distance to a new value. -/
theorem average_cons (x : K) (xs : List K) :
    average (x :: xs) = average xs + (x - average xs) / (xs.length + 1 : ℕ) := by
  rw [average, List.sum_cons, ← length_mul_average xs, List.length_cons]
  field_simp
  push_cast
  ring

theorem deviation_average_cons (x : K) (xs : List K) :
    deviation (average (x :: xs)) (x :: xs) =
      deviation (average xs) xs + (x - average xs) * (x - average (x :: xs)) := by
  rw [deviation_cons, deviation_eq (average (x :: xs)) xs, average_cons]
  field_simp
  push_cast
  ring

/-- The mean of two lists lies between their means, where their lengths put it. -/
theorem average_append {xs : List K} (hxs : xs ≠ []) (ys : List K) : average (xs ++ ys) =
    average xs + (average ys - average xs) * ys.length / (xs.length + ys.length : ℕ) := by
  have hlen : ((xs.length + ys.length : ℕ) : K) ≠ 0 := by
    have hpos := List.length_pos_of_ne_nil hxs
    exact Nat.cast_ne_zero.2 (by omega)
  rw [average, List.sum_append, ← length_mul_average xs, ← length_mul_average ys,
    List.length_append]
  field_simp
  push_cast
  ring

theorem deviation_average_append {xs : List K} (hxs : xs ≠ []) (ys : List K) :
    deviation (average (xs ++ ys)) (xs ++ ys) =
      deviation (average xs) xs + deviation (average ys) ys +
        (average ys - average xs) * (average ys - average xs) * xs.length * ys.length /
          (xs.length + ys.length : ℕ) := by
  have hlen : ((xs.length + ys.length : ℕ) : K) ≠ 0 := by
    have hpos := List.length_pos_of_ne_nil hxs
    exact Nat.cast_ne_zero.2 (by omega)
  rw [deviation_append, deviation_eq (average (xs ++ ys)) xs, deviation_eq (average (xs ++ ys)) ys,
    average_append hxs]
  field_simp
  push_cast
  ring

theorem average_replicate {n : ℕ} (hn : n ≠ 0) (x : K) : average (List.replicate n x) = x := by
  have hlen : (n : K) ≠ 0 := Nat.cast_ne_zero.2 hn
  rw [average, List.sum_replicate, List.length_replicate, nsmul_eq_mul, mul_div_cancel_left₀ _ hlen]

theorem variance_eq_zero {xs : List K} {c : K} (h : ∀ x ∈ xs, x = c) : variance xs = 0 := by
  obtain ⟨n, rfl⟩ : ∃ n, xs = List.replicate n c := ⟨xs.length, List.eq_replicate_of_mem h⟩
  rcases eq_or_ne n 0 with rfl | hn
  · simp [variance]
  · rw [variance, average_replicate hn, deviation_replicate, sub_self, zero_pow two_ne_zero,
      mul_zero, zero_div]

end Samples

section Order

variable {K : Type} [Field K] [LinearOrder K] [IsStrictOrderedRing K]

theorem deviation_nonneg (c : K) (xs : List K) : 0 ≤ deviation c xs := by
  apply List.sum_nonneg
  intro y hy
  obtain ⟨x, -, rfl⟩ := List.mem_map.1 hy
  exact sq_nonneg _

end Order

section Field

variable {K : Type} [Field K] [LinearOrder K] [Root K]

theorem sum_eq (xs : List K) : sum xs = xs.sum := by
  rw [List.sum_eq_foldl]
  exact congrArg (fun x => xs.foldl (· + ·) x) Nat.cast_zero

theorem mean?_eq {xs : List K} (h : xs ≠ []) : mean? xs = some (average xs) := by
  rw [mean?, if_neg h, sum_eq]
  rfl

theorem summarize?_eq {xs : List K} (h : xs ≠ []) :
    summarize? xs = some ⟨xs.length, average xs, Root.root (variance xs)⟩ := by
  have hdeviation : sum (xs.map (squaredDeviation (average xs))) = deviation (average xs) xs := by
    rw [sum_eq, deviation]
    congr 2
    funext x
    exact (sq (x - average xs)).symm
  rw [summarize?, mean?_eq h, Option.bind_some, hdeviation]
  rfl

theorem isDegenerate_iff {std mean : K} :
    isDegenerate std mean = true ↔
      std ≤ ((10 ^ 9 : ℕ) : K)⁻¹ * max |mean| ((1 : ℕ) : K) :=
  decide_eq_true_iff

theorem zScore?_eq {value mean std : K} (h : isDegenerate std mean = false) :
    zScore? value mean std = some ((value - mean) / std) := by
  rw [zScore?, h]
  rfl

theorem zScore?_eq_some_iff {value mean std z : K} :
    zScore? value mean std = some z ↔ isDegenerate std mean = false ∧ (value - mean) / std = z := by
  cases h : isDegenerate std mean with
  | true => simp [zScore?, h]
  | false => rw [zScore?_eq h, Option.some.injEq, eq_self, true_and]

variable [IsStrictOrderedRing K]

theorem isDegenerate_zero (mean : K) : isDegenerate 0 mean = true := by
  rw [isDegenerate_iff]
  positivity

theorem pos_of_not_isDegenerate {std mean : K} (h : isDegenerate std mean = false) : 0 < std := by
  have hnot : ¬isDegenerate std mean = true := by simp [h]
  rw [isDegenerate_iff, not_le] at hnot
  refine lt_of_le_of_lt ?_ hnot
  positivity

end Field

end Stats

end LedgerWatch
