import LedgerWatch.Proofs.Stats.Exact
import LedgerWatch.Stats.Standardize

namespace LedgerWatch

namespace Exact

/-- Numbers of an ordered field with missing ones among them. What is made of a missing number is
missing, and only the larger of two numbers passes over it. -/
scoped instance (priority := low) gaps {K : Type} [Field K] [LinearOrder K] [Root K] :
    Quantity (Option K) where
  add := Option.map₂ (· + ·)
  sub := Option.map₂ (· - ·)
  mul := Option.map₂ (· * ·)
  div := Option.map₂ (· / ·)
  ofNat n := some n
  sqrt := Option.map Root.root
  abs := Option.map fun x => |x|
  larger := Option.merge max
  atMost x y := (Option.map₂ (fun a b => decide (a ≤ b)) x y).getD false
  isFinite := Option.isSome
  isMissing := Option.isNone
  tolerance := some ((10 ^ 9 : ℕ) : K)⁻¹

end Exact

namespace Stats

open Exact

section Samples

variable {K : Type} [Field K] [CharZero K] {xs : List K}

theorem average_map_sub_div (h : xs ≠ []) (c d : K) :
    average (xs.map fun x => (x - c) / d) = (average xs - c) / d := by
  have hsum : ∀ ys : List K, (ys.map fun x => (x - c) / d).sum = (ys.sum - ys.length * c) / d := by
    intro ys
    induction ys with
    | nil => simp
    | cons y ys ih =>
      rw [List.map_cons, List.sum_cons, ih, List.sum_cons, List.length_cons, Nat.cast_succ]
      ring
  have hlen : (xs.length : K) ≠ 0 := by simpa using h
  rw [average, hsum, List.length_map, average]
  field_simp

theorem variance_map_sub_div (h : xs ≠ []) (c d : K) :
    variance (xs.map fun x => (x - c) / d) = variance xs / d ^ 2 := by
  have hdeviation : ∀ (m : K) (ys : List K),
      deviation ((m - c) / d) (ys.map fun x => (x - c) / d) = deviation m ys / d ^ 2 := by
    intro m ys
    induction ys with
    | nil => simp
    | cons y ys ih =>
      rw [List.map_cons, deviation_cons, ih, deviation_cons]
      ring
  rw [variance, average_map_sub_div h, hdeviation, List.length_map, variance]
  ring

end Samples

section Columns

variable {K : Type} [Field K] [LinearOrder K] [Root K]

theorem present_eq (column : List (Option K)) :
    present column = column.reduceOption.map some := by
  induction column with
  | nil => rfl
  | cons x column ih =>
    cases x with
    | none => exact ih
    | some x => exact congrArg (some x :: ·) ih

theorem sum_map_some (xs : List K) : sum (xs.map some) = some (sum xs) := by
  rw [sum, List.foldl_map, sum]
  exact List.foldl_hom some fun _ _ => rfl

theorem summarize?_map_some {xs : List K} (h : xs ≠ []) : summarize? (xs.map some) =
    some ⟨xs.length, some (average xs), some (Root.root (variance xs))⟩ := by
  have hmean : mean? (xs.map some) = some (some (average xs)) := by
    rw [mean?, if_neg (by simpa using h), sum_map_some, sum_eq, List.length_map]
    rfl
  have hdeviation : sum ((xs.map some).map (squaredDeviation (some (average xs)))) =
      some (deviation (average xs) xs) := by
    rw [List.map_map, deviation, ← sum_eq, ← sum_map_some, List.map_map]
    congr 2
    funext x
    exact congrArg some (sq (x - average xs)).symm
  rw [summarize?, hmean, Option.bind_some, hdeviation, List.length_map]
  rfl

/-- What becomes of a number in a column with such present ones. -/
def standardized (xs : List K) (x : K) : K :=
  (x - average xs) / scale ⟨xs.length, average xs, Root.root (variance xs)⟩

theorem scale_map_some (s : Summary K) :
    scale (⟨s.count, some s.mean, some s.std⟩ : Summary (Option K)) = some (scale s) := by
  have hflat : (⟨s.count, some s.mean, some s.std⟩ : Summary (Option K)).isFlat = s.isFlat := rfl
  rw [scale, scale, hflat]
  split <;> rfl

theorem standardizeColumn_eq {column : List (Option K)} (h : column.reduceOption ≠ []) :
    standardizeColumn column = column.map (Option.map (standardized column.reduceOption)) := by
  rw [standardizeColumn, columnSummary?, present_eq, summarize?_map_some h]
  apply List.map_congr_left
  intro x _
  cases x with
  | none => rfl
  | some x =>
    have hpresent : ¬Quantity.isMissing (some x) = true := Bool.false_ne_true
    rw [rescale]
    dsimp only
    rw [if_neg hpresent, scale_map_some
      ⟨_, average column.reduceOption, Root.root (variance column.reduceOption)⟩]
    rfl

/-- Values without a spread are only moved. -/
theorem standardized_of_flat {xs : List K}
    (h : isDegenerate (Root.root (variance xs)) (average xs) = true) (x : K) :
    standardized xs x = x - average xs := by
  rw [standardized, scale, Summary.isFlat, if_pos h]
  exact (congrArg (_ / ·) Nat.cast_one).trans (div_one _)

end Columns

section Spread

variable {K : Type} [Field K] [LinearOrder K] [IsStrictOrderedRing K] [Root K] {xs : List K}

theorem scale_pos (s : Summary K) : 0 < scale s := by
  unfold scale
  split
  · exact Nat.cast_pos.2 one_pos
  · rename_i hspread
    exact pos_of_not_isDegenerate (Bool.eq_false_iff.2 hspread)

theorem strictMono_standardized (xs : List K) : StrictMono (standardized xs) := by
  intro x y hxy
  exact div_lt_div_of_pos_right (sub_lt_sub_right hxy _) (scale_pos _)

theorem average_standardized (h : xs ≠ []) : average (xs.map (standardized xs)) = 0 := by
  unfold standardized
  rw [average_map_sub_div h, sub_self, zero_div]

end Spread

/-- Values with a spread have a variance of one afterwards. -/
theorem variance_standardized {xs : List ℝ} (h : xs ≠ [])
    (hspread : isDegenerate √(variance xs) (average xs) = false) :
    variance (xs.map (standardized xs)) = 1 := by
  have hroot : 0 < √(variance xs) := pos_of_not_isDegenerate hspread
  have hpos : 0 < variance xs := Real.sqrt_pos.1 hroot
  have hscale : scale ⟨xs.length, average xs, √(variance xs)⟩ = √(variance xs) :=
    if_neg (by simp [Summary.isFlat, hspread])
  rw [show standardized xs = fun x => (x - average xs) / √(variance xs) from
    funext fun x => congrArg (_ / ·) hscale, variance_map_sub_div h, Real.sq_sqrt hpos.le,
    div_self hpos.ne']

end Stats

end LedgerWatch
