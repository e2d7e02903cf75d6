import LedgerWatch.Proofs.Number.Comparison

namespace LedgerWatch.Binary64

open Float.Model
open Float.Model.UnpackedFloat

section Finite

variable {u v : UnpackedFloat} {x y : Float}

theorem isFinite_of_isFinite_stored (h : (stored u).isFinite = true) : u.isFinite = true := by
  cases u with
  | notANumber => cases h
  | infinity s =>
    rw [stored_infinity] at h
    cases h
  | zero | finite => rfl

theorem operands_of_isFinite_add (h : (u.add Format.binary64 v).isFinite = true) :
    u.isFinite = true ∧ v.isFinite = true := by
  rcases u with (_ | _) | _ | _ | _ <;> rcases v with (_ | _) | _ | _ | _
  all_goals first
    | exact ⟨rfl, rfl⟩
    | cases h

theorem isFinite_of_isFinite_add (h : (x + y).isFinite = true) :
    x.isFinite = true ∧ y.isFinite = true :=
  operands_of_isFinite_add (isFinite_of_isFinite_stored h)

theorem isFinite_of_isFinite_sub (h : (x - y).isFinite = true) :
    x.isFinite = true ∧ y.isFinite = true := by
  have hunpacked : ∀ u v : UnpackedFloat, (u.sub Format.binary64 v).isFinite = true →
      u.isFinite = true ∧ v.isFinite = true := by
    rintro ((_ | _) | _ | _ | _) ((_ | _) | _ | _ | _) hsub
    all_goals first
      | exact ⟨rfl, rfl⟩
      | cases hsub
  exact hunpacked _ _ (isFinite_of_isFinite_stored h)

theorem operands_of_isFinite_mul (h : (u.mul Format.binary64 v).isFinite = true) :
    u.isFinite = true ∧ v.isFinite = true := by
  rcases u with _ | _ | _ | _ <;> rcases v with _ | _ | _ | _
  all_goals first
    | exact ⟨rfl, rfl⟩
    | cases h

theorem isFinite_of_isFinite_mul (h : (x * y).isFinite = true) :
    x.isFinite = true ∧ y.isFinite = true :=
  operands_of_isFinite_mul (isFinite_of_isFinite_stored h)

/-- What is divided is finite; the divisor may be infinite. -/
theorem isFinite_of_isFinite_div (h : (x / y).isFinite = true) : x.isFinite = true := by
  have hunpacked : ∀ u v : UnpackedFloat, (u.div Format.binary64 v).isFinite = true →
      u.isFinite = true := by
    rintro (_ | _ | _ | _) (_ | _ | _ | _) hdiv
    all_goals first
      | rfl
      | cases hdiv
  exact hunpacked _ _ (isFinite_of_isFinite_stored h)

theorem operand_of_isFinite_sqrt (h : (u.sqrt Format.binary64).isFinite = true) :
    u.isFinite = true := by
  rcases u with (_ | _) | _ | _ | _
  all_goals first
    | rfl
    | cases h

theorem isFinite_of_isFinite_sqrt (h : x.sqrt.isFinite = true) : x.isFinite = true :=
  operand_of_isFinite_sqrt (isFinite_of_isFinite_stored h)

theorem not_isNaN_of_stored (h : (stored u).isNaN = false) : u.isNaN = false := by
  cases u with
  | notANumber => cases h
  | infinity | zero | finite => rfl

/-- What is no number makes no sum, difference or quotient a number. -/
theorem not_isNaN_of_add (h : (x + y).isNaN = false) : x.isNaN = false ∧ y.isNaN = false := by
  have hunpacked : ∀ u v : UnpackedFloat, (u.add Format.binary64 v).isNaN = false →
      u.isNaN = false ∧ v.isNaN = false := by
    rintro (_ | _) (_ | _) hadd
    all_goals first
      | exact ⟨rfl, rfl⟩
      | cases hadd
  exact hunpacked _ _ (not_isNaN_of_stored h)

theorem not_isNaN_of_sub (h : (x - y).isNaN = false) : x.isNaN = false := by
  have hunpacked : ∀ u v : UnpackedFloat, (u.sub Format.binary64 v).isNaN = false →
      u.isNaN = false := by
    rintro (_ | _) (_ | _) hsub
    all_goals first
      | rfl
      | cases hsub
  exact hunpacked _ _ (not_isNaN_of_stored h)

theorem not_isNaN_of_div (h : (x / y).isNaN = false) : x.isNaN = false := by
  have hunpacked : ∀ u v : UnpackedFloat, (u.div Format.binary64 v).isNaN = false →
      u.isNaN = false := by
    rintro (_ | _) (_ | _) hdiv
    all_goals first
      | rfl
      | cases hdiv
  exact hunpacked _ _ (not_isNaN_of_stored h)

theorem not_isNaN_of_foldl {α : Type} {f : α → Float} {xs : List α} {x : Float}
    (h : (xs.foldl (fun total a => total + f a) x).isNaN = false) :
    x.isNaN = false ∧ ∀ a ∈ xs, (f a).isNaN = false := by
  induction xs generalizing x with
  | nil => exact ⟨h, List.forall_mem_nil _⟩
  | cons a xs ih =>
    obtain ⟨hsum, hrest⟩ := ih h
    obtain ⟨hx, ha⟩ := not_isNaN_of_add hsum
    exact ⟨hx, List.forall_mem_cons.2 ⟨ha, hrest⟩⟩

end Finite

structure Within (k : ℤ) (x : Float) : Prop where
  isFinite : x.isFinite = true
  abs_le : |value x| ≤ 2 ^ k

/-- The powers of two that are doubles. -/
def InRange (k : ℤ) : Prop := -1074 ≤ k ∧ k < 1024

instance (k : ℤ) : Decidable (InRange k) := inferInstanceAs (Decidable (_ ∧ _))

theorem Rounds.within {q : ℝ} {z : Float} {k : ℤ} (h : Rounds q z) (hk : InRange k)
    (hq : |q| ≤ 2 ^ k) : Within k z := by
  obtain ⟨hfinite, hle⟩ := h.isFinite_of_abs_le (representable_two_zpow hk.1)
    (two_zpow_lt_limit hk.2) hq
  exact ⟨hfinite, hle⟩

namespace Within

variable {x y : Float} {j k : ℤ}

theorem mono (h : Within j x) (hjk : j ≤ k) : Within k x :=
  ⟨h.isFinite, h.abs_le.trans (two_zpow_le_of_le hjk)⟩

theorem zero (k : ℤ) : Within k 0 :=
  ⟨rfl, by rw [value_zero, abs_zero]; exact (two_zpow_pos k).le⟩

theorem two_mul_zpow (k : ℤ) : (2 : ℝ) ^ k + 2 ^ k = 2 ^ (k + 1) := by
  rw [zpow_add_one₀ two_ne_zero]
  ring

theorem add (hx : Within k x) (hy : Within k y) (hk : InRange (k + 1)) :
    Within (k + 1) (x + y) := by
  refine (rounds_add hx.isFinite hy.isFinite).within hk ?_
  rw [← two_mul_zpow]
  exact (abs_add_le _ _).trans (add_le_add hx.abs_le hy.abs_le)

theorem sub (hx : Within k x) (hy : Within k y) (hk : InRange (k + 1)) :
    Within (k + 1) (x - y) := by
  refine (rounds_sub hx.isFinite hy.isFinite).within hk ?_
  rw [← two_mul_zpow]
  exact (abs_sub _ _).trans (add_le_add hx.abs_le hy.abs_le)

theorem mul (hx : Within j x) (hy : Within k y) (hk : InRange (j + k)) :
    Within (j + k) (x * y) := by
  refine (rounds_mul hx.isFinite hy.isFinite).within hk ?_
  rw [abs_mul, zpow_add₀ two_ne_zero]
  exact mul_le_mul hx.abs_le hy.abs_le (abs_nonneg _) (two_zpow_pos j).le

theorem div (hx : Within j x) (hy : y.isFinite = true) (hle : 2 ^ k ≤ |value y|)
    (hk : InRange (j - k)) : Within (j - k) (x / y) := by
  have hpos : 0 < |value y| := (two_zpow_pos k).trans_le hle
  refine (rounds_div hx.isFinite hy (abs_pos.1 hpos)).within hk ?_
  rw [abs_div, zpow_sub₀ two_ne_zero]
  exact div_le_div₀ (two_zpow_pos j).le hx.abs_le (two_zpow_pos k) hle

/-- One more term does not lift a sum over the bound. -/
theorem add_term (hx : Within (54 + k) x) (hy : Within k y) (hk : -1074 ≤ k)
    (hk' : InRange (54 + k + 1)) : Within (54 + k) (x + y) := by
  have hsum : Within (54 + k + 1) (x + y) := hx.add (hy.mono (by omega)) hk'
  have hnear := (rounds_add hx.isFinite hy.isFinite).nearest_of_isFinite hsum.isFinite
  exact ⟨hsum.isFinite, hnear.abs_le_of_add hk hx.abs_le hy.abs_le⟩

/-- A sum of any length is bounded by its terms. -/
theorem foldl {α : Type} {f : α → Float} {xs : List α} (hk : -1074 ≤ k)
    (hk' : InRange (54 + k + 1)) (h : ∀ a ∈ xs, Within k (f a)) (hx : Within (54 + k) x) :
    Within (54 + k) (xs.foldl (fun total a => total + f a) x) := by
  induction xs generalizing x with
  | nil => exact hx
  | cons a xs ih =>
    have hterm := h a List.mem_cons_self
    exact ih (fun b hb => h b (List.mem_cons_of_mem a hb)) (hx.add_term hterm hk hk')

end Within

end LedgerWatch.Binary64
