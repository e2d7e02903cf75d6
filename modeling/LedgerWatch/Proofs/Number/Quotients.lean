import LedgerWatch.Number.Binary64
import LedgerWatch.Proofs.Number.Magnitude

namespace LedgerWatch.Binary64

open Float.Model
open Float.Model.UnpackedFloat

section Signs

variable {x y : Float} {q : ℝ}

theorem zero_le_iff (hx : x.isFinite = true) : 0 ≤ x ↔ 0 ≤ value x := by
  rw [le_iff_value rfl hx, value_zero]

theorem zero_lt_iff (hx : x.isFinite = true) : 0 < x ↔ 0 < value x := by
  rw [lt_iff_value rfl hx, value_zero]

theorem zero_le_of_infinity (hx : x.toModel.unpack = .infinity .positive) : 0 ≤ x := by
  rw [le_def, hx]
  rfl

theorem not_isNaN_of_lt (h : x < y) : x.isNaN = false ∧ y.isNaN = false := by
  rw [lt_def, UnpackedFloat.lt, beq_iff_eq] at h
  have hle : x ≤ y := by
    rw [le_def, UnpackedFloat.le, h]
    rfl
  exact not_isNaN_of_le hle

theorem le_of_lt (h : x < y) : x ≤ y := by
  obtain ⟨hx, hy⟩ := not_isNaN_of_lt h
  exact (le_total hx hy).resolve_right ((lt_iff_not_le hx hy).1 h)

theorem not_lt_iff (hx : x.isNaN = false) (hy : y.isNaN = false) : ¬x < y ↔ y ≤ x := by
  rw [lt_iff_not_le hx hy, not_not]

theorem not_le_iff (hx : x.isNaN = false) : ¬x ≤ y ↔ y < x ∨ y.isNaN = true := by
  cases hy : y.isNaN with
  | true => simp [not_le_of_isNaN hy]
  | false => simp [lt_iff_not_le hy hx]

theorem not_ge_iff (hx : x.isNaN = false) : ¬y ≤ x ↔ x < y ∨ y.isNaN = true := by
  cases hy : y.isNaN with
  | true =>
    have hnot : ¬y ≤ x := fun h => by
      rw [(not_isNaN_of_le h).1] at hy
      cases hy
    simp [hnot]
  | false => simp [lt_iff_not_le hx hy]

theorem le_refl_of_not_isNaN (hx : x.isNaN = false) : x ≤ x := (le_total hx hx).elim id id

/-- What is no number apart, a number is finite or infinite with a sign. -/
theorem isFinite_or_infinity (hx : x.isNaN = false) :
    x.isFinite = true ∨ ∃ s, x.toModel.unpack = .infinity s := by
  change x.toModel.unpack.isNaN = false at hx
  change x.toModel.unpack.isFinite = true ∨ _
  cases hu : x.toModel.unpack with
  | notANumber =>
    rw [hu] at hx
    cases hx
  | infinity s => exact .inr ⟨s, rfl⟩
  | zero | finite => exact .inl rfl

theorem value_infinity {s : Sign} (hx : x.toModel.unpack = .infinity s) : value x = 0 := by
  rw [value, hx]
  rfl

theorem infinity_of_zero_le (h : 0 ≤ x) (hx : x.isFinite = false) :
    x.toModel.unpack = .infinity .positive := by
  rcases isFinite_or_infinity (not_isNaN_of_le h).2 with hfinite | ⟨s, hs⟩
  · rw [hfinite] at hx
    cases hx
  · cases s with
    | positive => exact hs
    | negative =>
      rw [le_def, hs] at h
      cases h

theorem zero_le_value (h : 0 ≤ x) : 0 ≤ value x := by
  cases hx : x.isFinite with
  | true => exact (zero_le_iff hx).1 h
  | false => exact (value_infinity (infinity_of_zero_le h hx)).ge

theorem isFinite_of_zero_le_of_le (h : 0 ≤ x) (hy : y.isFinite = true) (hxy : x ≤ y) :
    x.isFinite = true := by
  by_contra hx
  have hinf := infinity_of_zero_le h (Bool.not_eq_true _ ▸ hx)
  rw [le_iff (not_isNaN_of_le h).2 (not_isNaN_of_isFinite hy), hinf] at hxy
  change y.toModel.unpack.isFinite = true at hy
  rcases hv : y.toModel.unpack with _ | _ | _ | ⟨_ | _, m, e, hm⟩ <;> rw [hv] at hy hxy <;>
    simp [place, Prod.Lex.toLex_le_toLex, UnpackedFloat.isFinite] at hy hxy

theorem Rounds.zero_le {z : Float} (h : Rounds q z) (hq : 0 ≤ q) : 0 ≤ z := by
  cases hz : z.isFinite with
  | true => exact (zero_le_iff hz).2 (h.nonneg hq hz)
  | false => exact zero_le_of_infinity (h.eq_infinity_of_nonneg hq hz)

theorem zero_le_abs (hx : x.isNaN = false) : 0 ≤ x.abs := by
  rcases isFinite_or_infinity hx with hfinite | ⟨s, hs⟩
  · rw [zero_le_iff (isFinite_abs x ▸ hfinite), value_abs]
    exact abs_nonneg _
  · refine zero_le_of_infinity ?_
    rw [unpack_abs, hs]
    rfl

end Signs

section Quotients

variable {x y : Float}

theorem div_infinity (hx : x.isFinite = true) {s : Sign} (hy : y.toModel.unpack = .infinity s) :
    ∃ t, (x / y).toModel.unpack = .zero t := by
  change x.toModel.unpack.isFinite = true at hx
  change ∃ t, stored (x.toModel.unpack.div Format.binary64 y.toModel.unpack) = .zero t
  rw [hy]
  cases hu : x.toModel.unpack with
  | notANumber | infinity =>
    rw [hu] at hx
    cases hx
  | zero | finite => exact ⟨_, stored_zero _⟩

theorem isFinite_of_unpack_zero {t : Sign} (hx : x.toModel.unpack = .zero t) :
    x.isFinite = true := by
  change x.toModel.unpack.isFinite = true
  rw [hx]
  rfl

theorem value_of_unpack_zero {t : Sign} (hx : x.toModel.unpack = .zero t) : value x = 0 := by
  rw [value, hx]
  rfl

theorem zero_le_div (hx : x.isFinite = true) (h : 0 ≤ x) (hy : 0 < y) : 0 ≤ x / y := by
  cases hfinite : y.isFinite with
  | true =>
    have hpos := (zero_lt_iff hfinite).1 hy
    exact (rounds_div hx hfinite hpos.ne').zero_le (div_nonneg (zero_le_value h) hpos.le)
  | false =>
    obtain ⟨t, ht⟩ := div_infinity hx (infinity_of_zero_le (le_of_lt hy) hfinite)
    rw [zero_le_iff (isFinite_of_unpack_zero ht), value_of_unpack_zero ht]

theorem zero_lt_one : (0 : Float) < 1 := by
  rw [zero_lt_iff isFinite_one, value_one]
  norm_num

theorem zero_le_one : (0 : Float) ≤ 1 := le_of_lt zero_lt_one

/-- A divisor of at least one does not make a number larger. -/
theorem abs_value_div_le (hx : x.isFinite = true) (hy : 1 ≤ y) :
    (x / y).isFinite = true ∧ |value (x / y)| ≤ |value x| := by
  have hzero : 0 ≤ y := le_trans zero_le_one hy
  cases hfinite : y.isFinite with
  | true =>
    have hone : 1 ≤ value y := by
      rw [← value_one]
      exact (le_iff_value isFinite_one hfinite).1 hy
    have hround := rounds_div hx hfinite (by linarith)
    have hle : |value x / value y| ≤ |value x| := by
      rw [abs_div]
      exact div_le_self (abs_nonneg _) (hone.trans (le_abs_self _))
    exact hround.isFinite_of_abs_le (representable_value hx).abs (abs_value_lt x) hle
  | false =>
    obtain ⟨t, ht⟩ := div_infinity hx (infinity_of_zero_le hzero hfinite)
    refine ⟨isFinite_of_unpack_zero ht, ?_⟩
    rw [value_of_unpack_zero ht, abs_zero]
    exact abs_nonneg _

theorem Within.div_of_one_le {k : ℤ} (hx : Within k x) (hy : 1 ≤ y) : Within k (x / y) := by
  obtain ⟨hfinite, hle⟩ := abs_value_div_le hx.isFinite hy
  exact ⟨hfinite, hle.trans hx.abs_le⟩

theorem zero_lt_of_one_le (h : 1 ≤ y) : 0 < y := by
  rw [lt_iff_not_le (by decide) (not_isNaN_of_le h).2]
  intro hle
  exact (lt_iff_not_le (by decide) (by decide)).1 zero_lt_one (le_trans h hle)

theorem one_le_ofNat {n : ℕ} (hn : 0 < n) : 1 ≤ Float.ofNat n := by
  have hround := rounds_ofNat n
  have hone : (1 : ℝ) ≤ n := by exact_mod_cast hn
  cases hfinite : (Float.ofNat n).isFinite with
  | true =>
    rw [le_iff_value isFinite_one hfinite, value_one]
    exact (hround.nearest_of_isFinite hfinite).ge_of_ge representable_one hone
  | false =>
    rw [le_def, hround.eq_infinity_of_nonneg n.cast_nonneg hfinite]
    rfl

end Quotients

section Clamping

variable {x lo hi : Float}

/-- What is no number stays what it is. -/
theorem clamp_of_isNaN (hx : x.isNaN = true) : clamp x lo hi = x := by
  have hlo : ¬x < lo := fun h => by
    rw [(not_isNaN_of_lt h).1] at hx
    cases hx
  have hhi : ¬hi < x := fun h => by
    rw [(not_isNaN_of_lt h).2] at hx
    cases hx
  rw [clamp, if_neg hlo, if_neg hhi]

theorem le_clamp (hx : x.isNaN = false) (h : lo ≤ hi) :
    lo ≤ clamp x lo hi ∧ clamp x lo hi ≤ hi := by
  obtain ⟨hlo, hhi⟩ := not_isNaN_of_le h
  have hlowered : ∀ z : Float, lo ≤ z →
      lo ≤ (if hi < z then hi else z) ∧ (if hi < z then hi else z) ≤ hi := by
    intro z hz
    split
    · exact ⟨h, le_refl_of_not_isNaN hhi⟩
    · rename_i hle
      exact ⟨hz, (not_lt_iff hhi (not_isNaN_of_le hz).2).1 hle⟩
  unfold clamp
  split
  · exact hlowered lo (le_refl_of_not_isNaN hlo)
  · rename_i hge
    exact hlowered x ((not_lt_iff hx hlo).1 hge)

end Clamping

section Unit

variable {x y : Float}

theorem clamp_zero_one (hx : x.isNaN = false) : 0 ≤ clamp x 0 1 ∧ clamp x 0 1 ≤ 1 :=
  le_clamp hx zero_le_one

theorem smaller_one (h : 0 ≤ x) : 0 ≤ smaller x 1 ∧ smaller x 1 ≤ 1 := by
  have hx := (not_isNaN_of_le h).2
  rw [smaller, hx, if_neg Bool.false_ne_true]
  split
  · exact ⟨zero_le_one, le_refl_of_not_isNaN (by decide)⟩
  · rename_i hgt
    rw [lt_iff_not_le (by decide) hx, not_not] at hgt
    exact ⟨h, hgt⟩

theorem larger_eq_or (x y : Float) : larger x y = x ∨ larger x y = y := by
  unfold larger
  split
  · exact .inr rfl
  · split
    · exact .inr rfl
    · exact .inl rfl

theorem le_larger_left (hx : x.isNaN = false) : x ≤ larger x y := by
  rw [larger, hx, if_neg Bool.false_ne_true]
  split
  · rename_i hlt
    exact le_of_lt hlt
  · exact (le_total hx hx).elim id id

theorem le_larger_right (hx : x.isNaN = false) (hy : y.isNaN = false) : y ≤ larger x y := by
  rw [larger, hx, if_neg Bool.false_ne_true]
  split
  · exact (le_total hy hy).elim id id
  · rename_i hge
    rwa [lt_iff_not_le hx hy, not_not] at hge

end Unit

end LedgerWatch.Binary64
