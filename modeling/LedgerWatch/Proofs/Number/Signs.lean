import LedgerWatch.Proofs.Number.Extremes
import LedgerWatch.Proofs.Number.Mixtures
import LedgerWatch.Proofs.Number.Parts

namespace LedgerWatch.Binary64

open Float.Model
open Float.Model.UnpackedFloat

/-- A number, finite or infinite, with a plus sign. -/
def Plus : UnpackedFloat → Prop
  | .infinity .positive => True
  | .zero .positive => True
  | .finite .positive _ _ _ => True
  | _ => False

/-- A double that is a number and has no minus sign. -/
def IsPlus (x : Float) : Prop := Plus x.toModel.unpack

section Operations

variable {u v : UnpackedFloat} {x y : Float}

theorem plus_roundWithAccuracy (m : ℕ) (e : ℤ) (acc : Accuracy) :
    Plus (roundWithAccuracy Format.binary64 .positive m e acc) := by
  simp only [roundWithAccuracy]
  split <;> trivial

theorem plus_normalize {k : ℤ} (hk : 0 ≤ k) (e : ℤ) :
    Plus (UnpackedFloat.normalize Format.binary64 k e .positive) := by
  unfold UnpackedFloat.normalize
  rcases hk.eq_or_lt with rfl | hpos
  · trivial
  · rw [compare_gt_iff_gt.2 hpos]
    exact plus_roundWithAccuracy _ _ _

theorem plus_add (hu : Plus u) (hv : Plus v) : Plus (u.add Format.binary64 v) := by
  rcases u with (_ | _) | _ | (_ | _) | ⟨_ | _, m, e, hm⟩ <;> try exact hu.elim
  all_goals
    rcases v with (_ | _) | _ | (_ | _) | ⟨_ | _, m', e', hm'⟩ <;> try exact hv.elim
  all_goals try trivial
  refine plus_normalize (add_nonneg ?_ ?_) _
  · exact Int.natCast_nonneg _
  · exact Int.natCast_nonneg _

theorem plus_mul_self (hu : u.isNaN = false) : Plus (u.mul Format.binary64 u) := by
  rcases u with (_ | _) | _ | (_ | _) | ⟨_ | _, m, e, hm⟩
  · trivial
  · trivial
  · cases hu
  · trivial
  · trivial
  · exact plus_roundWithAccuracy _ _ _
  · exact plus_roundWithAccuracy _ _ _

theorem plus_div (hu : Plus u) (hv : Plus v) (hzero : real v ≠ 0) :
    Plus (u.div Format.binary64 v) := by
  rcases u with (_ | _) | _ | (_ | _) | ⟨_ | _, m, e, hm⟩ <;> try exact hu.elim
  all_goals
    rcases v with (_ | _) | _ | (_ | _) | ⟨_ | _, m', e', hm'⟩ <;> try exact hv.elim
  all_goals try trivial
  exact plus_roundWithAccuracy _ _ _

theorem plus_sqrt (hu : Plus u) : Plus (u.sqrt Format.binary64) := by
  rcases u with (_ | _) | _ | (_ | _) | ⟨_ | _, m, e, hm⟩ <;> try exact hu.elim
  · trivial
  · trivial
  · exact plus_roundWithAccuracy _ _ _

theorem plus_stored (hu : Plus u) (hc : u.isFinite = true → IsCanonical u) : Plus (stored u) := by
  rcases u with (_ | _) | _ | (_ | _) | ⟨_ | _, m, e, hm⟩ <;> try exact hu.elim
  · rw [stored_infinity]
    trivial
  · rw [stored_zero]
    trivial
  · rcases le_or_gt e 971 with hle | hgt
    · rw [stored_of_fits hm (hc rfl) hle]
      trivial
    · rw [stored_of_large hm hgt]
      trivial

theorem zero_le_real (hu : Plus u) : 0 ≤ real u := by
  rcases u with (_ | _) | _ | (_ | _) | ⟨_ | _, m, e, hm⟩ <;> try exact hu.elim
  · exact le_rfl
  · exact le_rfl
  · rw [real, signed]
    positivity

namespace IsPlus

theorem zero : IsPlus 0 := trivial

theorem add (hx : IsPlus x) (hy : IsPlus y) : IsPlus (x + y) := by
  refine plus_stored (plus_add hx hy) fun hfinite => ?_
  obtain ⟨hx', hy'⟩ := operands_of_isFinite_add hfinite
  exact (isRounded_add (isCanonical_of_isFinite hx') (isCanonical_of_isFinite hy')).canonical

theorem mul_self (hx : x.isNaN = false) : IsPlus (x * x) := by
  refine plus_stored (plus_mul_self hx) fun hfinite => ?_
  have hx' := isCanonical_of_isFinite (operands_of_isFinite_mul hfinite).1
  exact (isRounded_mul hx' hx').canonical

theorem sqrt (hx : IsPlus x) : IsPlus x.sqrt := by
  refine plus_stored (plus_sqrt hx) fun hfinite => ?_
  exact (isRounded_sqrt (isCanonical_of_isFinite (operand_of_isFinite_sqrt hfinite))
    (zero_le_real hx)).canonical

theorem not_isNaN (hx : IsPlus x) : x.isNaN = false := by
  change x.toModel.unpack.isNaN = false
  unfold IsPlus at hx
  generalize x.toModel.unpack = u at hx
  cases u with
  | notANumber => exact hx.elim
  | infinity | zero | finite => rfl

theorem of_pos (hx : 0 < x) : IsPlus x := by
  obtain ⟨-, hnan⟩ := not_isNaN_of_lt hx
  have hnot : ¬x ≤ 0 := (lt_iff_not_le rfl hnan).1 hx
  have hzero : place (0 : Float).toModel.unpack = toLex (0, toLex (0, 0)) := rfl
  rw [le_iff hnan rfl, hzero] at hnot
  change x.toModel.unpack.isNaN = false at hnan
  unfold IsPlus
  rcases hu : x.toModel.unpack with (_ | _) | _ | (_ | _) | ⟨_ | _, m, e, hm⟩ <;>
    rw [hu] at hnan hnot <;> first
      | trivial
      | exact (Bool.false_ne_true hnan.symm).elim
      | exact (hnot (by simp [place, Prod.Lex.toLex_le_toLex])).elim

theorem div (hx : IsPlus x) (hxfinite : x.isFinite = true) (hy : 0 < y)
    (hyfinite : y.isFinite = true) : IsPlus (x / y) := by
  have hzero : value y ≠ 0 := ((zero_lt_iff hyfinite).1 hy).ne'
  refine plus_stored (plus_div hx (of_pos hy) hzero) fun _ => ?_
  exact (isRounded_div (isCanonical_of_isFinite hxfinite) (isCanonical_of_isFinite hyfinite)
    hzero).canonical

end IsPlus

theorem infinity_div (hx : x.toModel.unpack = .infinity .positive) (hy : 0 < y)
    (hfinite : y.isFinite = true) : (x / y).toModel.unpack = .infinity .positive := by
  have hplus : Plus y.toModel.unpack := IsPlus.of_pos hy
  change y.toModel.unpack.isFinite = true at hfinite
  change stored (x.toModel.unpack.div Format.binary64 y.toModel.unpack) = _
  rw [hx]
  rcases hv : y.toModel.unpack with _ | _ | (_ | _) | ⟨_ | _, m, e, hm⟩ <;>
    rw [hv] at hplus hfinite
  · cases hfinite
  · cases hfinite
  · exact hplus.elim
  · exact stored_infinity _
  · exact hplus.elim
  · exact stored_infinity _

end Operations

section Bits

variable {u v : UnpackedFloat} {x y : Float}

/-- The bits of a number with a plus sign. -/
def magnitudeBits : UnpackedFloat → ℤ
  | .infinity _ => 2047 * 2 ^ 52
  | .finite _ m e _ => (e + 1074) * 2 ^ 52 + m
  | _ => 0

theorem toNat_of_infinity {b : BitVec Format.binary64.numBits}
    (h : UnpackedFloat.unpack Format.binary64 b = .infinity .positive) :
    b.toNat = 2047 * 2 ^ 52 := by
  revert h
  have hexponent := toNat_unpackExponent b
  have hmantissa := toNat_unpackMantissa b
  have hsign := ofBitVec_unpackSign b
  have hlt : b.toNat < 2 ^ 64 := b.isLt
  fun_cases UnpackedFloat.unpack Format.binary64 b with
  | case1 mantissa exponent e sign hones hnone =>
    intro h
    have hpositive : Sign.ofBitVec (unpackSign b) = .positive := UnpackedFloat.infinity.inj h
    have hmax : (unpackExponent b).toNat = 2047 := congrArg BitVec.toNat hones
    have hzero : (unpackMantissa b).toNat = 0 := congrArg BitVec.toNat hnone
    rw [hpositive] at hsign
    split at hsign
    · cases hsign
    · omega
  | _ => intro h; cases h

theorem toNat_toBits_eq (hx : IsPlus x) :
    (x.toBits.toNat : ℤ) = magnitudeBits x.toModel.unpack := by
  rcases isFinite_or_infinity hx.not_isNaN with hfinite | ⟨s, hs⟩
  · have hbits := toNat_toBits x
    obtain ⟨-, -, hfull⟩ := parts_canonical x
    have hunpack := unpack_eq_parts hfinite
    have hsign : (parts x).negative = false := by
      unfold IsPlus at hx
      rw [hunpack, Parts.sign] at hx
      cases hn : (parts x).negative with
      | false => rfl
      | true =>
        rw [hn] at hx
        split at hx <;> exact hx.elim
    rw [hsign, if_neg Bool.false_ne_true, zero_add] at hbits
    rw [hunpack, hbits]
    split
    · rename_i h
      have hexponent : (parts x).exponent = -1074 := hfull.resolve_right (by omega)
      rw [h, hexponent]
      rfl
    · rfl
  · unfold IsPlus at hx
    rw [hs] at hx ⊢
    cases s with
    | negative => exact hx.elim
    | positive =>
      have hbits : x.toBits.toNat = 2047 * 2 ^ 52 := toNat_of_infinity hs
      rw [hbits]
      rfl

/-- The bits of a finite number are between those of zero and those of infinity. -/
theorem magnitudeBits_finite {m : ℕ} {e : ℤ} {hm : 0 < m}
    (hc : IsCanonical (.finite .positive m e hm)) (he : e ≤ 971) :
    0 < magnitudeBits (.finite .positive m e hm) ∧
      magnitudeBits (.finite .positive m e hm) < 2047 * 2 ^ 52 := by
  obtain ⟨hlt, hleast, -⟩ := hc
  rw [magnitudeBits]
  omega

theorem place_le_place_iff_magnitudeBits (hu : Plus u) (hv : Plus v)
    (hcu : u.isFinite = true → IsCanonical u ∧ Fits u)
    (hcv : v.isFinite = true → IsCanonical v ∧ Fits v) :
    place u ≤ place v ↔ magnitudeBits u ≤ magnitudeBits v := by
  rcases u with (_ | _) | _ | (_ | _) | ⟨_ | _, m, e, hm⟩ <;> try exact hu.elim
  · rcases v with (_ | _) | _ | (_ | _) | ⟨_ | _, m', e', hm'⟩ <;> try exact hv.elim
    · exact iff_of_true le_rfl le_rfl
    · exact iff_of_false (by simp [place, Prod.Lex.toLex_le_toLex]) (by simp [magnitudeBits])
    · have hbits := magnitudeBits_finite (hcv rfl).1 (hcv rfl).2
      exact iff_of_false (by simp [place, Prod.Lex.toLex_le_toLex]) (not_le.2 hbits.2)
  · rcases v with (_ | _) | _ | (_ | _) | ⟨_ | _, m', e', hm'⟩ <;> try exact hv.elim
    · exact iff_of_true (by simp [place, Prod.Lex.toLex_le_toLex]) (by simp [magnitudeBits])
    · exact iff_of_true le_rfl le_rfl
    · have hbits := magnitudeBits_finite (hcv rfl).1 (hcv rfl).2
      exact iff_of_true (by simp [place, Prod.Lex.toLex_le_toLex]) hbits.1.le
  · obtain ⟨hc, hfits⟩ := hcu rfl
    have hbits := magnitudeBits_finite hc hfits
    rcases v with (_ | _) | _ | (_ | _) | ⟨_ | _, m', e', hm'⟩ <;> try exact hv.elim
    · exact iff_of_true (by simp [place, Prod.Lex.toLex_le_toLex]) hbits.2.le
    · exact iff_of_false (by simp [place, Prod.Lex.toLex_le_toLex]) (not_le.2 hbits.1)
    · obtain ⟨hlt, hleast, hfull⟩ := hc
      obtain ⟨hlt', hleast', hfull'⟩ := (hcv rfl).1
      have hplace : place (.finite .positive m e hm) ≤ place (.finite .positive m' e' hm') ↔
          e < e' ∨ e = e' ∧ m ≤ m' := by
        simp [place, Prod.Lex.toLex_le_toLex]
      rw [hplace, magnitudeBits, magnitudeBits]
      omega

/-- The bits of two numbers with plus signs compare as the numbers do. -/
theorem IsPlus.le_iff_toBits (hx : IsPlus x) (hy : IsPlus y) :
    x ≤ y ↔ x.toBits.toNat ≤ y.toBits.toNat := by
  rw [← Int.ofNat_le, toNat_toBits_eq hx, toNat_toBits_eq hy, le_iff hx.not_isNaN hy.not_isNaN]
  exact place_le_place_iff_magnitudeBits hx hy
    (fun hfinite => ⟨isCanonical_of_isFinite hfinite, fits_of_isFinite hfinite⟩)
    (fun hfinite => ⟨isCanonical_of_isFinite hfinite, fits_of_isFinite hfinite⟩)

theorem IsPlus.eq_of_le_of_le (hx : IsPlus x) (hy : IsPlus y) (hxy : x ≤ y) (hyx : y ≤ x) :
    x = y := by
  rw [hx.le_iff_toBits hy] at hxy
  rw [hy.le_iff_toBits hx] at hyx
  exact Float.toBits_inj.1 (UInt64.toNat_inj.1 (Nat.le_antisymm hxy hyx))

theorem zero_div_of_pos (hx : 0 < x) (hfinite : x.isFinite = true) : 0 / x = 0 := by
  have hpos := (zero_lt_iff hfinite).1 hx
  have hplus : IsPlus (0 / x) := IsPlus.zero.div rfl hx hfinite
  have hround := rounds_div (x := 0) rfl hfinite hpos.ne'
  rw [value_zero, zero_div] at hround
  obtain ⟨hquotient, hvalue⟩ :=
    hround.eq_of_representable representable_zero (by simpa using limit_pos)
  refine hplus.eq_of_le_of_le .zero ?_ ?_
  · exact (le_iff_value hquotient rfl).2 hvalue.le
  · exact (le_iff_value rfl hquotient).2 hvalue.ge

theorem IsPlus.totalOrderKey_eq (hx : IsPlus x) : totalOrderKey x = x.toBits.toNat := by
  have hinfinity : IsPlus infinity := trivial
  have hle := (hx.le_iff_toBits hinfinity).1 (le_infinity hx.not_isNaN)
  have hbits : infinity.toBits.toNat = 2047 * 2 ^ 52 := rfl
  rw [totalOrderKey, Nat.pow_eq, if_pos]
  omega

theorem IsPlus.totalOrderKey_le_iff (hx : IsPlus x) (hy : IsPlus y) :
    totalOrderKey x ≤ totalOrderKey y ↔ x ≤ y := by
  rw [hx.totalOrderKey_eq, hy.totalOrderKey_eq, Int.ofNat_le, hx.le_iff_toBits hy]

end Bits

end LedgerWatch.Binary64
