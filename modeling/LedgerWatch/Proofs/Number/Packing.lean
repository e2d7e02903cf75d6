import LedgerWatch.Proofs.Number.Operations

namespace LedgerWatch.Binary64

open Float.Model
open Float.Model.UnpackedFloat

/-- What is behind the bits of a number. -/
def stored (u : UnpackedFloat) : UnpackedFloat :=
  UnpackedFloat.unpack Format.binary64 (UnpackedFloat.pack Format.binary64 u)

/-- The exponent is not beyond the upper end. -/
def Fits : UnpackedFloat → Prop
  | .finite _ _ e _ => e ≤ 971
  | _ => True

section Bits

/-- A stored significand with the leading digit that is left out. -/
theorem toNat_one_append (m : BitVec 52) : (1#1 ++ m).toNat = 2 ^ 52 + m.toNat := by
  rw [BitVec.toNat_append, ← Nat.shiftLeft_add_eq_or_of_lt m.isLt]
  rfl

theorem toNat_ofNat_of_lt {w n : ℕ} (h : n < 2 ^ w) : (BitVec.ofNat w n).toNat = n := by
  rw [BitVec.toNat_ofNat, Nat.mod_eq_of_lt h]

end Bits

section Stored

variable {s : Sign} {m : ℕ} {e : ℤ} {u : UnpackedFloat}

theorem stored_infinity (s : Sign) : stored (.infinity s) = .infinity s := by
  cases s <;> rfl

theorem stored_zero (s : Sign) : stored (.zero s) = .zero s := by
  cases s <;> rfl

theorem stored_of_large (hm : 0 < m) (he : 971 < e) :
    stored (.finite s m e hm) = .infinity s := by
  have hover : 2 ^ 11 ≤ (e + (1023 : ℕ) + (52 : ℕ)).toNat + 1 := by omega
  have hpack : UnpackedFloat.pack Format.binary64 (.finite s m e hm) =
      packedInfinity Format.binary64 s :=
    if_pos hover
  rw [stored, hpack]
  exact stored_infinity s

theorem unpack_packComponents_normal (s : Sign) {b : ℕ} (hb : 0 < b) (hb' : b < 2047)
    (f : BitVec 52) :
    UnpackedFloat.unpack Format.binary64 (packComponents Format.binary64 s (BitVec.ofNat 11 b) f) =
      .finite s (2 ^ 52 + f.toNat) (b - 1075) (Nat.add_pos_left (Nat.two_pow_pos 52) _) := by
  have hne : BitVec.ofNat 11 b ≠ -1#11 := by
    intro h
    have hnat := congrArg BitVec.toNat h
    rw [toNat_ofNat_of_lt (by omega)] at hnat
    have hones : (-1#11).toNat = 2047 := rfl
    omega
  have hne' : BitVec.ofNat 11 b ≠ 0#11 := by
    intro h
    have hnat := congrArg BitVec.toNat h
    rw [toNat_ofNat_of_lt (by omega)] at hnat
    have hzero : (0#11).toNat = 0 := rfl
    omega
  unfold UnpackedFloat.unpack
  simp only [unpackMantissa_packComponents, unpackExponent_packComponents,
    unpackSign_packComponents, Sign.ofBitVec_toBitVec, hne, hne', if_false, toNat_one_append,
    toNat_ofNat_of_lt (show b < 2 ^ 11 by omega)]
  rfl

theorem unpack_packComponents_subnormal (s : Sign) {f : BitVec 52} (hf : 0 < f.toNat) :
    UnpackedFloat.unpack Format.binary64 (packComponents Format.binary64 s 0#11 f) =
      .finite s f.toNat (-1074) hf := by
  have hne : f ≠ 0#52 := by
    rintro rfl
    exact absurd hf (by decide)
  have hzero : (0#11) ≠ -1#11 := by decide
  unfold UnpackedFloat.unpack
  simp only [unpackMantissa_packComponents, unpackExponent_packComponents,
    unpackSign_packComponents, Sign.ofBitVec_toBitVec, hne, hzero, if_false, if_true, dif_neg,
    not_false_eq_true]
  rfl

theorem stored_of_fits (hm : 0 < m) (hc : IsCanonical (.finite s m e hm)) (he : e ≤ 971) :
    stored (.finite s m e hm) = .finite s m e hm := by
  obtain ⟨hlt, hle, hfull⟩ := hc
  have hfits : ¬2 ^ 11 ≤ (e + (1023 : ℕ) + (52 : ℕ)).toNat + 1 := by omega
  rcases le_or_gt (2 ^ 52) m with hlarge | hsmall
  · -- the leading digit is left out, and put back
    have hlog : m.log2 + 1 = 53 := by
      have hupper := (Nat.log2_lt hm.ne').2 hlt
      have hlower := (Nat.le_log2 hm.ne').2 hlarge
      omega
    have hpack : UnpackedFloat.pack Format.binary64 (.finite s m e hm) =
        packComponents Format.binary64 s (BitVec.ofNat 11 (e + (1023 : ℕ) + (52 : ℕ)).toNat)
          (BitVec.ofNat 52 m) := by
      show (if 2 ^ 11 ≤ (e + (1023 : ℕ) + (52 : ℕ)).toNat + 1 then _
        else if m.log2 + 1 = 53 then _ else _) = _
      rw [if_neg hfits, if_pos hlog]
      rfl
    have hf : 2 ^ 52 + (BitVec.ofNat 52 m).toNat = m := by
      rw [BitVec.toNat_ofNat]
      omega
    rw [stored, hpack, unpack_packComponents_normal s (by omega) (by omega)]
    simp only [hf]
    congr 1
    omega
  · have hlog : ¬m.log2 + 1 = 53 := by
      have hupper := (Nat.log2_lt hm.ne').2 hsmall
      omega
    obtain rfl : e = -1074 := hfull.resolve_right (by omega)
    have hpack : UnpackedFloat.pack Format.binary64 (.finite s m (-1074) hm) =
        packComponents Format.binary64 s 0#11 (BitVec.ofNat 52 m) := by
      unfold UnpackedFloat.pack
      exact (if_neg hfits).trans (if_neg hlog)
    have hf : (BitVec.ofNat 52 m).toNat = m := toNat_ofNat_of_lt hsmall
    rw [stored, hpack, unpack_packComponents_subnormal s (by omega)]
    simp only [hf]

theorem stored_eq_self (hc : IsCanonical u) (hfits : Fits u) : stored u = u := by
  cases u with
  | notANumber => exact hc.elim
  | infinity s => exact hc.elim
  | zero s => exact stored_zero s
  | finite s m e hm => exact stored_of_fits hm hc hfits

/-- What is behind some bits is canonical and fits, if it is a number. -/
theorem isCanonical_unpack (b : BitVec 64)
    (hfinite : (UnpackedFloat.unpack Format.binary64 b).isFinite = true) :
    IsCanonical (UnpackedFloat.unpack Format.binary64 b) ∧
      Fits (UnpackedFloat.unpack Format.binary64 b) := by
  revert hfinite
  fun_cases UnpackedFloat.unpack Format.binary64 b with
  | case1 =>
    intro h
    cases h
  | case2 =>
    intro h
    cases h
  | case3 => exact fun _ => ⟨trivial, trivial⟩
  | case4 mantissa exponent k _ _ _ hexponent _ =>
    have hk : k = -1075 := by
      show (exponent.toNat : ℤ) - 1075 = -1075
      rw [hexponent]
      rfl
    have hlt : mantissa.toNat < 2 ^ 52 := mantissa.isLt
    refine fun _ => ⟨⟨by omega, by omega, .inl (by omega)⟩, ?_⟩
    show k + 1 ≤ 971
    omega
  | case5 mantissa exponent k _ _ hones hzero =>
    have hk : k = exponent.toNat - 1075 := rfl
    have hpos : exponent.toNat ≠ 0 := fun h => hzero (BitVec.eq_of_toNat_eq h)
    have hlt : exponent.toNat < 2 ^ 11 := exponent.isLt
    have hmax : exponent.toNat ≠ 2047 := fun h => hones (BitVec.eq_of_toNat_eq h)
    have hmantissa : (1#1 ++ mantissa).toNat = 2 ^ 52 + mantissa.toNat := toNat_one_append mantissa
    have hfraction : mantissa.toNat < 2 ^ 52 := mantissa.isLt
    refine fun _ => ⟨⟨by omega, by omega, .inr (by omega)⟩, ?_⟩
    show k ≤ 971
    omega

end Stored

end LedgerWatch.Binary64
