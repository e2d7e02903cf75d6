import LedgerWatch.Detector
import LedgerWatch.Proofs.Number.Powers
import LedgerWatch.Stats.Summary

namespace LedgerWatch

open Binary64

structure IsScore (x : Float) : Prop where
  isFinite : x.isFinite = true
  zero_le : 0 ≤ x

/-- The size of a finite number over a scale. -/
def IsScaled (scale x : Float) : Prop := ∃ z : Float, z.isFinite = true ∧ x = z.abs / scale

section Scores

variable {scale x : Float}

theorem IsScore.of_le_one (h : 0 ≤ x ∧ x ≤ 1) : IsScore x :=
  ⟨isFinite_of_zero_le_of_le h.1 isFinite_one h.2, h.1⟩

theorem IsScaled.zero_le (h : IsScaled scale x) (hscale : 0 < scale) : 0 ≤ x := by
  obtain ⟨z, hz, rfl⟩ := h
  exact zero_le_div ((isFinite_abs z).trans hz) (zero_le_abs (not_isNaN_of_isFinite hz)) hscale

theorem IsScaled.isFinite (h : IsScaled scale x) (hscale : 1 ≤ scale) : x.isFinite = true := by
  obtain ⟨z, hz, rfl⟩ := h
  exact (abs_value_div_le ((isFinite_abs z).trans hz) hscale).1

end Scores

namespace Stats

theorem isFinite_of_finite? {x y : Float} (h : finite? x = some y) : y.isFinite = true := by
  unfold finite? at h
  split at h
  · rename_i hfinite
    exact Option.some.inj h ▸ hfinite
  · cases h

theorem isFinite_of_zScore? {s : Summary Float} {value z : Float} (h : s.zScore? value = some z) :
    z.isFinite = true := by
  unfold Summary.zScore? Stats.zScore? at h
  split at h
  · cases h
  · exact isFinite_of_finite? h

end Stats

namespace Fault

variable {condition : Bool} {fault : Fault} {rest : Except Fault Unit}

theorem of_require (h : require condition fault = .ok ()) : condition = true := by
  cases condition with
  | true => rfl
  | false => cases h

theorem of_require_bind (h : (require condition fault >>= fun _ => rest) = .ok ()) :
    condition = true ∧ rest = .ok () := by
  cases condition with
  | true => exact ⟨rfl, h⟩
  | false => cases h

end Fault

end LedgerWatch
