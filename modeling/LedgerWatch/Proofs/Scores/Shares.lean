import LedgerWatch.Proofs.Network.Findings
import LedgerWatch.Proofs.Network.Incidence
import LedgerWatch.Proofs.Number.Signs
import LedgerWatch.Proofs.Scores.Basic

namespace LedgerWatch

open Binary64

section Shares

variable {n d : ℕ}

theorem within_ofNat (hn : n < 2 ^ 64) : Within 64 (Float.ofNat n) := by
  refine (rounds_ofNat n).within (by decide) ?_
  have hle : (n : ℝ) ≤ 2 ^ (64 : ℤ) := by exact_mod_cast hn.le
  rwa [Nat.abs_cast]

theorem within_share (hn : n < 2 ^ 64) (hd : 0 < d) : Within 64 (Float.ofNat n / Float.ofNat d) :=
  (within_ofNat hn).div_of_one_le (one_le_ofNat hd)

theorem isScore_share (hn : n < 2 ^ 64) (hd : 0 < d) :
    IsScore (Float.ofNat n / Float.ofNat d) := by
  have hzero : 0 ≤ Float.ofNat n := (rounds_ofNat n).zero_le n.cast_nonneg
  have hpos : 0 < Float.ofNat d := zero_lt_of_one_le (one_le_ofNat hd)
  exact ⟨(within_share hn hd).isFinite, zero_le_div (within_ofNat hn).isFinite hzero hpos⟩

theorem value_ofNat_le (hn : n < 2 ^ 64) (hd : d < 2 ^ 64) (h : n ≤ d) :
    value (Float.ofNat n) ≤ value (Float.ofNat d) := by
  have hle : (n : ℝ) ≤ d := by exact_mod_cast h
  exact ((rounds_ofNat n).nearest_of_isFinite (within_ofNat hn).isFinite).mono
    ((rounds_ofNat d).nearest_of_isFinite (within_ofNat hd).isFinite) hle

theorem value_ofNat_pos (hd : 0 < d) (hd' : d < 2 ^ 64) : 0 < value (Float.ofNat d) :=
  (zero_lt_iff (within_ofNat hd').isFinite).1 (zero_lt_of_one_le (one_le_ofNat hd))

/-- A count is at most a count that is as large, also after both are rounded. -/
theorem share_le_one (hd : 0 < d) (hd' : d < 2 ^ 64) (h : n ≤ d) :
    Float.ofNat n / Float.ofNat d ≤ 1 := by
  have hn : n < 2 ^ 64 := h.trans_lt hd'
  have hpos := value_ofNat_pos hd hd'
  have hround := rounds_div (within_ofNat hn).isFinite (within_ofNat hd').isFinite hpos.ne'
  have hfinite := (within_share hn hd).isFinite
  rw [le_iff_value hfinite isFinite_one, value_one]
  refine (hround.nearest_of_isFinite hfinite).le_of_le representable_one ?_
  exact (div_le_one hpos).2 (value_ofNat_le hn hd' h)

theorem zero_lt_share (hn : 0 < n) (hd : 0 < d) (hd' : d < 2 ^ 64) :
    0 < Float.ofNat n / Float.ofNat d := by
  have hpos : 0 < Float.ofNat d := zero_lt_of_one_le (one_le_ofNat hd)
  have hwithin := within_ofNat hd'
  have hzero_lt : ∀ {x : Float}, x.toModel.unpack = .infinity .positive → 0 < x := by
    intro x hx
    rw [lt_def, hx]
    rfl
  cases hfinite : (Float.ofNat n).isFinite with
  | true =>
    have hvalue := (zero_lt_iff hwithin.isFinite).1 hpos
    have hround := rounds_div hfinite hwithin.isFinite hvalue.ne'
    have hone : 1 ≤ value (Float.ofNat n) := by
      rw [← value_one]
      exact (le_iff_value isFinite_one hfinite).1 (one_le_ofNat hn)
    have hle : (2 : ℝ) ^ (-64 : ℤ) ≤ value (Float.ofNat n) / value (Float.ofNat d) := by
      rw [zpow_neg, le_div_iff₀ hvalue, inv_mul_le_iff₀ (two_zpow_pos 64)]
      calc value (Float.ofNat d) ≤ 2 ^ (64 : ℤ) := (le_abs_self _).trans hwithin.abs_le
        _ ≤ 2 ^ (64 : ℤ) * value (Float.ofNat n) :=
            le_mul_of_one_le_right (two_zpow_pos 64).le hone
    cases hquotient : (Float.ofNat n / Float.ofNat d).isFinite with
    | true =>
      rw [zero_lt_iff hquotient]
      exact (two_zpow_pos (-64)).trans_le ((hround.nearest_of_isFinite hquotient).ge_of_ge
        (representable_two_zpow (by norm_num)) hle)
    | false =>
      exact hzero_lt (hround.eq_infinity_of_nonneg ((two_zpow_pos _).le.trans hle) hquotient)
  | false =>
    have hinfinity := (rounds_ofNat n).eq_infinity_of_nonneg n.cast_nonneg hfinite
    exact hzero_lt (infinity_div hinfinity hpos hwithin.isFinite)

/-- A share is zero only where nothing was counted. -/
theorem share_eq_zero_iff (hd : 0 < d) (hd' : d < 2 ^ 64) :
    Float.ofNat n / Float.ofNat d = 0 ↔ n = 0 := by
  constructor
  · intro h
    by_contra hn
    have hlt := zero_lt_share (Nat.pos_of_ne_zero hn) hd hd'
    rw [h, lt_iff_not_le rfl rfl] at hlt
    exact hlt (le_refl_of_not_isNaN rfl)
  · rintro rfl
    exact zero_div_of_pos (zero_lt_of_one_le (one_le_ofNat hd)) (within_ofNat hd').isFinite

theorem value_half : value 0.5 = 1 / 2 := by
  have hunpack : (0.5 : Float).toModel.unpack = .finite .positive (2 ^ 52) (-53) (by decide) := rfl
  rw [value, hunpack]
  norm_num [real, signed]

/-- A count of at least half of another one is so after both are rounded, since doubling and
rounding may be done in either order. -/
theorem half_le_share (hn : n < 2 ^ 64) (hd : 0 < d) (hd' : d < 2 ^ 64) (h : d ≤ 2 * n) :
    0.5 ≤ Float.ofNat n / Float.ofNat d := by
  have hpos := value_ofNat_pos hd hd'
  have hround := rounds_div (within_ofNat hn).isFinite (within_ofNat hd').isFinite hpos.ne'
  have hfinite := (within_share hn hd).isFinite
  have hone : (1 : ℝ) ≤ n := by exact_mod_cast (show 1 ≤ n by omega)
  have hle : (d : ℝ) ≤ 2 * n := by exact_mod_cast h
  have hdouble : value (Float.ofNat d) ≤ 2 * value (Float.ofNat n) :=
    ((rounds_ofNat d).nearest_of_isFinite (within_ofNat hd').isFinite).mono
      (((rounds_ofNat n).nearest_of_isFinite (within_ofNat hn).isFinite).two_mul hone) hle
  rw [le_iff_value rfl hfinite, value_half]
  have hhalf : Representable (1 / 2) := by
    simpa using representable_two_zpow (e := -1) (by norm_num)
  refine (hround.nearest_of_isFinite hfinite).ge_of_ge hhalf ?_
  rw [div_le_div_iff₀ two_pos hpos]
  linarith

end Shares

namespace Network

variable {c : Settings} {g : Graph}

theorem fraudRate_bounds {ts : List Transfer} (h : ts.length < 2 ^ 64) :
    IsScore (fraudRate ts) ∧ fraudRate ts ≤ 1 := by
  unfold fraudRate
  split
  · exact ⟨⟨rfl, le_refl_of_not_isNaN (by decide)⟩, zero_le_one⟩
  · rename_i hne
    have hpos : 0 < ts.length := by
      rw [List.length_pos_iff]
      simpa using hne
    have hle : ts.countP Transfer.fraud ≤ ts.length := List.countP_le_length
    exact ⟨isScore_share (hle.trans_lt h) hpos, share_le_one hpos h hle⟩

/-- There are no more merchants than transfers. -/
theorem diversity_bounds {ts : List Transfer} (h : ts.length < 2 ^ 64) (hpos : 0 < ts.length) :
    IsScore (diversity ts) ∧ diversity ts ≤ 1 := by
  have hle := Sorted.length_distinct_le (ts.map Transfer.merchant)
  rw [List.length_map] at hle
  exact ⟨isScore_share (hle.trans_lt h) hpos, share_le_one hpos h hle⟩

theorem fraudCount_le (hindexed : g.Indexed) {minSize : ℕ} {cluster : Cluster}
    (h : cluster ∈ g.clusters minSize) : cluster.fraudCount ≤ g.transfers.toList.length := by
  rw [Cluster.fraudCount, fraud_of_mem_clusters h, hindexed.fraudWithin_eq]
  exact List.length_filter_le _ _

/-- A cluster has actors, and no more transfers than the network. -/
theorem size_and_fraudCount_of_mem_clusters (hindexed : g.Indexed) (hc : c.check = .ok ())
    {cluster : Cluster} (h : cluster ∈ c.clusters g) :
    0 < cluster.size ∧ cluster.fraudCount ≤ g.transfers.toList.length := by
  have hmin : (2 : UInt64) ≤ c.minClusterSize :=
    of_decide_eq_true (Fault.of_require_bind hc).1
  have htwo : 2 ≤ c.minClusterSize.toNat := UInt64.le_iff_toNat_le.1 hmin
  have hsize := (nodes_of_mem_clusters h).2
  exact ⟨by omega, fraudCount_le hindexed h⟩

theorem length_transfers_le (records : List Record) :
    (Graph.ofRecords records).transfers.toList.length ≤ records.length := by
  rw [Graph.transfers_ofRecords]
  exact (List.length_filterMap_le _ _).trans (List.length_zipIdx).le

end Network

end LedgerWatch
