import LedgerWatch.Proofs.Stats.LeaveOneOut

namespace LedgerWatch.Stats

open Exact

/-- The value at a position has a z-score beyond the threshold. -/
def PeerStats.StandsOut {α : Type} [Quantity α] [LT α] (p : PeerStats α) (threshold : α) (i : ℕ) :
    Prop :=
  ∃ z, p.zScoreAt? i = some z ∧ threshold < Quantity.abs z

/-- So many values that are all the same but for the one at a position. -/
def lone {α : Type} (n position : ℕ) (a b : α) : List α := (List.replicate n a).set position b

section Places

variable {α : Type} {n position i : ℕ} {a b : α}

@[simp] theorem length_lone : (lone n position a b).length = n := by
  rw [lone, List.length_set, List.length_replicate]

theorem getElem?_lone_self (h : position < n) : (lone n position a b)[position]? = some b :=
  List.getElem?_set_self (by simpa using h)

theorem getElem?_lone_of_ne (hi : i < n) (h : i ≠ position) :
    (lone n position a b)[i]? = some a := by
  rw [lone, List.getElem?_set_ne h.symm, List.getElem?_replicate, if_pos hi]

theorem lone_perm (h : position < n) :
    (lone n position a b).Perm (b :: List.replicate (n - 1) a) := by
  have hperm := List.set_perm_cons_eraseIdx (l := List.replicate n a) (by simpa using h) b
  rwa [List.eraseIdx_replicate, if_pos h] at hperm

theorem eq_of_mem_eraseIdx_lone : ∀ x ∈ (lone n position a b).eraseIdx position, x = a := by
  intro x hx
  rw [lone, List.eraseIdx_set_eq] at hx
  exact List.eq_of_mem_replicate (List.mem_of_mem_eraseIdx hx)

/-- Without one of the others the outlier is left, with one value less beside it. -/
theorem eraseIdx_lone_perm (hn : 2 ≤ n) (h : position < n) (hi : i < n) (hne : i ≠ position) :
    ((lone n position a b).eraseIdx i).Perm (b :: List.replicate (n - 2) a) := by
  have hi' : i < (lone n position a b).length := by simpa using hi
  have hcons := List.getElem_cons_eraseIdx_perm hi'
  rw [(List.getElem_eq_iff hi').2 (getElem?_lone_of_ne hi hne)] at hcons
  have hsplit : List.replicate (n - 1) a = a :: List.replicate (n - 2) a := by
    rw [← List.replicate_succ]
    congr 1
    omega
  have hall := hcons.trans (lone_perm h)
  rw [hsplit] at hall
  exact (hall.trans (.swap a b _)).cons_inv

end Places

section Samples

variable {K : Type} [Field K] [CharZero K] {ys : List K} {m : ℕ} {a b : K}

theorem average_cons_replicate (a b : K) (m : ℕ) :
    average (b :: List.replicate m a) = a + (b - a) / (m + 1 : ℕ) := by
  rw [average, List.sum_cons, List.sum_replicate, nsmul_eq_mul, List.length_cons,
    List.length_replicate]
  field_simp
  push_cast
  ring

theorem variance_cons_replicate (a b : K) (m : ℕ) :
    variance (b :: List.replicate m a) = (b - a) ^ 2 * m / (m + 1 : ℕ) ^ 2 := by
  rw [variance, deviation_cons, deviation_replicate, average_cons_replicate, List.length_cons,
    List.length_replicate]
  field_simp
  push_cast
  ring

/-- The outlier lies as many variances from the mean as there are others. -/
theorem sq_outlier_sub_average (h : ys.Perm (b :: List.replicate m a)) :
    (b - average ys) ^ 2 = m * variance ys := by
  rw [average_of_perm h, variance_of_perm h, average_cons_replicate, variance_cons_replicate]
  field_simp
  push_cast
  ring

/-- Each of the others lies so small a part of the variance from the mean. -/
theorem sq_other_sub_average (h : ys.Perm (b :: List.replicate m a)) :
    m * (a - average ys) ^ 2 = variance ys := by
  rw [average_of_perm h, variance_of_perm h, average_cons_replicate, variance_cons_replicate]
  field_simp
  ring

theorem outlier_sub_average (h : ys.Perm (b :: List.replicate m a)) :
    b - average ys = (b - a) * (m / (m + 1 : ℕ)) := by
  rw [average_of_perm h, average_cons_replicate]
  field_simp
  push_cast
  ring

end Samples

section Baselines

variable {K : Type} [Field K] [LinearOrder K] [IsStrictOrderedRing K] [Root K] {xs : List K}
  {p : PeerStats K} {i : ℕ}

/-- A value is judged against its peers or against the whole group. -/
theorem exists_of_baselineAt? (h : PeerStats.ofValues? xs = some p) {s : Summary K}
    (hs : p.baselineAt? i = some s) : i < xs.length ∧ ∃ ys, (ys = xs.eraseIdx i ∨ ys = xs) ∧
      s = ⟨ys.length, average ys, Root.root (variance ys)⟩ := by
  rcases Nat.lt_or_ge i xs.length with hi | hi
  · refine ⟨hi, ?_⟩
    have hne : xs ≠ [] := List.ne_nil_of_length_pos (by omega)
    rw [PeerStats.baselineAt?_eq h hi, baseline?, summarize?_eq hne] at hs
    split at hs
    · exact ⟨xs, .inr rfl, (Option.some.inj (Option.filter_eq_some_iff.1 hs).1).symm⟩
    · exact ⟨_, .inl rfl, (Option.some.inj hs).symm.trans (describes_peerMoments xs i).summary_eq⟩
  · rw [PeerStats.baselineAt?_of_length_le h hi] at hs
    cases hs

theorem baselineAt?_of_constant_peers (h : PeerStats.ofValues? xs = some p) (hi : i < xs.length)
    {c : K} (hpeers : ∀ x ∈ xs.eraseIdx i, x = c) {group : Summary K}
    (hgroup : summarize? xs = some group) (hspread : group.isFlat = false) :
    p.peer? i = some (peerMoments xs i).summary ∧ (peerMoments xs i).summary.isFlat = true ∧
      p.baselineAt? i = some group := by
  have hflat : (peerMoments xs i).summary.isFlat = true := by
    rw [(describes_peerMoments xs i).summary_eq]
    exact isFlat_of_constant hpeers _ _
  refine ⟨PeerStats.peer?_eq h hi, hflat, ?_⟩
  rw [PeerStats.baselineAt?_eq h hi, baseline?, if_pos hflat, hgroup, Option.filter_some, hspread]
  rfl

end Baselines

section Scores

variable {ys : List ℝ} {m : ℕ} {a b x z : ℝ}

theorem sq_mul_variance_of_zScore?
    (h : zScore? x (average ys) (Root.root (variance ys)) = some z) :
    z ^ 2 * variance ys = (x - average ys) ^ 2 ∧ 0 < variance ys := by
  obtain ⟨hspread, rfl⟩ := zScore?_eq_some_iff.1 h
  have hroot : 0 < √(variance ys) := pos_of_not_isDegenerate hspread
  have hpos : 0 < variance ys := Real.sqrt_pos.1 hroot
  refine ⟨?_, hpos⟩
  calc ((x - average ys) / √(variance ys)) ^ 2 * variance ys
      = (x - average ys) ^ 2 / √(variance ys) ^ 2 * variance ys := by rw [div_pow]
    _ = (x - average ys) ^ 2 := by rw [Real.sq_sqrt hpos.le, div_mul_cancel₀ _ hpos.ne']

variable (hys : ys.Perm (b :: List.replicate m a))
include hys

theorem sq_zScore?_outlier (h : zScore? b (average ys) (Root.root (variance ys)) = some z) :
    z ^ 2 = m := by
  obtain ⟨hsq, hpos⟩ := sq_mul_variance_of_zScore? h
  exact mul_right_cancel₀ hpos.ne' (hsq.trans (sq_outlier_sub_average hys))

theorem sign_zScore?_outlier (hm : m ≠ 0)
    (h : zScore? b (average ys) (Root.root (variance ys)) = some z) :
    SignType.sign z = SignType.sign (b - a) := by
  obtain ⟨hspread, rfl⟩ := zScore?_eq_some_iff.1 h
  have hroot : 0 < √(variance ys) := pos_of_not_isDegenerate hspread
  have hpart : 0 < (m / (m + 1 : ℕ) : ℝ) := by positivity
  calc SignType.sign ((b - average ys) / √(variance ys))
      = SignType.sign ((b - a) * (m / (m + 1 : ℕ)) * (√(variance ys))⁻¹) := by
        rw [div_eq_mul_inv, outlier_sub_average hys]
    _ = SignType.sign (b - a) := by
        rw [sign_mul, sign_mul, sign_pos hpart, sign_pos (inv_pos.2 hroot), mul_one, mul_one]

theorem abs_zScore?_other (hm : m ≠ 0)
    (h : zScore? a (average ys) (Root.root (variance ys)) = some z) : |z| ≤ 1 := by
  obtain ⟨hsq, hpos⟩ := sq_mul_variance_of_zScore? h
  have hone : m * z ^ 2 = 1 := by
    apply mul_right_cancel₀ hpos.ne'
    rw [mul_assoc, hsq, sq_other_sub_average hys, one_mul]
  have hm' : (1 : ℝ) ≤ m := Nat.one_le_cast.2 (Nat.one_le_iff_ne_zero.2 hm)
  rw [← sq_le_one_iff_abs_le_one, ← hone]
  exact le_mul_of_one_le_left (sq_nonneg z) hm'

end Scores

section Lone

variable {n position i : ℕ} {a b : ℝ} {p : PeerStats ℝ} {group : Summary ℝ}
  (hn : 3 ≤ n) (hposition : position < n)
  (hp : PeerStats.ofValues? (lone n position a b) = some p)
include hn hposition hp

theorem zScoreAt?_lone_self (hgroup : summarize? (lone n position a b) = some group)
    (hspread : group.isFlat = false) : ∃ z, p.zScoreAt? position = some z ∧
      SignType.sign z = SignType.sign (b - a) ∧ z ^ 2 = n - 1 := by
  have hi : position < (lone n position a b).length := by simpa using hposition
  obtain ⟨-, -, hbaseline⟩ :=
    baselineAt?_of_constant_peers hp hi eq_of_mem_eraseIdx_lone hgroup hspread
  obtain ⟨z, hz⟩ : ∃ z, group.zScore? b = some z := ⟨_, zScore?_eq hspread⟩
  have hscore : p.zScoreAt? position = some z := by
    rw [PeerStats.zScoreAt?_eq hp, hbaseline, getElem?_lone_self hposition]
    exact hz
  have hne : lone n position a b ≠ [] := List.ne_nil_of_length_pos (by omega)
  rw [summarize?_eq hne, Option.some.injEq] at hgroup
  subst hgroup
  have hm : ((n - 1 : ℕ) : ℝ) = n - 1 := by rw [Nat.cast_sub (by omega), Nat.cast_one]
  exact ⟨z, hscore, sign_zScore?_outlier (lone_perm hposition) (by omega) hz,
    (sq_zScore?_outlier (lone_perm hposition) hz).trans hm⟩

theorem abs_le_one_of_zScoreAt?_lone (hne : i ≠ position) {z : ℝ} (hz : p.zScoreAt? i = some z) :
    |z| ≤ 1 := by
  rw [PeerStats.zScoreAt?_eq hp] at hz
  obtain ⟨s, hs, hz⟩ := Option.bind_eq_some_iff.1 hz
  obtain ⟨hi, ys, hys, rfl⟩ := exists_of_baselineAt? hp hs
  rw [length_lone] at hi
  rw [getElem?_lone_of_ne hi hne] at hz
  rcases hys with rfl | rfl
  · exact abs_zScore?_other (eraseIdx_lone_perm (by omega) hposition hi hne) (by omega) hz
  · exact abs_zScore?_other (lone_perm hposition) (by omega) hz

theorem standsOut_lone_iff (hgroup : summarize? (lone n position a b) = some group)
    (hspread : group.isFlat = false) {threshold : ℝ} (hthreshold : 1 ≤ threshold) :
    p.StandsOut threshold i ↔ i = position ∧ threshold ^ 2 < n - 1 := by
  rcases eq_or_ne i position with rfl | hne
  · obtain ⟨z, hz, -, hsq⟩ := zScoreAt?_lone_self hn hposition hp hgroup hspread
    have habs : |threshold| = threshold := abs_of_nonneg (by linarith)
    rw [← hsq, sq_lt_sq, habs]
    constructor
    · rintro ⟨z', hz', habove⟩
      rw [hz, Option.some.injEq] at hz'
      exact ⟨rfl, hz' ▸ habove⟩
    · exact fun h => ⟨z, hz, h.2⟩
  · constructor
    · rintro ⟨z, hz, habove⟩
      have hle : |z| ≤ 1 := abs_le_one_of_zScoreAt?_lone hn hposition hp hne hz
      exact absurd habove (not_lt.2 (hle.trans hthreshold))
    · exact fun h => absurd h.1 hne

end Lone

end LedgerWatch.Stats
