import LedgerWatch.Isolation.Tree
import LedgerWatch.Proofs.Number.Extremes
import LedgerWatch.Proofs.Number.Mixtures

namespace LedgerWatch.Isolation

open Binary64

section Present

variable {t : Table} {rows : List Nat} {feature : Nat} {x : Float}

theorem mem_presentValues_iff : x ∈ presentValues t rows feature ↔
    x.isNaN = false ∧ ∃ i ∈ rows, t.cell i feature = x := by
  simp [presentValues, and_comm]

theorem not_isNaN_of_mem_presentValues (h : x ∈ presentValues t rows feature) :
    x.isNaN = false :=
  (mem_presentValues_iff.1 h).1

theorem mem_observed_iff : feature ∈ observed t rows ↔
    feature < t.width ∧ ∃ i ∈ rows, (t.cell i feature).isNaN = false := by
  simp [observed]

theorem presentValues_ne_nil (h : feature ∈ observed t rows) :
    presentValues t rows feature ≠ [] := by
  obtain ⟨-, i, hi, hpresent⟩ := mem_observed_iff.1 h
  exact List.ne_nil_of_mem (mem_presentValues_iff.2 ⟨hpresent, i, hi, rfl⟩)

end Present

def Between (xs : List Float) (x : Float) : Prop :=
  ∃ low high, IsLeast {y | y ∈ xs} low ∧ IsGreatest {y | y ∈ xs} high ∧ low ≤ x ∧ x ≤ high

section Bounds

variable {xs : List Float} (hxs : ∀ x ∈ xs, x.isNaN = false)
include hxs

theorem isLeast_cons_bounds : IsLeast {y | y ∈ infinity :: xs} (bounds xs).1 :=
  isLeast_foldl_smaller (by decide) hxs

theorem isGreatest_cons_bounds : IsGreatest {y | y ∈ -infinity :: xs} (bounds xs).2 :=
  isGreatest_foldl_larger (by decide) hxs

theorem bounds_fst_le {x : Float} (hx : x ∈ xs) : (bounds xs).1 ≤ x :=
  (isLeast_cons_bounds hxs).2 (List.mem_cons_of_mem _ hx)

theorem le_bounds_snd {x : Float} (hx : x ∈ xs) : x ≤ (bounds xs).2 :=
  (isGreatest_cons_bounds hxs).2 (List.mem_cons_of_mem _ hx)

/-- Bounds that differ are not the ones that the search begins with. -/
theorem isLeast_bounds (h : (bounds xs).1 < (bounds xs).2) :
    IsLeast {y | y ∈ xs} (bounds xs).1 := by
  obtain ⟨hlo, hhi⟩ := not_isNaN_of_lt h
  refine ⟨(List.mem_cons.1 (isLeast_cons_bounds hxs).1).resolve_left ?_,
    fun y hy => bounds_fst_le hxs hy⟩
  intro heq
  rw [heq] at h hlo
  exact (lt_iff_not_le hlo hhi).1 h (le_infinity hhi)

theorem isGreatest_bounds (h : (bounds xs).1 < (bounds xs).2) :
    IsGreatest {y | y ∈ xs} (bounds xs).2 := by
  obtain ⟨hlo, hhi⟩ := not_isNaN_of_lt h
  refine ⟨(List.mem_cons.1 (isGreatest_cons_bounds hxs).1).resolve_left ?_,
    fun y hy => le_bounds_snd hxs hy⟩
  intro heq
  rw [heq] at h hhi
  exact (lt_iff_not_le hlo hhi).1 h (negative_infinity_le hlo)

theorem bounds_lt_iff : (bounds xs).1 < (bounds xs).2 ↔ ∃ x ∈ xs, ∃ y ∈ xs, x < y := by
  constructor
  · intro h
    exact ⟨_, (isLeast_bounds hxs h).1, _, (isGreatest_bounds hxs h).1, h⟩
  · rintro ⟨x, hx, y, hy, hlt⟩
    have hlow := bounds_fst_le hxs hx
    have hhigh := le_bounds_snd hxs hy
    rw [lt_iff_not_le (not_isNaN_of_le hlow).1 (not_isNaN_of_le hhigh).2]
    intro hle
    exact (lt_iff_not_le (hxs x hx) (hxs y hy)).1 hlt (le_trans hhigh (le_trans hle hlow))

/-- Where all values are the same, so is the lower bound. -/
theorem between_bounds_fst (hne : xs ≠ []) (h : ¬(bounds xs).1 < (bounds xs).2) :
    Between xs (bounds xs).1 := by
  obtain ⟨x, hx⟩ := List.exists_mem_of_ne_nil xs hne
  have hlow := bounds_fst_le hxs hx
  have hhigh := le_bounds_snd hxs hx
  have hle : (bounds xs).2 ≤ (bounds xs).1 :=
    (not_lt_iff (not_isNaN_of_le hlow).1 (not_isNaN_of_le hhigh).2).1 h
  refine ⟨x, x, ⟨hx, ?_⟩, ⟨hx, ?_⟩, le_trans hhigh hle, hlow⟩
  · intro y hy
    exact le_trans hhigh (le_trans hle (bounds_fst_le hxs hy))
  · intro y hy
    exact le_trans (le_bounds_snd hxs hy) (le_trans hle hlow)

end Bounds

/-- Two of the rows have different values in a column. -/
def Varied (t : Table) (rows : List Nat) (feature : Nat) : Prop :=
  ∃ i ∈ rows, ∃ j ∈ rows, t.cell i feature < t.cell j feature

theorem varied_iff {t : Table} {rows : List Nat} {feature : Nat} : Varied t rows feature ↔
    (bounds (presentValues t rows feature)).1 < (bounds (presentValues t rows feature)).2 := by
  rw [bounds_lt_iff fun _ => not_isNaN_of_mem_presentValues]
  constructor
  · rintro ⟨i, hi, j, hj, hlt⟩
    obtain ⟨hleft, hright⟩ := not_isNaN_of_lt hlt
    exact ⟨_, mem_presentValues_iff.2 ⟨hleft, i, hi, rfl⟩,
      _, mem_presentValues_iff.2 ⟨hright, j, hj, rfl⟩, hlt⟩
  · rintro ⟨x, hx, y, hy, hlt⟩
    obtain ⟨-, i, hi, rfl⟩ := mem_presentValues_iff.1 hx
    obtain ⟨-, j, hj, rfl⟩ := mem_presentValues_iff.1 hy
    exact ⟨i, hi, j, hj, hlt⟩

section Value

variable {σ : Type} (draws : Random.Draws σ)

theorem infinity_le_of_not_isFinite {x y : Float} (h : x < y) (hy : y.isFinite = false) :
    infinity ≤ y := by
  obtain ⟨hx, hy'⟩ := not_isNaN_of_lt h
  rcases isFinite_or_infinity hy' with hfinite | ⟨s, hs⟩
  · rw [hfinite] at hy
    cases hy
  · cases s with
    | positive =>
      rw [le_def, hs]
      rfl
    | negative =>
      -- nothing is below minus infinity
      have hle : y ≤ x := by
        rw [le_iff hy' hx, hs]
        exact place_negative_infinity_le _
      exact absurd hle ((lt_iff_not_le hx hy').1 h)

theorem splitValue_bounded {lo hi : Float} (h : lo < hi) (s : σ) :
    lo ≤ (splitValue draws lo hi h s).1 ∧ (splitValue draws lo hi h s).1 ≤ hi ∨
      (splitValue draws lo hi h s).1.isNaN = true ∧ infinity ≤ hi := by
  unfold splitValue
  split
  · obtain ⟨⟨x, hle, hlt⟩, s'⟩ := draws.between lo hi h s
    exact .inl ⟨hle, le_of_lt hlt⟩
  · obtain ⟨⟨t, ht, hlt⟩, s'⟩ := draws.unit s
    dsimp only
    -- the clamp keeps every number within the bounds and lets go what is none
    cases hmixed : (lo * (1 - t) + hi * t).isNaN with
    | false => exact .inl (le_clamp hmixed (le_of_lt h))
    | true =>
      refine .inr ⟨by rwa [clamp_of_isNaN hmixed], infinity_le_of_not_isFinite h ?_⟩
      by_contra hfinite
      rw [Bool.not_eq_false] at hfinite
      rw [not_isNaN_mixture (not_isNaN_of_lt h).1 hfinite ht hlt] at hmixed
      cases hmixed

/-- A column with values at both ends of all numbers is never split at a number. -/
theorem isNaN_splitValue_of_infinite {lo hi : Float} (hlo : lo = -infinity) (hhi : hi = infinity)
    (h : lo < hi) (s : σ) : (splitValue draws lo hi h s).1.isNaN = true := by
  subst hlo hhi
  have hspan : ¬(infinity - -infinity).isFinite = true := by decide
  rcases hunit : draws.unit s with ⟨⟨t, ht, hlt⟩, s'⟩
  have hmixed := isNaN_mixture_of_infinite ht hlt
  rw [splitValue, if_neg hspan, hunit]
  dsimp only
  rwa [clamp_of_isNaN hmixed]

/-- At no number only missing values go left. -/
theorem goesLeft_of_isNaN {value : Float} (h : value.isNaN = true) (x : Float) :
    goesLeft x value = x.isNaN := by
  have hlt : ¬x < value := fun hlt => by
    rw [(not_isNaN_of_lt hlt).2] at h
    cases h
  rw [goesLeft, decide_eq_false hlt, Bool.or_false]

/-- A split is at a value between the least and the greatest present one. -/
theorem between_splitValue {xs : List Float} (hxs : ∀ x ∈ xs, x.isNaN = false)
    (h : (bounds xs).1 < (bounds xs).2) (s : σ) :
    Between xs (splitValue draws _ _ h s).1 ∨
      (splitValue draws _ _ h s).1.isNaN = true ∧ ∃ x ∈ xs, infinity ≤ x := by
  have hlow := isLeast_bounds hxs h
  have hhigh := isGreatest_bounds hxs h
  rcases splitValue_bounded draws h s with ⟨hle, hge⟩ | ⟨hnan, hinf⟩
  · exact .inl ⟨_, _, hlow, hhigh, hle, hge⟩
  · exact .inr ⟨hnan, _, hhigh.1, hinf⟩

end Value

end LedgerWatch.Isolation
