import LedgerWatch.Proofs.Stats.Exact
import LedgerWatch.Proofs.Stats.PeerLists

namespace LedgerWatch.Stats

open Exact

section Moments

variable {K : Type} [Field K]

structure Moments.Describes (m : Moments K) (xs : List K) : Prop where
  count_eq : m.count = xs.length
  mean_eq : m.mean = average xs
  m2_eq : m.m2 = deviation (average xs) xs

namespace Moments.Describes

variable {m m' : Moments K} {xs ys : List K}

theorem of_perm (h : m.Describes xs) (hxs : xs.Perm ys) : m.Describes ys where
  count_eq := h.count_eq.trans hxs.length_eq
  mean_eq := h.mean_eq.trans (average_of_perm hxs)
  m2_eq := by rw [h.m2_eq, average_of_perm hxs, deviation_of_perm hxs]

variable [LinearOrder K] [Root K]

theorem empty : (Moments.empty : Moments K).Describes [] where
  count_eq := rfl
  mean_eq := by
    rw [average, List.sum_nil, zero_div]
    exact Nat.cast_zero
  m2_eq := Nat.cast_zero

variable [IsStrictOrderedRing K]

theorem push (h : m.Describes xs) (x : K) : (m.push x).Describes (x :: xs) := by
  have hmean : (m.push x).mean = average (x :: xs) := by
    rw [average_cons, ← h.mean_eq, ← h.count_eq]
    rfl
  refine ⟨congrArg Nat.succ h.count_eq, hmean, ?_⟩
  rw [deviation_average_cons, ← h.m2_eq, ← h.mean_eq, ← hmean]
  rfl

theorem foldl (h : m.Describes xs) (ys : List K) :
    (ys.foldl Moments.push m).Describes (ys ++ xs) := by
  induction ys generalizing m xs with
  | nil => exact h
  | cons y ys ih => exact (ih (h.push y)).of_perm List.perm_middle

theorem behind (xs : List K) : (momentsBehind xs).1.Describes xs := by
  induction xs with
  | nil => exact empty
  | cons x xs ih => exact ih.push x

theorem merge (h : m.Describes xs) (h' : m'.Describes ys) :
    (m.merge m').Describes (xs ++ ys) := by
  unfold Moments.merge
  by_cases hxs : xs = []
  · rw [if_pos (by rw [h.count_eq, hxs]; rfl), hxs]
    exact h'
  by_cases hys : ys = []
  · rw [if_neg (by simpa [h.count_eq] using hxs), if_pos (by rw [h'.count_eq, hys]; rfl), hys,
      List.append_nil]
    exact h
  rw [if_neg (by simpa [h.count_eq] using hxs), if_neg (by simpa [h'.count_eq] using hys)]
  refine ⟨?_, ?_, ?_⟩
  · rw [List.length_append, ← h.count_eq, ← h'.count_eq]
  · rw [average_append hxs, ← h.mean_eq, ← h'.mean_eq, ← h.count_eq, ← h'.count_eq]
    rfl
  · rw [deviation_average_append hxs, ← h.m2_eq, ← h'.m2_eq, ← h.mean_eq, ← h'.mean_eq,
      ← h.count_eq, ← h'.count_eq]
    rfl

theorem summary_eq (h : m.Describes xs) :
    m.summary = ⟨xs.length, average xs, Root.root (variance xs)⟩ := by
  have hpos : max m.m2 ((0 : ℕ) : K) = deviation (average xs) xs := by
    rw [h.m2_eq, Nat.cast_zero, max_eq_left (deviation_nonneg _ xs)]
  have hstd : m.summary.std = Root.root (max m.m2 ((0 : ℕ) : K) / (m.count : K)) := rfl
  rw [hpos, h.count_eq] at hstd
  rw [← h.count_eq, ← h.mean_eq]
  exact congrArg (Summary.mk m.count m.mean) hstd

end Moments.Describes

variable [LinearOrder K] [IsStrictOrderedRing K] [Root K]

theorem describes_peerMoments (xs : List K) (i : ℕ) :
    (peerMoments xs i).Describes (xs.eraseIdx i) := by
  have hfront := Moments.Describes.empty.foldl (xs.take i)
  rw [List.append_nil] at hfront
  rw [List.eraseIdx_eq_take_drop_succ]
  exact hfront.merge (.behind _)

/-- Where all values are the same neither the peers nor the group have a spread. -/
theorem isFlat_of_constant {xs : List K} {c : K} (h : ∀ x ∈ xs, x = c) (count : ℕ) (mean : K) :
    (Summary.mk count mean (Root.root (variance xs))).isFlat = true := by
  rw [variance_eq_zero h, Root.root_zero]
  exact isDegenerate_zero mean

theorem baseline?_of_constant {xs : List K} (hne : xs ≠ []) {c : K} (h : ∀ x ∈ xs, x = c)
    (i : ℕ) : baseline? (summarize? xs) (peerMoments xs i).summary = none := by
  have hpeers : ∀ x ∈ xs.eraseIdx i, x = c := fun x hx => h x (List.mem_of_mem_eraseIdx hx)
  rw [(describes_peerMoments xs i).summary_eq, baseline?, if_pos (isFlat_of_constant hpeers _ _),
    summarize?_eq hne, Option.filter_some, isFlat_of_constant h]
  rfl

end Moments

/-- What is known of the peers of a member does not depend on the member, however it is computed.
Without rounding the joined moments behind it are those of all other members; and where all values
are the same there is nothing to judge a member against. -/
theorem peers_leave_one_out :
    (∀ (α : Type) [Quantity α] (xs ys : List α) (i : ℕ), 3 ≤ xs.length → i < xs.length →
      xs.length = ys.length → (∀ j, j ≠ i → xs[j]? = ys[j]?) →
        ∃ p q s, PeerStats.ofValues? xs = some p ∧ PeerStats.ofValues? ys = some q ∧
          p.peer? i = some s ∧ q.peer? i = some s) ∧
      ∀ (K : Type) [Field K] [LinearOrder K] [IsStrictOrderedRing K] [Root K] (xs : List K),
        3 ≤ xs.length → ∃ p, PeerStats.ofValues? xs = some p ∧
          (∀ i < xs.length, ∃ m,
            (List.zipWith Moments.merge (momentsBefore .empty xs) (momentsBehind xs).2)[i]? =
                some m ∧
              p.peer? i = some m.summary ∧ m.count = xs.length - 1 ∧
              m.mean = average (xs.eraseIdx i) ∧ m.m2 / m.count = variance (xs.eraseIdx i) ∧
              0 ≤ m.m2) ∧
          ∀ c, (∀ x ∈ xs, x = c) → ∀ i, p.baselineAt? i = none ∧ p.zScoreAt? i = none := by
  constructor
  · intro α _ xs ys i hxs hi hlen h
    obtain ⟨p, hp⟩ := PeerStats.exists_of_length hxs
    obtain ⟨q, hq⟩ := PeerStats.exists_of_length (hlen ▸ hxs)
    refine ⟨p, q, _, hp, hq, PeerStats.peer?_eq hp hi, ?_⟩
    rw [PeerStats.peer?_eq hq (hlen ▸ hi), peerMoments_congr h]
  · intro K _ _ _ _ xs hxs
    obtain ⟨p, hp⟩ := PeerStats.exists_of_length hxs
    refine ⟨p, hp, ?_, ?_⟩
    · intro i hi
      have hm := describes_peerMoments xs i
      have hcount : (xs.eraseIdx i).length = xs.length - 1 := List.length_eraseIdx_of_lt hi
      refine ⟨peerMoments xs i, getElem?_zipWith_moments hi, PeerStats.peer?_eq hp hi,
        hm.count_eq.trans hcount, hm.mean_eq, ?_, ?_⟩
      · rw [hm.m2_eq, hm.count_eq, variance]
      · rw [hm.m2_eq]
        exact deviation_nonneg _ _
    · intro c hc i
      have hne : xs ≠ [] := List.ne_nil_of_length_pos (by omega)
      have hnone : p.baselineAt? i = none := by
        rcases Nat.lt_or_ge i xs.length with hi | hi
        · rw [PeerStats.baselineAt?_eq hp hi, baseline?_of_constant hne hc]
        · exact PeerStats.baselineAt?_of_length_le hp hi
      exact ⟨hnone, by rw [PeerStats.zScoreAt?_eq hp, hnone]; rfl⟩

/-- A middle value that is no number beside an infinite one; three rational numbers; and three that
are the same. -/
theorem peers_leave_one_out_middle :
    (∃ p q s, PeerStats.ofValues? [1, Binary64.nan, 4] = some p ∧
        PeerStats.ofValues? [1, Binary64.infinity, 4] = some q ∧ p.peer? 1 = some s ∧ q.peer? 1 = some s) ∧
      (∃ (p : PeerStats ℚ) (m : Moments ℚ), PeerStats.ofValues? [1, 9, 4] = some p ∧
        p.peer? 1 = some m.summary ∧ m.count = 2 ∧ m.mean = 5 / 2 ∧ m.m2 / m.count = 9 / 4) ∧
      ∃ p : PeerStats ℚ, PeerStats.ofValues? [7, 7, 7] = some p ∧
        p.baselineAt? 2 = none ∧ p.zScoreAt? 2 = none := by
  obtain ⟨hfloat, hexact⟩ := peers_leave_one_out
  refine ⟨hfloat Float _ _ 1 (by decide) (by decide) rfl ?_, ?_, ?_⟩
  · intro j hj
    rcases j with _ | _ | j
    · rfl
    · exact absurd rfl hj
    · rfl
  · obtain ⟨p, hp, hpeers, -⟩ := hexact ℚ [1, 9, 4] (by decide)
    obtain ⟨m, -, hm, hcount, hmean, hvariance, -⟩ := hpeers 1 (by decide)
    refine ⟨p, m, hp, hm, hcount, hmean.trans ?_, hvariance.trans ?_⟩
    · norm_num [average]
    · norm_num [variance, deviation, average]
  · obtain ⟨p, hp, -, hconstant⟩ := hexact ℚ [7, 7, 7] (by decide)
    exact ⟨p, hp, hconstant 7 (by simp) 2⟩

end LedgerWatch.Stats
