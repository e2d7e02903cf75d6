import LedgerWatch.Proofs.Finding.Ranked
import LedgerWatch.Proofs.Number.Quotients

namespace LedgerWatch.Ranking

open Std (TransCmp OrientedCmp)

/-- The order of two numbers; what cannot be compared is level. -/
def compareScores (x y : Float) : Ordering := if x < y then .lt else if y < x then .gt else .eq

/-- The more urgent finding is the smaller one, and of two equally urgent ones that with the higher
score. -/
def order (f g : Finding) : Ordering :=
  (compare f.severity.priority g.severity.priority).then
    (compareScores (weight g.score) (weight f.score))

def firstOccurrences (fs : List Finding) : List Finding :=
  (fs.zipIdx.filter fun m => !(fs.take m.2).any fun g => sameSubject g m.1).map Prod.fst

section Order

variable {f g : Finding}

theorem compareScores_swap (x y : Float) : compareScores x y = (compareScores y x).swap := by
  have hasymm : x < y → ¬y < x := fun hlt =>
    (Binary64.not_lt_iff (Binary64.not_isNaN_of_lt hlt).2 (Binary64.not_isNaN_of_lt hlt).1).2
      (Binary64.le_of_lt hlt)
  unfold compareScores
  by_cases hxy : x < y
  · simp [hxy, hasymm hxy]
  · by_cases hyx : y < x <;> simp [hxy, hyx]

theorem isLE_compareScores {x y : Float} (hx : x.isNaN = false) (hy : y.isNaN = false) :
    (compareScores x y).isLE ↔ x ≤ y := by
  rw [← Binary64.not_lt_iff hy hx]
  unfold compareScores
  by_cases hxy : x < y
  · have hle := Binary64.le_of_lt hxy
    simp [hxy, Binary64.not_lt_iff hy hx, hle]
  · by_cases hyx : y < x <;> simp [hxy, hyx]

theorem precedes_eq_isLE (f g : Finding) : precedes f g = (order f g).isLE := by
  rw [Bool.eq_iff_iff, precedes_iff, order, Ordering.isLE_then_iff_or, Nat.compare_eq_lt,
    Nat.compare_eq_eq, isLE_compareScores (isNaN_weight _) (isNaN_weight _)]

theorem transCmp_order : TransCmp order where
  eq_swap {f g} := by
    rw [order, order, Ordering.swap_then, ← Std.OrientedOrd.eq_swap, ← compareScores_swap]
  isLE_trans {f g h} hfg hgh := by
    rw [← precedes_eq_isLE] at hfg hgh ⊢
    exact precedes_trans f g h hfg hgh

theorem level_precedes (f : Finding) :
    Lists.level precedes f = fun g => decide (order f g = .eq) := by
  have horder := transCmp_order
  funext g
  rw [Bool.eq_iff_iff, Lists.level, Bool.and_eq_true, decide_eq_true_eq, precedes_eq_isLE,
    precedes_eq_isLE]
  constructor
  · rintro ⟨hfg, hgf⟩
    exact OrientedCmp.isLE_antisymm hfg hgf
  · intro heq
    rw [@OrientedCmp.eq_swap _ order _ g f, heq]
    exact ⟨rfl, rfl⟩

end Order

theorem firsts_concat (fs : List Finding) (g : Finding) :
    firsts (fs ++ [g]) =
      firsts fs ++ if fs.any fun f => sameSubject f g then [] else [g] := by
  rw [firsts_append]
  cases h : fs.any fun f => sameSubject f g <;> simp [firsts, h]

theorem firstOccurrences_concat (fs : List Finding) (g : Finding) :
    firstOccurrences (fs ++ [g]) =
      firstOccurrences fs ++ if fs.any fun f => sameSubject f g then [] else [g] := by
  have hfront : ∀ m ∈ fs.zipIdx, (fs ++ [g]).take m.2 = fs.take m.2 := fun m hm =>
    List.take_append_of_le_length (List.snd_lt_of_mem_zipIdx hm).le
  rw [firstOccurrences, List.zipIdx_append, List.filter_append, List.map_append, firstOccurrences,
    List.filter_congr fun m hm => by rw [hfront m hm]]
  cases h : fs.any fun f => sameSubject f g <;> simp [h]

/-- Filtering the later findings on each subject out leaves the first ones. -/
theorem firsts_eq_firstOccurrences (fs : List Finding) : firsts fs = firstOccurrences fs := by
  induction fs using List.reverseRecOn with
  | nil => rfl
  | append_singleton fs g ih => rw [firsts_concat, firstOccurrences_concat, ih]

section Rankings

variable (fs : List Finding)

theorem filter_level_rank (f : Finding) :
    ((rank fs).filter fun g => order f g = .eq) =
      (firstOccurrences fs).filter fun g => order f g = .eq := by
  rw [← level_precedes, rank, prioritize,
    Lists.filter_level_mergeSort precedes_trans precedes_total, firsts_eq_firstOccurrences]

theorem rank_perm : (rank fs).Perm (firstOccurrences fs) := by
  rw [← firsts_eq_firstOccurrences]
  exact prioritize_perm (firsts fs)

theorem exists_mem_rank {f : Finding} (hf : f ∈ fs) :
    ∃ g ∈ rank fs, g.record = f.record ∧ g.method = f.method := by
  have hany : (firsts fs).any fun g => sameSubject g f := by
    rw [any_firsts, List.any_eq_true]
    exact ⟨f, hf, sameSubject_iff.2 ⟨rfl, rfl⟩⟩
  obtain ⟨g, hg, hsame⟩ := List.any_eq_true.1 hany
  exact ⟨g, (prioritize_perm (firsts fs)).mem_iff.2 hg, sameSubject_iff.1 hsame⟩

theorem pairwise_apart_rank : (rank fs).Pairwise Finding.Apart := by
  have hsymm : ∀ {f g : Finding}, f.Apart g → g.Apart f := fun h hsame =>
    h ⟨hsame.1.symm, hsame.2.symm⟩
  exact (prioritize_perm (firsts fs)).symm.pairwise (pairwise_firsts fs) hsymm

theorem rank_rank : rank (rank fs) = rank fs := by
  conv_lhs => rw [rank, firsts_eq_self (pairwise_apart_rank fs)]
  exact List.mergeSort_of_pairwise (pairwise_prioritize (firsts fs))

theorem eq_rank_iff {gs : List Finding} :
    gs = rank fs ↔ (gs.Pairwise fun f g => (order f g).isLE) ∧
      ∀ f, (gs.filter fun g => order f g = .eq) =
        (firstOccurrences fs).filter fun g => order f g = .eq := by
  have hiff := @Lists.eq_mergeSort_iff _ _ precedes_trans precedes_total (firsts fs) gs
  rw [firsts_eq_firstOccurrences] at hiff
  simp only [level_precedes] at hiff
  rw [rank, prioritize, firsts_eq_firstOccurrences, hiff]
  simp only [precedes_eq_isLE]

end Rankings

/-- Findings are compared by a total preorder. A ranking holds the first findings on their subjects
and no others, from the most to the least urgent and from the highest to the lowest score; those
that are level stand as they came. No other list does so, and to rank it again changes nothing. -/
theorem ranks_first_occurrences :
    TransCmp order ∧ (∀ f g, precedes f g = (order f g).isLE) ∧
      ∀ fs : List Finding,
        (rank fs).Perm (firstOccurrences fs) ∧
        (∀ f ∈ fs, ∃ g ∈ rank fs, g.record = f.record ∧ g.method = f.method) ∧
        (rank fs).Pairwise Finding.Apart ∧
        ((rank fs).Pairwise fun f g => f.severity.priority ≤ g.severity.priority ∧
          (f.severity = g.severity → weight g.score ≤ weight f.score)) ∧
        (∀ f, ((rank fs).filter fun g => order f g = .eq) =
          (firstOccurrences fs).filter fun g => order f g = .eq) ∧
        rank (rank fs) = rank fs ∧
        ∀ gs : List Finding, (gs.Pairwise fun f g => (order f g).isLE) →
          (∀ f, (gs.filter fun g => order f g = .eq) =
            (firstOccurrences fs).filter fun g => order f g = .eq) → gs = rank fs := by
  refine ⟨transCmp_order, precedes_eq_isLE, fun fs => ⟨rank_perm fs, fun f hf =>
    exists_mem_rank fs hf, pairwise_apart_rank fs, ?_, filter_level_rank fs, rank_rank fs,
    fun gs hsorted hlevel => (eq_rank_iff fs).2 ⟨hsorted, hlevel⟩⟩⟩
  refine (pairwise_prioritize (firsts fs)).imp ?_
  intro f g hfg
  rcases precedes_iff.1 hfg with hlt | ⟨heq, hle⟩
  · exact ⟨hlt.le, fun hsame => absurd hlt (by rw [hsame]; exact Nat.lt_irrefl _)⟩
  · exact ⟨heq.le, fun _ => hle⟩

/-- Two zeros and two scores that count for minus infinity are level. The second finding for a
record would come first if the first one had not shut it out. -/
theorem ranks_first_occurrences_ties :
    let finding (record : Nat) (score : Float) : Finding :=
      .of {} .density record score (.similarity 0 0)
    let fs := [finding 3 Binary64.infinity, finding 1 0.0, finding 2 (-0.0), finding 1 0.95,
      finding 0 Binary64.nan, finding 4 (-Binary64.infinity)]
    (firstOccurrences fs).map Finding.record = [3, 1, 2, 0, 4] ∧
      order (finding 1 0.0) (finding 2 (-0.0)) = .eq ∧
      order (finding 0 Binary64.nan) (finding 4 (-Binary64.infinity)) = .eq ∧
      ((firstOccurrences fs).Pairwise fun f g => (order f g).isLE) ∧
      firstOccurrences fs = rank fs ∧ ∃ g ∈ rank fs, g.record = 1 ∧ g.method = .density := by
  intro finding fs
  obtain ⟨-, hkept, -, -, -, -, honly⟩ := ranks_first_occurrences.2.2 fs
  have hsorted : (firstOccurrences fs).Pairwise fun f g => (order f g).isLE := by decide +kernel
  exact ⟨by decide +kernel, by decide +kernel, by decide +kernel, hsorted,
    honly _ hsorted fun _ => rfl, hkept (finding 1 0.0) (by simp [fs])⟩

end LedgerWatch.Ranking
