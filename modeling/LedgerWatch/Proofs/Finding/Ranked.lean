import LedgerWatch.Proofs.Finding.Roster
import LedgerWatch.Proofs.Number.Order

namespace LedgerWatch.Ranking

theorem isNaN_weight (score : Float) : (weight score).isNaN = false := by
  unfold weight
  split
  · decide
  · simpa using ‹¬score.isNaN›

theorem weight_total (x y : Float) : weight x ≤ weight y ∨ weight y ≤ weight x :=
  Binary64.le_total (isNaN_weight x) (isNaN_weight y)

theorem precedes_iff {f g : Finding} :
    precedes f g = true ↔ f.severity.priority < g.severity.priority ∨
      f.severity.priority = g.severity.priority ∧ weight g.score ≤ weight f.score := by
  simp [precedes]

theorem precedes_trans (f g h : Finding) (hfg : precedes f g) (hgh : precedes g h) :
    precedes f h := by
  rw [precedes_iff] at hfg hgh ⊢
  rcases hfg with hfg | ⟨hfg, hscore⟩
  · left
    omega
  · rcases hgh with hgh | ⟨hgh, hscore'⟩
    · left
      omega
    · exact .inr ⟨hfg.trans hgh, Binary64.le_trans hscore' hscore⟩

theorem precedes_total (f g : Finding) : precedes f g || precedes g f := by
  rw [Bool.or_eq_true, precedes_iff, precedes_iff]
  have hscore := weight_total g.score f.score
  rcases Nat.lt_trichotomy f.severity.priority g.severity.priority with h | h | h
  · exact .inl (.inl h)
  · rcases hscore with hscore | hscore
    · exact .inl (.inr ⟨h, hscore⟩)
    · exact .inr (.inr ⟨h.symm, hscore⟩)
  · exact .inr (.inl h)

theorem pairwise_prioritize (fs : List Finding) :
    (prioritize fs).Pairwise fun f g => precedes f g :=
  List.pairwise_mergeSort precedes_trans precedes_total fs

@[simp] theorem rank_nil : rank [] = [] := List.mergeSort_nil

theorem firsts_append (fs gs : List Finding) :
    firsts (fs ++ gs) =
      firsts fs ++ (firsts gs).filter fun g => !fs.any fun f => sameSubject f g := by
  induction fs with
  | nil => simp [firsts]
  | cons f fs ih =>
    rw [List.cons_append, firsts, ih, firsts, List.filter_append, List.filter_filter,
      List.cons_append]
    simp only [List.any_cons, Bool.not_or]

theorem any_firsts (fs : List Finding) (g : Finding) :
    ((firsts fs).any fun f => sameSubject f g) = fs.any fun f => sameSubject f g := by
  induction fs with
  | nil => rfl
  | cons f fs ih =>
    rw [firsts, List.any_cons, List.any_cons, List.any_filter]
    cases hf : sameSubject f g with
    | true => rfl
    | false =>
      rw [Bool.false_or, Bool.false_or, ← ih]
      refine congrArg (List.any _) (funext fun h => ?_)
      cases hg : sameSubject h g with
      | false => exact Bool.and_false _
      | true =>
        obtain ⟨hrecord, hmethod⟩ := sameSubject_iff.1 hg
        have hne : sameSubject f h = false := by
          rw [← hf, Bool.eq_iff_iff, sameSubject_iff, sameSubject_iff, hrecord, hmethod]
        rw [hne]
        rfl

theorem firsts_append_of_apart {fs gs : List Finding} (h : ∀ f ∈ fs, ∀ g ∈ gs, f.Apart g) :
    firsts (fs ++ gs) = firsts fs ++ firsts gs := by
  rw [firsts_append, List.filter_eq_self.2]
  intro g hg
  rw [Bool.not_eq_true', List.any_eq_false]
  intro f hf hsame
  exact h f hf g ((firsts_sublist gs).subset hg) (sameSubject_iff.1 hsame)

theorem filter_prioritize (p : Finding → Bool) (fs : List Finding) :
    (prioritize fs).filter p = prioritize (fs.filter p) :=
  Lists.filter_mergeSort precedes_trans precedes_total p fs

theorem filter_firsts {p : Finding → Bool} (hp : ∀ f g, sameSubject f g → p f = p g)
    (fs : List Finding) : (firsts fs).filter p = firsts (fs.filter p) := by
  induction fs with
  | nil => rfl
  | cons f fs ih =>
    rw [firsts]
    by_cases hf : p f
    · rw [List.filter_cons_of_pos hf, List.filter_cons_of_pos hf, firsts, ← ih, List.filter_comm]
    · rw [List.filter_cons_of_neg hf, List.filter_cons_of_neg hf, ← ih, List.filter_filter]
      -- what the first finding shuts out fails the test as the first one does
      apply List.filter_congr
      intro g _
      cases hg : p g with
      | false => rfl
      | true =>
        have hsame : sameSubject f g ≠ true := fun hsame => hf ((hp f g hsame).trans hg)
        simp [hsame]

def byMethod (m : Method) (fs : List Finding) : List Finding := fs.filter fun f => f.method == m

theorem byMethod_rank (m : Method) (fs : List Finding) :
    byMethod m (rank fs) = rank (byMethod m fs) := by
  rw [byMethod, rank, filter_prioritize, filter_firsts, rank, byMethod]
  intro f g hsame
  rw [(sameSubject_iff.1 hsame).2]

end LedgerWatch.Ranking
