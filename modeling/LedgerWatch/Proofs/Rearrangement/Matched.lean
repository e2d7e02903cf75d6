import Mathlib.Data.List.Forall2
import Mathlib.Data.Multiset.Filter
import LedgerWatch.Proofs.Finding.Ranked
import LedgerWatch.Proofs.Keys

namespace LedgerWatch

/-- The members of the two lists can be paired off, one to one, into pairs of the relation. -/
def Matched {α β : Type} (R : α → β → Prop) (xs : List α) (ys : List β) : Prop :=
  Multiset.Rel R xs ys

namespace Matched

variable {α β γ δ : Type} {R : α → β → Prop} {S : γ → δ → Prop} {xs : List α} {ys : List β}

theorem nil : Matched R [] [] := .zero

theorem append (h : Matched R xs ys) {xs' : List α} {ys' : List β} (h' : Matched R xs' ys') :
    Matched R (xs ++ xs') (ys ++ ys') := by
  rw [Matched, ← Multiset.coe_add, ← Multiset.coe_add]
  exact Multiset.Rel.add h h'

theorem of_map_perm {zs zs' : List γ} (h : zs.Perm zs') {f : γ → α} {g : γ → β}
    (hfg : ∀ z ∈ zs, R (f z) (g z)) : Matched R (zs.map f) (zs'.map g) := by
  rw [Matched, ← Multiset.map_coe, ← Multiset.map_coe, ← Multiset.coe_eq_coe.2 h]
  exact Multiset.rel_map.2 (Multiset.rel_refl_of_refl_on hfg)

theorem of_map_left {f : γ → α} {zs : List γ} (h : Matched R (zs.map f) ys) :
    Matched (fun z y => R (f z) y) zs ys := by
  rw [Matched, ← Multiset.map_coe, ← Multiset.map_id (ys : Multiset β)] at h
  exact Multiset.rel_map.1 h

theorem mono {R' : α → β → Prop} (h : Matched R xs ys) (himp : ∀ x y, R x y → R' x y) :
    Matched R' xs ys :=
  Multiset.Rel.mono h fun x _ y _ => himp x y

theorem flatMap {zs : List γ} {zs' : List δ} (h : List.Forall₂ S zs zs') {f : γ → List α}
    {g : δ → List β} (hfg : ∀ z z', S z z' → Matched R (f z) (g z')) :
    Matched R (zs.flatMap f) (zs'.flatMap g) := by
  induction h with
  | nil => exact nil
  | cons hfirst _ ih => exact (hfg _ _ hfirst).append ih

/-- What is made of the groups of a list, where the other list has the same members. -/
theorem flatMap_groupBy {κ : Type} [LT κ] [DecidableLT κ] [DecidableEq κ]
    [IsStrictTotalOrder κ (· < ·)] {zs zs' : List γ} (h : zs.Perm zs') (key : γ → Option κ)
    {f : κ × List γ → List α} {g : κ × List γ → List β}
    (hfg : ∀ k, Matched R (f (k, zs.filter fun z => key z = some k))
      (g (k, zs'.filter fun z => key z = some k))) :
    Matched R ((Sorted.groupBy key zs).flatMap f) ((Sorted.groupBy key zs').flatMap g) := by
  obtain ⟨keys, hzs, hzs'⟩ := Sorted.exists_keys_of_perm key h
  rw [hzs, hzs', List.flatMap_map, List.flatMap_map]
  refine flatMap (S := Eq) (List.forall₂_same.2 fun _ _ => rfl) ?_
  rintro k _ rfl
  exact hfg k

theorem filter (h : Matched R xs ys) {p : α → Bool} {q : β → Bool}
    (hpq : ∀ x y, R x y → p x = q y) : Matched R (xs.filter p) (ys.filter q) := by
  have hfilter : ∀ {s : Multiset α} {t : Multiset β}, Multiset.Rel R s t →
      Multiset.Rel R (s.filter fun x => p x) (t.filter fun y => q y) := by
    intro s t h
    induction h with
    | zero => exact .zero
    | @cons x y _ _ hxy _ ih =>
      have hpq := hpq x y hxy
      rw [Multiset.filter_cons, Multiset.filter_cons]
      by_cases hx : p x
      · rw [if_pos hx, if_pos (hpq ▸ hx)]
        exact .add (.cons hxy .zero) ih
      · rw [if_neg hx, if_neg (hpq ▸ hx)]
        exact .add .zero ih
  have hcoe := hfilter h
  simp only [Multiset.filter_coe, Bool.decide_eq_true] at hcoe
  exact hcoe

theorem any_eq (h : Matched R xs ys) {p : α → Bool} {q : β → Bool}
    (hpq : ∀ x y, R x y → p x = q y) : xs.any p = ys.any q := by
  rw [Bool.eq_iff_iff, List.any_eq_true, List.any_eq_true]
  constructor
  · rintro ⟨x, hx, hpx⟩
    obtain ⟨y, hy, hxy⟩ := Multiset.exists_mem_of_rel_of_mem h hx
    exact ⟨y, hy, hpq x y hxy ▸ hpx⟩
  · rintro ⟨y, hy, hqy⟩
    obtain ⟨x, hx, hxy⟩ := Multiset.exists_mem_of_rel_of_mem (Multiset.rel_flip.2 h) hy
    exact ⟨x, hx, (hpq x y hxy).symm ▸ hqy⟩

theorem firsts_of_apart {R : Finding → Finding → Prop} {fs fs' : List Finding}
    (h : Matched R fs fs') (hfs : fs.Pairwise Finding.Apart) (hfs' : fs'.Pairwise Finding.Apart) :
    Matched R (Ranking.firsts fs) (Ranking.firsts fs') := by
  rwa [Ranking.firsts_eq_self hfs, Ranking.firsts_eq_self hfs']

/-- The first finding on each subject, where a relation tells subjects apart on both sides. -/
theorem firsts_append {R : Finding → Finding → Prop}
    (hsubject : ∀ f f' g g', R f f' → R g g' →
      Ranking.sameSubject f g = Ranking.sameSubject f' g')
    {fs gs fs' gs' : List Finding} (hfs : Matched R fs fs')
    (hfirsts : Matched R (Ranking.firsts fs) (Ranking.firsts fs'))
    (hgs : Matched R (Ranking.firsts gs) (Ranking.firsts gs')) :
    Matched R (Ranking.firsts (fs ++ gs)) (Ranking.firsts (fs' ++ gs')) := by
  rw [Ranking.firsts_append, Ranking.firsts_append]
  refine hfirsts.append (hgs.filter ?_)
  intro g g' hg
  rw [hfs.any_eq fun f f' hf => hsubject f f' g g' hf hg]

end Matched

end LedgerWatch
