import Mathlib.Data.List.Perm.Subperm
import Mathlib.Data.List.Nodup

namespace LedgerWatch

/-- The second list has the members of the first one in another order: the one at position `i` now
stands at position `p i`. -/
structure Rearranged {α : Type} (p : Nat → Nat) (xs ys : List α) : Prop where
  injective : Function.Injective p
  length_eq : ys.length = xs.length
  getElem?_eq : ∀ i, ys[p i]? = xs[i]?

namespace Rearranged

variable {α β : Type} {p q : Nat → Nat} {xs ys zs : List α}

theorem refl (xs : List α) : Rearranged id xs xs :=
  ⟨Function.injective_id, rfl, fun _ => rfl⟩

theorem trans (h : Rearranged p xs ys) (h' : Rearranged q ys zs) : Rearranged (q ∘ p) xs zs :=
  ⟨h'.injective.comp h.injective, h'.length_eq.trans h.length_eq,
    fun i => (h'.getElem?_eq (p i)).trans (h.getElem?_eq i)⟩

def behind (p : Nat → Nat) : Nat → Nat
  | 0 => 0
  | i + 1 => p i + 1

theorem cons (h : Rearranged p xs ys) (x : α) : Rearranged (behind p) (x :: xs) (x :: ys) := by
  refine ⟨?_, by rw [List.length_cons, List.length_cons, h.length_eq], ?_⟩
  · intro i j hij
    cases i <;> cases j <;> simp only [behind] at hij
    · rfl
    · omega
    · omega
    · rw [h.injective (Nat.succ.inj hij)]
  · intro i
    cases i with
    | zero => rfl
    | succ i => simpa only [behind, List.getElem?_cons_succ] using h.getElem?_eq i

def swapFirst : Nat → Nat
  | 0 => 1
  | 1 => 0
  | i + 2 => i + 2

theorem swap (x y : α) (xs : List α) : Rearranged swapFirst (y :: x :: xs) (x :: y :: xs) := by
  refine ⟨?_, rfl, ?_⟩
  · intro i j hij
    unfold swapFirst at hij
    split at hij <;> split at hij <;> omega
  · intro i
    match i with
    | 0 => rfl
    | 1 => rfl
    | _ + 2 => rfl

theorem exists_of_perm (h : xs.Perm ys) : ∃ p, Rearranged p xs ys := by
  induction h with
  | nil => exact ⟨id, refl []⟩
  | cons x _ ih =>
    obtain ⟨p, hp⟩ := ih
    exact ⟨behind p, hp.cons x⟩
  | swap x y xs => exact ⟨swapFirst, swap x y xs⟩
  | trans _ _ ih ih' =>
    obtain ⟨p, hp⟩ := ih
    obtain ⟨q, hq⟩ := ih'
    exact ⟨q ∘ p, hp.trans hq⟩

theorem map (h : Rearranged p xs ys) (f : α → β) : Rearranged p (xs.map f) (ys.map f) := by
  refine ⟨h.injective, by rw [List.length_map, List.length_map, h.length_eq], ?_⟩
  intro i
  rw [List.getElem?_map, List.getElem?_map, h.getElem?_eq]

theorem lt_length (h : Rearranged p xs ys) {i : Nat} (hi : i < xs.length) : p i < ys.length := by
  have hsome := h.getElem?_eq i
  rw [List.getElem?_eq_getElem hi] at hsome
  exact (List.getElem?_eq_some_iff.1 hsome).1

theorem zipIdx_perm (h : Rearranged p xs ys) :
    ys.zipIdx.Perm (xs.zipIdx.map fun m => (m.1, p m.2)) := by
  have hnodup : (xs.zipIdx.map fun m => (m.1, p m.2)).Nodup := by
    have hpositions : (xs.zipIdx.map Prod.snd).Nodup := by
      rw [List.zipIdx_map_snd]
      exact List.nodup_range'
    apply List.Nodup.of_map Prod.snd
    rw [List.map_map]
    have hmoved := hpositions.map h.injective
    rwa [List.map_map] at hmoved
  have hsub : (xs.zipIdx.map fun m => (m.1, p m.2)) ⊆ ys.zipIdx := by
    intro m hm
    obtain ⟨⟨x, i⟩, hx, rfl⟩ := List.mem_map.1 hm
    rw [List.mem_zipIdx_iff_getElem?] at hx ⊢
    exact (h.getElem?_eq i).trans hx
  -- no member occurs twice, and there are as many on both sides
  refine ((hnodup.subperm hsub).perm_of_length_le ?_).symm
  simp [h.length_eq]

theorem filterMap_perm (h : Rearranged p xs ys) {f g : α × Nat → Option β} {φ : β → β}
    (hfg : ∀ x i, g (x, p i) = (f (x, i)).map φ) :
    (ys.zipIdx.filterMap g).Perm ((xs.zipIdx.filterMap f).map φ) := by
  refine (h.zipIdx_perm.filterMap g).trans (.of_eq ?_)
  rw [List.filterMap_map, List.map_filterMap]
  congr 1
  funext m
  exact hfg m.1 m.2

end Rearranged

end LedgerWatch
