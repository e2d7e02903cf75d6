import LedgerWatch.Proofs.Number.Signs
import LedgerWatch.Stats.Distance

namespace LedgerWatch.Stats

open Binary64

def presence (row : List Float) : List Bool := row.map fun x => !x.isNaN

def overlap (a b : List Float) : Bool := (a.zip b).any fun p => !p.1.isNaN && !p.2.isNaN

def Measured (row : List Float) : Prop := ∀ x ∈ row, x.isFinite = true ∨ x.isNaN = true

instance (row : List Float) : Decidable (Measured row) :=
  inferInstanceAs (Decidable (∀ x ∈ row, x.isFinite = true ∨ x.isNaN = true))

section Overlap

variable {a b : List Float}

theorem overlap_eq_presence (a b : List Float) :
    overlap a b = ((presence a).zip (presence b)).any fun p => p.1 && p.2 := by
  rw [overlap, presence, presence, List.zip_map, List.any_map]
  rfl

theorem overlap_comm (a b : List Float) : overlap a b = overlap b a := by
  rw [overlap, overlap, ← List.zip_swap, List.any_map]
  simp only [Function.comp_def, Prod.fst_swap, Prod.snd_swap, Bool.and_comm]

theorem shared_eq_nil_iff : shared a b = [] ↔ overlap a b = false := by
  rw [shared, overlap, List.filter_eq_nil_iff, List.any_eq_false]

theorem isSome_squaredDistance? (a b : List Float) :
    (squaredDistance? a b).isSome = overlap a b := by
  rw [squaredDistance?]
  cases h : overlap a b with
  | false =>
    rw [if_pos (shared_eq_nil_iff.2 h)]
    rfl
  | true =>
    have hne : shared a b ≠ [] := fun hnil => by simp [shared_eq_nil_iff.1 hnil] at h
    rw [if_neg hne]
    rfl

theorem isSome_distance? (a b : List Float) : (distance? a b).isSome = overlap a b := by
  rw [distance?, Option.isSome_map, isSome_squaredDistance?]

end Overlap

section Sign

variable {a b : List Float}

theorem isFinite_of_mem_shared (ha : Measured a) (hb : Measured b) {p : Float × Float}
    (hp : p ∈ shared a b) : p.1.isFinite = true ∧ p.2.isFinite = true := by
  obtain ⟨hmem, hpresent⟩ := List.mem_filter.1 hp
  simp only [Bool.and_eq_true, Bool.not_eq_true'] at hpresent
  obtain ⟨hleft, hright⟩ := List.of_mem_zip hmem
  refine ⟨(ha _ hleft).resolve_right ?_, (hb _ hright).resolve_right ?_⟩
  · rw [hpresent.1]
    exact Bool.false_ne_true
  · rw [hpresent.2]
    exact Bool.false_ne_true

theorem isPlus_foldl {α : Type} {f : α → Float} {xs : List α} {start : Float}
    (h : ∀ x ∈ xs, IsPlus (f x)) (hstart : IsPlus start) :
    IsPlus (xs.foldl (fun total x => total + f x) start) := by
  induction xs generalizing start with
  | nil => exact hstart
  | cons x xs ih =>
    obtain ⟨hx, hxs⟩ := List.forall_mem_cons.1 h
    exact ih hxs (hstart.add hx)

theorem isPlus_of_distance? (ha : Measured a) (hb : Measured b) {d : Float}
    (h : distance? a b = some d) : IsPlus d := by
  have hgap : ∀ p ∈ shared a b, IsPlus (squaredGap p) := by
    intro p hp
    obtain ⟨hx, hy⟩ := isFinite_of_mem_shared ha hb hp
    exact .mul_self (rounds_sub hx hy).not_isNaN
  obtain ⟨squared, hsquared, rfl⟩ := Option.map_eq_some_iff.1 h
  unfold squaredDistance? at hsquared
  simp only at hsquared
  split at hsquared
  · cases hsquared
  · obtain rfl := Option.some.inj hsquared
    exact (isPlus_foldl hgap .zero).sqrt

end Sign

end LedgerWatch.Stats
