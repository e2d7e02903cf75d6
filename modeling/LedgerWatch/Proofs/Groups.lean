import Mathlib.Algebra.BigOperators.Group.Finset.Basic
import Mathlib.Algebra.GroupWithZero.Nat
import LedgerWatch.Sorted

namespace LedgerWatch.Sorted

variable {κ υ ω α β : Type} [LT κ] [DecidableLT κ] [DecidableEq κ]

theorem map_alter {φ : υ → ω} {change : Option υ → υ} {change' : Option ω → ω}
    (h : ∀ v, φ (change v) = change' (v.map φ)) (key : κ) (entries : List (κ × υ)) :
    (alter key change entries).map (fun e => (e.1, φ e.2)) =
      alter key change' (entries.map fun e => (e.1, φ e.2)) := by
  induction entries with
  | nil => simp [alter, h]
  | cons first rest ih =>
    obtain ⟨k, v⟩ := first
    simp only [alter, List.map_cons]
    split
    · simp [h]
    · split
      · simp [h]
      · simp [ih]

theorem groupBy_append_cons (key : α → Option κ) (xs ys : List α) {x : α} (h : key x = none) :
    groupBy key (xs ++ x :: ys) = groupBy key (xs ++ ys) := by
  simp [groupBy, h]

theorem groupBy_map (f : β → α) (key : α → Option κ) (xs : List β) :
    groupBy key (xs.map f) =
      (groupBy (fun x => key (f x)) xs).map fun g => (g.1, g.2.map f) := by
  induction xs with
  | nil => rfl
  | cons x xs ih =>
    simp only [groupBy, List.map_cons, List.foldr_cons] at ih ⊢
    rw [ih]
    cases key (f x) with
    | none => rfl
    | some k =>
      -- the group may be new or have members already
      refine (map_alter ?_ k _).symm
      intro members
      cases members <;> rfl

/-- What a change adds to the weight at its key it adds to the weight of all. -/
theorem sum_map_alter {weight : υ → Nat} {change : Option υ → υ} {more : Nat}
    (h : ∀ v, weight (change v) = v.elim 0 weight + more) (key : κ) (entries : List (κ × υ)) :
    ((alter key change entries).map fun e => weight e.2).sum =
      (entries.map fun e => weight e.2).sum + more := by
  induction entries with
  | nil => simp [alter, h]
  | cons first rest ih =>
    obtain ⟨k, v⟩ := first
    simp only [alter, List.map_cons, List.sum_cons]
    split
    · simp [h, Nat.add_comm]
    · split
      · simp [h, Nat.add_right_comm]
      · simp [ih, Nat.add_assoc]

/-- A member that is put into its group is one more among the members of all groups. -/
theorem flatMap_alter_cons_perm (key : κ) (x : α) (groups : List (κ × List α)) :
    ((alter key (fun members => x :: members.getD []) groups).flatMap Prod.snd).Perm
      (x :: groups.flatMap Prod.snd) := by
  induction groups with
  | nil => simp [alter]
  | cons first rest ih =>
    obtain ⟨k, members⟩ := first
    simp only [alter, List.flatMap_cons]
    split
    · simp
    · split
      · simp
      · exact (ih.append_left members).trans List.perm_middle

/-- The groups hold what has a key, no member more or less often than the list. -/
theorem flatMap_groupBy_perm (key : α → Option κ) (xs : List α) :
    ((groupBy key xs).flatMap Prod.snd).Perm (xs.filter fun x => (key x).isSome) := by
  induction xs with
  | nil => exact .refl _
  | cons x xs ih =>
    simp only [groupBy, List.foldr_cons] at ih ⊢
    cases hx : key x with
    | none => simpa [hx] using ih
    | some k => simpa [hx] using (flatMap_alter_cons_perm k x _).trans (ih.cons x)

end LedgerWatch.Sorted
