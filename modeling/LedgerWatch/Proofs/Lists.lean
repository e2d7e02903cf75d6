import Mathlib.Data.List.Lattice
import Mathlib.Data.List.Nodup
import Mathlib.Data.List.Pairwise

namespace LedgerWatch.Lists

variable {α β : Type}

theorem isSome_mapM_iff {f : α → Option β} {xs : List α} :
    (xs.mapM f).isSome ↔ ∀ x ∈ xs, (f x).isSome := by
  induction xs with
  | nil => simp
  | cons x xs ih =>
    rw [List.forall_mem_cons, ← ih, List.mapM_cons]
    cases f x <;> cases xs.mapM f <;> simp

theorem map_eq_of_mapM {f : α → Option β} {xs : List α} {ys : List β}
    (h : xs.mapM f = some ys) : xs.map f = ys.map some := by
  induction xs generalizing ys with
  | nil => simpa using h
  | cons x xs ih =>
    rw [List.mapM_cons] at h
    cases hx : f x with
    | none => simp [hx] at h
    | some y =>
      cases hxs : xs.mapM f with
      | none => simp [hx, hxs] at h
      | some zs =>
        obtain rfl : y :: zs = ys := by simpa [hx, hxs] using h
        rw [List.map_cons, List.map_cons, hx, ih hxs]

theorem exists_of_mem_mapM {f : α → Option β} {xs : List α} {ys : List β}
    (h : xs.mapM f = some ys) {y : β} (hy : y ∈ ys) : ∃ x ∈ xs, f x = some y := by
  have hmem : some y ∈ xs.map f := by
    rw [map_eq_of_mapM h]
    exact List.mem_map_of_mem hy
  exact List.mem_map.1 hmem

theorem mapM_map_option {γ : Type} (f : α → Option β) (g : β → γ) (xs : List α) :
    (xs.mapM fun x => (f x).map g) = (xs.mapM f).map (List.map g) := by
  induction xs with
  | nil => rfl
  | cons x xs ih =>
    rw [List.mapM_cons, List.mapM_cons, ih]
    cases f x <;> cases xs.mapM f <;> simp

theorem exists_of_mem_left {R : α → β → Prop} {xs : List α} {ys : List β}
    (h : List.Forall₂ R xs ys) {x : α} (hx : x ∈ xs) : ∃ y ∈ ys, R x y := by
  induction h with
  | nil => cases hx
  | cons hfirst _ ih =>
    rcases List.mem_cons.1 hx with rfl | hx
    · exact ⟨_, List.mem_cons_self, hfirst⟩
    · obtain ⟨y, hy, hxy⟩ := ih hx
      exact ⟨y, List.mem_cons_of_mem _ hy, hxy⟩

/-- What keeps a mark of its member keeps the marks in order. -/
theorem map_filterMap_sublist {γ : Type} {f : α → Option β} {mark : β → γ} {mark' : α → γ}
    (h : ∀ x y, f x = some y → mark y = mark' x) (xs : List α) :
    ((xs.filterMap f).map mark).Sublist (xs.map mark') := by
  induction xs with
  | nil => exact .slnil
  | cons x xs ih =>
    cases hx : f x with
    | none => simpa [hx] using ih.cons (mark' x)
    | some y => simpa [hx, h x y hx] using ih.cons_cons (mark' x)

/-- What keeps the position of its member stands in the order of the list. -/
theorem increasing_filterMap_zipIdx {xs : List α} {f : α × Nat → Option β} {position : β → Nat}
    (h : ∀ x i y, f (x, i) = some y → position y = i) :
    ((xs.zipIdx.filterMap f).map position).Pairwise (· < ·) := by
  have hposition : ∀ (p : α × ℕ) (y : β), f p = some y → position y = p.2 :=
    fun p y hp => h p.1 p.2 y hp
  have hsub := map_filterMap_sublist hposition xs.zipIdx
  rw [List.zipIdx_map_snd] at hsub
  exact List.Pairwise.sublist hsub (List.pairwise_lt_range' ..)

theorem nodup_filterMap_zipIdx {xs : List α} {f : α × Nat → Option β} {position : β → Nat}
    (h : ∀ x i y, f (x, i) = some y → position y = i) :
    ((xs.zipIdx.filterMap f).map position).Nodup :=
  (increasing_filterMap_zipIdx h).imp Nat.ne_of_lt

theorem map_eq_map {f : α → β} {xs ys : List α} (hlen : xs.length = ys.length)
    (h : ∀ i (hi : i < xs.length) (hi' : i < ys.length), f xs[i] = f ys[i]) :
    xs.map f = ys.map f := by
  refine List.ext_getElem (by simpa using hlen) ?_
  intro i hi hi'
  rw [List.length_map] at hi hi'
  simpa using h i hi hi'

/-- What tells the same of each element tells the same of the lists. -/
theorem map_eq_map_of_forall {γ : Type} {f : α → β} {g : α → γ} {xs ys : List α}
    (h : ∀ x ∈ xs, ∀ y ∈ ys, f x = f y → g x = g y) (hmap : xs.map f = ys.map f) :
    xs.map g = ys.map g := by
  induction xs generalizing ys with
  | nil => rw [List.map_eq_nil_iff.1 hmap.symm]
  | cons x xs ih =>
    obtain ⟨y, ys, rfl, hy, hys⟩ := List.map_eq_cons_iff.1 hmap.symm
    rw [List.map_cons, List.map_cons, h x List.mem_cons_self y List.mem_cons_self hy.symm,
      ih (fun x hx y hy => h x (List.mem_cons_of_mem _ hx) y (List.mem_cons_of_mem _ hy)) hys.symm]

theorem take_zipIdx (xs : List α) (n : Nat) : xs.zipIdx.take n = (xs.take n).zipIdx := by
  apply List.ext_getElem?
  intro i
  simp only [List.getElem?_take, List.getElem?_zipIdx]
  split <;> rfl

/-- Among parts that are disjoint each member has its own. -/
theorem eq_of_pairwise_disjoint {part : α → List β} {xs : List α}
    (h : xs.Pairwise fun x y => (part x).Disjoint (part y)) {x y : α} (hx : x ∈ xs) (hy : y ∈ xs)
    {b : β} (hbx : b ∈ part x) (hby : b ∈ part y) : x = y := by
  have hsymm : Std.Symm fun x y => (part x).Disjoint (part y) := ⟨fun _ _ h => h.symm⟩
  by_contra hne
  exact h.forall hx hy hne hbx hby

theorem forall₂_zipIdx {R : α → β → Prop} {xs : List α} {ys : List β} (h : List.Forall₂ R xs ys)
    (start : Nat) :
    List.Forall₂ (fun m m' => R m.1 m'.1 ∧ m.2 = m'.2) (xs.zipIdx start) (ys.zipIdx start) := by
  induction h generalizing start with
  | nil => exact .nil
  | cons hfirst _ ih => exact .cons ⟨hfirst, rfl⟩ (ih (start + 1))

/-- Where one member alone contributes to a list, it contributes all of it. -/
theorem flatMap_eq_of_nodup {f : α → List β} {xs : List α} (hxs : xs.Nodup) {x : α} (hx : x ∈ xs)
    (h : ∀ y ∈ xs, y ≠ x → f y = []) : xs.flatMap f = f x := by
  obtain ⟨front, back, rfl⟩ := List.append_of_mem hx
  rw [List.nodup_middle, List.nodup_cons, List.mem_append, not_or] at hxs
  have hfront : front.flatMap f = [] := List.flatMap_eq_nil_iff.2 fun y hy =>
    h y (List.mem_append_left _ hy) fun heq => hxs.1.1 (heq ▸ hy)
  have hback : back.flatMap f = [] := List.flatMap_eq_nil_iff.2 fun y hy =>
    h y (List.mem_append_right front (List.mem_cons_of_mem x hy)) fun heq => hxs.1.2 (heq ▸ hy)
  rw [List.flatMap_append, List.flatMap_cons, hfront, hback, List.nil_append, List.append_nil]

/-- What is made of members with a mark each, chosen by the mark of one of them. -/
theorem filter_filterMap_of_nodup {γ : Type} [DecidableEq γ] {f : α → Option β} {mark : β → γ}
    {mark' : α → γ} (hf : ∀ x y, f x = some y → mark y = mark' x) {xs : List α}
    (hxs : (xs.map mark').Nodup) {x : α} (hx : x ∈ xs) :
    ((xs.filterMap f).filter fun y => mark y = mark' x) = (f x).toList := by
  rw [List.filterMap_eq_flatMap_toList, List.filter_flatMap,
    flatMap_eq_of_nodup (List.Nodup.of_map mark' hxs) hx, List.filter_eq_self.2]
  · intro y hy
    exact decide_eq_true (hf x y (Option.mem_toList.1 hy))
  · intro z hz hne
    apply List.filter_eq_nil_iff.2
    intro y hy heq
    have hmark := (hf z y (Option.mem_toList.1 hy)).symm.trans (of_decide_eq_true heq)
    exact hne (List.inj_on_of_nodup_map hxs hz hx hmark)

/-- What is made of members and their partners, chosen by the mark of one member: it has the partner
at its place. -/
theorem filter_filterMap_zip {γ δ : Type} [DecidableEq γ] {f : α × δ → Option β} {mark : β → γ}
    {mark' : α → γ} (hf : ∀ v y, f v = some y → mark y = mark' v.1) {xs : List α} {ys : List δ}
    (hlen : xs.length = ys.length) (hxs : (xs.map mark').Nodup) {i : ℕ} {x : α}
    (hx : xs[i]? = some x) : ∃ y, ys[i]? = some y ∧
      (((xs.zip ys).filterMap f).filter fun z => mark z = mark' x) = (f (x, y)).toList := by
  have hi := (List.getElem?_eq_some_iff.1 hx).1
  have hy : ys[i]? = some (ys.get ⟨i, hlen ▸ hi⟩) := List.getElem?_eq_getElem _
  have hmem : (x, ys.get ⟨i, hlen ▸ hi⟩) ∈ xs.zip ys :=
    List.mem_of_getElem? (List.getElem?_zip_eq_some.2 ⟨hx, hy⟩)
  rw [← List.map_fst_zip (Nat.le_of_eq hlen), List.map_map] at hxs
  exact ⟨_, hy, filter_filterMap_of_nodup hf hxs hmem⟩

/-- What a member is turned into stands behind what the members in front of it are turned into. -/
theorem getElem?_filterMap {f : α → Option β} {xs : List α} {i : ℕ} {x : α} (hx : xs[i]? = some x)
    {y : β} (hy : f x = some y) : (xs.filterMap f)[((xs.take i).filterMap f).length]? = some y := by
  obtain ⟨hi, rfl⟩ := List.getElem?_eq_some_iff.1 hx
  have hsplit : xs.filterMap f =
      (xs.take i).filterMap f ++ y :: (xs.drop (i + 1)).filterMap f := by
    conv_lhs => rw [← List.take_append_drop i xs, List.drop_eq_getElem_cons hi]
    rw [List.filterMap_append, List.filterMap_cons_some hy]
  rw [hsplit, List.getElem?_append_right (Nat.le_refl _), Nat.sub_self]
  rfl

theorem getElem?_filter {p : α → Bool} {xs : List α} {i : ℕ} {x : α} (hx : xs[i]? = some x)
    (hp : p x) : (xs.filter p)[((xs.take i).filter p).length]? = some x := by
  have hmap := getElem?_filterMap (f := Option.guard p) hx (y := x)
    (by simpa [Option.guard] using hp)
  simpa using hmap

/-- Part of a list whose members all differ, as the choice of its members. -/
theorem eq_filter_of_sublist {xs ys : List α} (h : xs.Sublist ys) (hys : ys.Nodup)
    {p : α → Bool} (hp : ∀ y ∈ ys, y ∈ xs ↔ p y) : xs = ys.filter p := by
  induction h with
  | slnil => rfl
  | @cons xs ys y h ih =>
    obtain ⟨hy, hys⟩ := List.nodup_cons.1 hys
    have hout : ¬p y := fun hin => hy (h.subset ((hp y List.mem_cons_self).2 hin))
    rw [List.filter_cons_of_neg hout]
    exact ih hys fun z hz => hp z (List.mem_cons_of_mem _ hz)
  | @cons_cons xs ys y h ih =>
    obtain ⟨hy, hys⟩ := List.nodup_cons.1 hys
    rw [List.filter_cons_of_pos ((hp y List.mem_cons_self).1 List.mem_cons_self), ← ih hys]
    intro z hz
    have hne : z ≠ y := fun heq => hy (heq ▸ hz)
    rw [← hp z (List.mem_cons_of_mem _ hz), List.mem_cons]
    exact ⟨.inr, fun h => h.resolve_left hne⟩

/-- In a list ordered by a relation the first `n` members are those with fewer than `n` ahead of
them. -/
theorem mem_take_iff_countP {p : α → α → Bool} {xs : List α} {n : Nat} {x : α}
    (h : xs.Pairwise fun y z => p y z ∧ p z y = false) (hself : p x x = false) (hx : x ∈ xs) :
    x ∈ xs.take n ↔ xs.countP (fun y => p y x) < n := by
  obtain ⟨front, back, rfl⟩ := List.append_of_mem hx
  obtain ⟨-, hback, hacross⟩ := List.pairwise_append.1 h
  have hahead : ∀ y ∈ front, p y x = true := fun y hy => (hacross y hy x List.mem_cons_self).1
  have hcount : (front ++ x :: back).countP (fun y => p y x) = front.length := by
    have hnone : back.countP (fun y => p y x) = 0 := by
      rw [List.countP_eq_zero]
      intro y hy
      rw [((List.pairwise_cons.1 hback).1 y hy).2]
      exact Bool.false_ne_true
    rw [List.countP_append, List.countP_cons, hnone, hself, List.countP_eq_length.2 hahead]
    simp
  rw [hcount]
  constructor
  · intro hmem
    by_contra hle
    rw [List.take_append_of_le_length (Nat.le_of_not_lt hle)] at hmem
    have hself' := hahead x (List.mem_of_mem_take hmem)
    rw [hself] at hself'
    cases hself'
  · intro hlt
    obtain ⟨m, rfl⟩ : ∃ m, n = front.length + (m + 1) := ⟨n - front.length - 1, by omega⟩
    rw [List.take_length_add_append, List.take_succ_cons]
    exact List.mem_append_right front List.mem_cons_self

section Sorting

/-- A list is cut in one way only into members that fail a test and members behind them that
pass it. -/
theorem append_inj_of_test {p : α → Bool} {front back front' back' : List α}
    (h : front ++ back = front' ++ back') (hfront : ∀ x ∈ front, p x = false)
    (hback : ∀ x ∈ back, p x) (hfront' : ∀ x ∈ front', p x = false) (hback' : ∀ x ∈ back', p x) :
    front = front' ∧ back = back' := by
  have hpass : ∀ {front back : List α}, (∀ x ∈ front, p x = false) → (∀ x ∈ back, p x) →
      (front ++ back).filter p = back := by
    intro front back hfront hback
    rw [List.filter_append, List.filter_eq_nil_iff.2 (by simpa using hfront), List.nil_append,
      List.filter_eq_self.2 hback]
  obtain rfl : back = back' := by rw [← hpass hfront hback, h, hpass hfront' hback']
  exact ⟨List.append_cancel_right h, rfl⟩

variable {le : α → α → Bool} (trans : ∀ x y z, le x y → le y z → le x z)
  (total : ∀ x y, le x y || le y x)
include trans total

/-- A member goes into the sorted rest in front of all that it may stand before. -/
theorem exists_mergeSort_cons (x : α) (xs : List α) :
    ∃ front back, (x :: xs).mergeSort le = front ++ x :: back ∧
      xs.mergeSort le = front ++ back ∧ (∀ y ∈ front, le x y = false) ∧ ∀ y ∈ back, le x y := by
  obtain ⟨front, back, hcons, hxs, hfront⟩ := List.mergeSort_cons trans total x xs
  refine ⟨front, back, hcons, hxs, by simpa using hfront, ?_⟩
  have hsorted := List.pairwise_mergeSort trans total (x :: xs)
  rw [hcons] at hsorted
  exact (List.pairwise_cons.1 (List.pairwise_append.1 hsorted).2.1).1

/-- Members in order, none of them behind one that is left out, are the first ones of the sorted
list; no two members may be level. -/
theorem eq_take_mergeSort {front back xs : List α}
    (anti : ∀ x ∈ xs, ∀ y ∈ xs, le x y → le y x → x = y) (hperm : (front ++ back).Perm xs)
    (hfront : front.Pairwise fun x y => le x y) (hle : ∀ x ∈ front, ∀ y ∈ back, le x y) :
    front = (xs.mergeSort le).take front.length := by
  have hsorted : (front ++ back.mergeSort le).Pairwise fun x y => le x y := by
    refine List.pairwise_append.2 ⟨hfront, List.pairwise_mergeSort trans total back, ?_⟩
    exact fun x hx y hy => hle x hx y (List.mem_mergeSort.1 hy)
  have hsame : (front ++ back.mergeSort le).Perm (xs.mergeSort le) :=
    (((List.mergeSort_perm back le).append_left front).trans hperm).trans
      (List.mergeSort_perm xs le).symm
  have heq : front ++ back.mergeSort le = xs.mergeSort le := by
    refine hsame.eq_of_pairwise ?_ hsorted (List.pairwise_mergeSort trans total xs)
    intro x y hx hy
    exact anti x (List.mem_mergeSort.1 (hsame.mem_iff.1 hx)) y (List.mem_mergeSort.1 hy)
  rw [← heq, List.take_left]

/-- Where no two members are level, sorting forgets the order. -/
theorem mergeSort_eq_of_perm {xs ys : List α} (anti : ∀ x ∈ ys, ∀ y ∈ ys, le x y → le y x → x = y)
    (h : xs.Perm ys) : xs.mergeSort le = ys.mergeSort le := by
  have hperm : (xs.mergeSort le ++ []).Perm ys := by
    rw [List.append_nil]
    exact (List.mergeSort_perm xs le).trans h
  have htake := eq_take_mergeSort trans total anti hperm
    (List.pairwise_mergeSort trans total xs) fun _ _ _ hy => absurd hy List.not_mem_nil
  rw [htake, List.length_mergeSort, h.length_eq]
  exact List.take_of_length_le (Nat.le_of_eq (List.length_mergeSort ys))

/-- Members that are level stay in the order in which they were. -/
theorem pairwise_mergeSort_stable {R : α → α → Prop} {xs : List α} (h : xs.Pairwise R) :
    (xs.mergeSort le).Pairwise fun x y => le x y ∧ (le y x → R x y) := by
  induction xs with
  | nil => simp
  | cons x xs ih =>
    obtain ⟨hx, hxs⟩ := List.pairwise_cons.1 h
    obtain ⟨front, back, hcons, hrest, hfront, hback⟩ := exists_mergeSort_cons trans total x xs
    have hih := ih hxs
    rw [hrest] at hih
    obtain ⟨hpf, hpb, hacross⟩ := List.pairwise_append.1 hih
    have hmem : ∀ y ∈ back, y ∈ xs := by
      intro y hy
      exact List.mem_mergeSort.1 (hrest ▸ List.mem_append_right front hy)
    rw [hcons]
    refine List.pairwise_append.2 ⟨hpf, List.pairwise_cons.2 ⟨?_, hpb⟩, ?_⟩
    · exact fun y hy => ⟨hback y hy, fun _ => hx y (hmem y hy)⟩
    · intro y hy z hz
      rcases List.mem_cons.1 hz with rfl | hz
      · have hless := hfront y hy
        refine ⟨by simpa [hless] using total z y, fun hle => ?_⟩
        rw [hless] at hle
        cases hle
      · exact hacross y hy z hz

/-- Some members of a sorted list are sorted as they are on their own, ties included. -/
theorem filter_mergeSort (p : α → Bool) (xs : List α) :
    (xs.mergeSort le).filter p = (xs.filter p).mergeSort le := by
  induction xs with
  | nil => simp
  | cons x xs ih =>
    obtain ⟨front, back, hcons, hxs, hfront, hback⟩ := exists_mergeSort_cons trans total x xs
    rw [hxs, List.filter_append] at ih
    rw [hcons, List.filter_append]
    by_cases hx : p x
    · -- with and without the others the member cuts the sorted rest at the same place
      obtain ⟨front', back', hcons', hxs', hfront', hback'⟩ :=
        exists_mergeSort_cons trans total x (xs.filter p)
      obtain ⟨rfl, rfl⟩ := append_inj_of_test (ih.trans hxs')
        (fun y hy => hfront y (List.mem_of_mem_filter hy))
        (fun y hy => hback y (List.mem_of_mem_filter hy)) hfront' hback'
      rw [List.filter_cons_of_pos hx, List.filter_cons_of_pos hx, hcons']
    · rw [List.filter_cons_of_neg hx, List.filter_cons_of_neg hx, ih]

/-- What may stand behind all of a list is sorted behind it. -/
theorem mergeSort_append_of_le {xs ys : List α} (h : ∀ x ∈ xs, ∀ y ∈ ys, le x y) :
    (xs ++ ys).mergeSort le = xs.mergeSort le ++ ys.mergeSort le := by
  induction xs with
  | nil => simp
  | cons x xs ih =>
    rw [List.forall_mem_cons] at h
    obtain ⟨front, back, hcons, hrest, hfront, hback⟩ :=
      exists_mergeSort_cons trans total x (xs ++ ys)
    obtain ⟨front', back', hcons', hrest', hfront', hback'⟩ :=
      exists_mergeSort_cons trans total x xs
    -- behind the member there is also all of the second list
    have hbehind : ∀ y ∈ back' ++ ys.mergeSort le, le x y := by
      intro y hy
      rcases List.mem_append.1 hy with hy | hy
      · exact hback' y hy
      · exact h.1 y (List.mem_mergeSort.1 hy)
    rw [ih h.2, hrest', List.append_assoc] at hrest
    obtain ⟨rfl, rfl⟩ := append_inj_of_test hrest hfront' hbehind hfront hback
    rw [List.cons_append, hcons, hcons', List.append_assoc, List.cons_append]

/-- Whether two members may stand in either order. -/
def level (le : α → α → Bool) (x y : α) : Bool := le x y && le y x

omit total in
theorem level_trans {x y z : α} (hxy : level le x y) (hxz : level le x z) : le y z := by
  rw [level, Bool.and_eq_true] at hxy hxz
  exact trans y x z hxy.2 hxz.1

/-- Members that are level with a given one stand as they stood before sorting. -/
theorem filter_level_mergeSort (x : α) (xs : List α) :
    (xs.mergeSort le).filter (level le x) = xs.filter (level le x) := by
  rw [filter_mergeSort trans total]
  apply List.mergeSort_of_pairwise
  refine List.pairwise_iff_forall_sublist.2 ?_
  intro y z hyz
  have hmem : ∀ w ∈ [y, z], level le x w := fun w hw => (List.mem_filter.1 (hyz.subset hw)).2
  exact level_trans trans (hmem y (by simp)) (hmem z (by simp))

omit trans in
/-- A list in order is known by how the members stand in it that are level with each other. -/
theorem eq_of_filter_level {xs ys : List α} (hxs : xs.Pairwise fun x y => le x y)
    (hys : ys.Pairwise fun x y => le x y)
    (h : ∀ x, xs.filter (level le x) = ys.filter (level le x)) : xs = ys := by
  have hself : ∀ x, level le x x := fun x => by simpa [level] using total x x
  have hmem : ∀ {xs ys : List α}, (∀ x, xs.filter (level le x) = ys.filter (level le x)) →
      ∀ x ∈ xs, x ∈ ys := by
    intro xs ys h x hx
    have hfilter := List.mem_filter.2 ⟨hx, hself x⟩
    rw [h x] at hfilter
    exact List.mem_of_mem_filter hfilter
  induction xs generalizing ys with
  | nil => exact (List.eq_nil_iff_forall_not_mem.2 fun y hy =>
      List.not_mem_nil (hmem (fun x => (h x).symm) y hy)).symm
  | cons x xs ih =>
    cases ys with
    | nil => exact absurd (hmem h x List.mem_cons_self) List.not_mem_nil
    | cons y ys =>
      obtain ⟨hx, hrest⟩ := List.pairwise_cons.1 hxs
      obtain ⟨hy, hrest'⟩ := List.pairwise_cons.1 hys
      -- each of the two first members stands in the other list, so neither has to be in front
      have hxy : level le x y := by
        rw [level, Bool.and_eq_true]
        constructor
        · rcases List.mem_cons.1 (hmem (fun x => (h x).symm) y List.mem_cons_self) with rfl | hy'
          · simpa using total y y
          · exact hx y hy'
        · rcases List.mem_cons.1 (hmem h x List.mem_cons_self) with rfl | hx'
          · simpa using total x x
          · exact hy x hx'
      have hfirst := h x
      rw [List.filter_cons_of_pos (hself x), List.filter_cons_of_pos hxy] at hfirst
      obtain rfl := (List.cons.inj hfirst).1
      refine congrArg _ (ih hrest hrest' fun z => ?_)
      have hz := h z
      by_cases hlevel : level le z x
      · rw [List.filter_cons_of_pos hlevel, List.filter_cons_of_pos hlevel] at hz
        exact (List.cons.inj hz).2
      · rwa [List.filter_cons_of_neg hlevel, List.filter_cons_of_neg hlevel] at hz

/-- Sorting is the only way to put a list in order and to leave those that are level as they are. -/
theorem eq_mergeSort_iff {xs ys : List α} :
    ys = xs.mergeSort le ↔ (ys.Pairwise fun x y => le x y) ∧
      ∀ x, ys.filter (level le x) = xs.filter (level le x) := by
  constructor
  · rintro rfl
    exact ⟨List.pairwise_mergeSort trans total xs,
      fun x => filter_level_mergeSort trans total x xs⟩
  · rintro ⟨hsorted, hlevel⟩
    refine eq_of_filter_level total hsorted (List.pairwise_mergeSort trans total xs) ?_
    intro x
    rw [hlevel, filter_level_mergeSort trans total]

end Sorting

end LedgerWatch.Lists
