import Mathlib.Data.List.Forall2
import Mathlib.Data.List.Nodup
import Mathlib.Data.List.Perm.Basic
import Mathlib.Logic.Relation
import LedgerWatch.Network.Components
import LedgerWatch.Proofs.Lists

namespace LedgerWatch.Network

section Reach

variable (candidates stack unreached : List Actor)

theorem reach_perm :
    ((reach candidates (stack, unreached)).1 ++ (reach candidates (stack, unreached)).2).Perm
      (stack ++ unreached) := by
  induction candidates generalizing stack unreached with
  | nil => rfl
  | cons a as ih =>
    unfold reach
    split
    · rename_i h
      -- the candidate has gone from the one list to the other
      have hmoved := List.perm_middle.symm.trans ((List.perm_cons_erase h).symm.append_left stack)
      exact (ih _ _).trans hmoved
    · exact ih _ _

theorem reach_snd_sublist : (reach candidates (stack, unreached)).2.Sublist unreached := by
  induction candidates generalizing stack unreached with
  | nil => exact .refl _
  | cons a as ih =>
    unfold reach
    split
    · exact (ih _ _).trans List.erase_sublist
    · exact ih _ _

theorem subset_reach_fst : stack ⊆ (reach candidates (stack, unreached)).1 := by
  induction candidates generalizing stack unreached with
  | nil => exact fun _ h => h
  | cons a as ih =>
    unfold reach
    split
    · exact fun b hb => ih _ _ (List.mem_cons_of_mem _ hb)
    · exact ih _ _

variable {candidates stack unreached}

theorem mem_of_mem_reach_fst {b : Actor} (h : b ∈ (reach candidates (stack, unreached)).1) :
    b ∈ stack ∨ b ∈ candidates ∧ b ∈ unreached := by
  induction candidates generalizing stack unreached with
  | nil => exact .inl h
  | cons a as ih =>
    unfold reach at h
    split at h
    · rename_i ha
      rcases ih h with hb | ⟨hb, hopen⟩
      · rcases List.mem_cons.1 hb with rfl | hb
        · exact .inr ⟨List.mem_cons_self, ha⟩
        · exact .inl hb
      · exact .inr ⟨List.mem_cons_of_mem _ hb, List.mem_of_mem_erase hopen⟩
    · rcases ih h with hb | ⟨hb, hopen⟩
      · exact .inl hb
      · exact .inr ⟨List.mem_cons_of_mem _ hb, hopen⟩

theorem mem_reach_fst {b : Actor} (hb : b ∈ candidates) (hopen : b ∈ unreached) :
    b ∈ (reach candidates (stack, unreached)).1 := by
  induction candidates generalizing stack unreached with
  | nil => cases hb
  | cons a as ih =>
    unfold reach
    rcases List.mem_cons.1 hb with rfl | hb
    · rw [if_pos hopen]
      exact subset_reach_fst _ _ _ List.mem_cons_self
    · split
      · by_cases hba : b = a
        · rw [hba]
          exact subset_reach_fst _ _ _ List.mem_cons_self
        · exact ih hb ((List.mem_erase_of_ne hba).2 hopen)
      · exact ih hb hopen

end Reach

namespace Graph

variable {g g' : Graph}

def Step (g : Graph) (unreached : List Actor) (a b : Actor) : Prop :=
  b ∈ g.neighbors a ∧ b ∈ unreached

theorem visit_perm (g : Graph) (stack unreached : List Actor) :
    ((g.visit stack unreached).1 ++ (g.visit stack unreached).2).Perm (stack ++ unreached) := by
  fun_induction g.visit stack unreached with
  | case1 unreached => rfl
  | case2 unreached a rest state _ visited left hvisit ih =>
    rw [hvisit] at ih
    exact (ih.trans (reach_perm _ _ _)).cons a

theorem visit_snd_sublist (g : Graph) (stack unreached : List Actor) :
    (g.visit stack unreached).2.Sublist unreached := by
  fun_induction g.visit stack unreached with
  | case1 unreached => exact .refl _
  | case2 unreached a rest state _ visited left hvisit ih =>
    rw [hvisit] at ih
    exact ih.trans (reach_snd_sublist _ _ _)

theorem subset_visit_fst (g : Graph) (stack unreached : List Actor) :
    stack ⊆ (g.visit stack unreached).1 := by
  fun_induction g.visit stack unreached with
  | case1 => exact fun _ h => h
  | case2 =>
    rename_i unreached a rest state _ visited left hvisit ih
    rw [hvisit] at ih
    exact List.cons_subset_cons a (List.Subset.trans (subset_reach_fst _ _ _) ih)

/-- A path leads to everything that is visited. -/
theorem exists_path_of_mem_visit {stack unreached : List Actor} {b : Actor}
    (h : b ∈ (g.visit stack unreached).1) :
    ∃ a ∈ stack, Relation.ReflTransGen (g.Step unreached) a b := by
  fun_induction g.visit stack unreached with
  | case1 unreached => cases h
  | case2 unreached a rest state _ visited left hvisit ih =>
    rw [hvisit] at ih
    rcases List.mem_cons.1 h with rfl | h
    · exact ⟨b, List.mem_cons_self, .refl⟩
    · obtain ⟨c, hc, hpath⟩ := ih h
      have hpath : Relation.ReflTransGen (g.Step unreached) c b :=
        hpath.lift id
          fun x y hxy => ⟨hxy.1, (reach_snd_sublist _ _ _).subset hxy.2⟩
      -- the path begins on the old stack, or at a neighbor that has just been put there
      rcases mem_of_mem_reach_fst hc with hc | ⟨hneighbor, hopen⟩
      · exact ⟨c, List.mem_cons_of_mem _ hc, hpath⟩
      · exact ⟨a, List.mem_cons_self, .head ⟨hneighbor, hopen⟩ hpath⟩

/-- Nothing that is open is left out next to what is visited. -/
theorem mem_visit_of_step {stack unreached : List Actor} {a b : Actor}
    (ha : a ∈ (g.visit stack unreached).1) (hstep : g.Step unreached a b) :
    b ∈ (g.visit stack unreached).1 := by
  fun_induction g.visit stack unreached with
  | case1 unreached => cases ha
  | case2 unreached c rest state _ visited left hvisit ih =>
    have hstack : state.1 ⊆ visited := by
      have := subset_visit_fst g state.1 state.2
      rwa [hvisit] at this
    rw [hvisit] at ih
    rcases List.mem_cons.1 ha with rfl | ha
    · exact List.mem_cons_of_mem _ (hstack (mem_reach_fst hstep.1 hstep.2))
    · by_cases hopen : b ∈ state.2
      · exact List.mem_cons_of_mem _ (ih ha ⟨hstep.1, hopen⟩)
      · -- it has just been reached from the first actor
        have hreached : b ∈ state.1 ++ state.2 :=
          (reach_perm _ _ _).mem_iff.2 (List.mem_append_right _ hstep.2)
        rcases List.mem_append.1 hreached with hb | hb
        · exact List.mem_cons_of_mem _ (hstack hb)
        · exact absurd hb hopen

theorem mem_visit {stack unreached : List Actor} {b : Actor} :
    b ∈ (g.visit stack unreached).1 ↔
      ∃ a ∈ stack, Relation.ReflTransGen (g.Step unreached) a b := by
  refine ⟨exists_path_of_mem_visit, ?_⟩
  rintro ⟨a, ha, hpath⟩
  induction hpath with
  | refl => exact subset_visit_fst g _ _ ha
  | tail _ hstep ih => exact mem_visit_of_step ih hstep

theorem visit_nodup {stack unreached : List Actor} (h : (stack ++ unreached).Nodup) :
    ((g.visit stack unreached).1 ++ (g.visit stack unreached).2).Nodup :=
  (visit_perm g stack unreached).nodup_iff.2 h

/-- What is left are the actors that have not been visited, in the same order. -/
theorem visit_snd_eq {stack unreached : List Actor} (h : (stack ++ unreached).Nodup) :
    (g.visit stack unreached).2 =
      unreached.filter fun a => a ∉ (g.visit stack unreached).1 := by
  obtain ⟨-, -, hdisjoint⟩ := List.nodup_append'.1 (visit_nodup (g := g) h)
  apply Lists.eq_filter_of_sublist (visit_snd_sublist g stack unreached)
    (List.nodup_append'.1 h).2.1
  intro a ha
  rw [decide_eq_true_eq]
  refine ⟨fun hleft hvisited => hdisjoint hvisited hleft, ?_⟩
  intro hvisited
  have hboth := (visit_perm g stack unreached).mem_iff.2 (List.mem_append_right _ ha)
  exact (List.mem_append.1 hboth).resolve_left hvisited

/-- The neighbors of every actor are the same in both networks, in some order. -/
def Alike (g g' : Graph) : Prop := ∀ a b, b ∈ g.neighbors a ↔ b ∈ g'.neighbors a

theorem Alike.mem_visit_iff (h : Alike g g') {stack unreached : List Actor} {b : Actor} :
    b ∈ (g.visit stack unreached).1 ↔ b ∈ (g'.visit stack unreached).1 := by
  have hstep : g.Step unreached = g'.Step unreached := by
    funext a b
    simp only [Step, h a b]
  rw [mem_visit, mem_visit, hstep]

theorem Alike.visit_fst_perm (h : Alike g g') {stack unreached : List Actor}
    (hnodup : (stack ++ unreached).Nodup) :
    (g.visit stack unreached).1.Perm (g'.visit stack unreached).1 := by
  refine (List.perm_ext_iff_of_nodup ?_ ?_).2 fun b => h.mem_visit_iff
  · exact (List.nodup_append.1 (visit_nodup hnodup)).1
  · exact (List.nodup_append.1 (visit_nodup hnodup)).1

theorem Alike.visit_snd_eq (h : Alike g g') {stack unreached : List Actor}
    (hnodup : (stack ++ unreached).Nodup) :
    (g.visit stack unreached).2 = (g'.visit stack unreached).2 := by
  rw [Graph.visit_snd_eq hnodup, Graph.visit_snd_eq hnodup]
  simp only [h.mem_visit_iff]

theorem nodup_cons_erase {a : Actor} {unreached : List Actor} (hnodup : unreached.Nodup)
    (ha : a ∈ unreached) : ([a] ++ unreached.erase a).Nodup :=
  (List.perm_cons_erase ha).nodup_iff.1 hnodup

theorem Alike.componentsFrom (h : Alike g g') (members : List Actor) {unreached : List Actor}
    (hnodup : unreached.Nodup) :
    List.Forall₂ List.Perm (g.componentsFrom members unreached)
      (g'.componentsFrom members unreached) := by
  induction members generalizing unreached with
  | nil => exact .nil
  | cons a as ih =>
    unfold Graph.componentsFrom
    split
    · rename_i ha
      have hopen := nodup_cons_erase hnodup ha
      refine .cons (h.visit_fst_perm hopen) ?_
      rw [← h.visit_snd_eq hopen]
      exact ih ((List.nodup_append.1 (visit_nodup hopen)).2.1)
    · exact ih hnodup

theorem nodup_flatten_componentsFrom (g : Graph) (members : List Actor) {unreached : List Actor}
    (hnodup : unreached.Nodup) :
    (g.componentsFrom members unreached).flatten.Nodup ∧
      (g.componentsFrom members unreached).flatten ⊆ unreached := by
  induction members generalizing unreached with
  | nil => exact ⟨.nil, List.nil_subset _⟩
  | cons a as ih =>
    unfold componentsFrom
    split
    · rename_i ha
      have hopen := nodup_cons_erase hnodup ha
      have hvisit := List.nodup_append'.1 (visit_nodup (g := g) hopen)
      have hperm := (visit_perm g [a] (unreached.erase a)).trans (List.perm_cons_erase ha).symm
      obtain ⟨hcomponents, hleft⟩ := ih hvisit.2.1
      refine ⟨?_, ?_⟩
      · exact List.nodup_append'.2
          ⟨hvisit.1, hcomponents, fun b hb hb' => hvisit.2.2 hb (hleft hb')⟩
      · apply List.append_subset.2 ⟨?_, ?_⟩
        · exact fun b hb => hperm.subset (List.mem_append_left _ hb)
        · exact fun b hb => hperm.subset (List.mem_append_right _ (hleft hb))
    · exact ih hnodup

end Graph

end LedgerWatch.Network
