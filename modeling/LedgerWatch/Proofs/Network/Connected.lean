import LedgerWatch.Proofs.Network.Incidence
import LedgerWatch.Proofs.Network.Reachability

namespace LedgerWatch.Network

open Relation (ReflTransGen)

def Transfer.Joins (t : Transfer) (a b : Actor) : Prop :=
  t.payer = a ∧ t.payee = b ∨ t.payer = b ∧ t.payee = a

theorem Transfer.joins_iff (t : Transfer) (a b : Actor) :
    t.Joins a b ↔ t.Touches a ∧ t.other a = b := by
  unfold Joins Touches other
  by_cases hpayer : t.payer = a
  · have hpayee : t.payee ≠ a := hpayer ▸ t.payee_ne_payer
    simp [hpayer, hpayee]
  · simp [hpayer, and_comm]

theorem Transfer.Joins.symm {t : Transfer} {a b : Actor} (h : t.Joins a b) : t.Joins b a :=
  Or.symm h

/-- Two of the chosen actors, with a transfer between them. -/
def Linked (ts : List Transfer) (members : List Actor) (a b : Actor) : Prop :=
  a ∈ members ∧ b ∈ members ∧ ∃ t ∈ ts, t.Joins a b

/-- A path of transfers that stays among the chosen actors. -/
def Connected (ts : List Transfer) (members : List Actor) : Actor → Actor → Prop :=
  ReflTransGen (Linked ts members)

/-- The components among some actors, by their least actors. -/
structure AreComponents (ts : List Transfer) (members : List Actor)
    (components : List (List Actor)) : Prop where
  /-- No actor stands in two components, or twice in one. -/
  nodup : components.flatten.Nodup
  mem_flatten : ∀ a, a ∈ components.flatten ↔ a ∈ members
  /-- Actors are together just where a path joins them. -/
  together : ∀ a ∈ members, ∀ b ∈ members,
    (∃ component ∈ components, a ∈ component ∧ b ∈ component) ↔ Connected ts members a b
  least_first : ∀ component ∈ components, ∃ first rest,
    component = first :: rest ∧ ∀ a ∈ rest, first < a
  ascending : (components.filterMap List.head?).Pairwise (· < ·)
  /-- An actor without a transfer is alone. -/
  alone : ∀ a ∈ members, (∀ t ∈ ts, ¬t.Touches a) → [a] ∈ components

namespace Graph

variable {g : Graph} {unreached : List Actor} {a b : Actor}

/-- Whoever is a neighbor has the other one for a neighbor too. -/
def Mutual (g : Graph) : Prop := ∀ a b, b ∈ g.neighbors a → a ∈ g.neighbors b

theorem mem_neighbors_iff_joins {ts : List Transfer} :
    b ∈ (ofTransfers ts).neighbors a ↔ ∃ t ∈ ts, t.Joins a b := by
  simp only [mem_neighbors, Transfer.joins_iff]

theorem mutual_ofTransfers (ts : List Transfer) : (ofTransfers ts).Mutual := by
  intro a b h
  obtain ⟨t, ht, hjoins⟩ := mem_neighbors_iff_joins.1 h
  exact mem_neighbors_iff_joins.2 ⟨t, ht, hjoins.symm⟩

/-- A path need not come back to where it began. -/
theorem reflTransGen_step_erase :
    ReflTransGen (g.Step (unreached.erase a)) a b ↔ ReflTransGen (g.Step unreached) a b := by
  refine ⟨fun h => h.lift id fun _ _ hstep => ⟨hstep.1, List.mem_of_mem_erase hstep.2⟩, ?_⟩
  intro h
  induction h with
  | refl => exact .refl
  | @tail c d _ hstep ih =>
    by_cases hda : d = a
    · rw [hda]
    · exact ih.tail ⟨hstep.1, (List.mem_erase_of_ne hda).2 hstep.2⟩

theorem mem_of_reflTransGen_step (h : ReflTransGen (g.Step unreached) a b) (ha : a ∈ unreached) :
    b ∈ unreached := by
  cases h with
  | refl => exact ha
  | tail _ hstep => exact hstep.2

theorem reflTransGen_step_symm (hmutual : g.Mutual) (ha : a ∈ unreached)
    (h : ReflTransGen (g.Step unreached) a b) : ReflTransGen (g.Step unreached) b a := by
  induction h with
  | refl => exact .refl
  | tail hpath hstep ih =>
    exact .head ⟨hmutual _ _ hstep.1, mem_of_reflTransGen_step hpath ha⟩ ih

/-- Where nothing that is left can be reached from outside, the paths of what is left are the
paths among all. -/
theorem reflTransGen_step_of_closed {left : List Actor} (hsub : left ⊆ unreached)
    (hclosed : ∀ c ∈ left, ∀ d, g.Step unreached c d → d ∈ left) (ha : a ∈ left) :
    ReflTransGen (g.Step left) a b ↔ ReflTransGen (g.Step unreached) a b := by
  refine ⟨fun h => h.lift id fun _ _ hstep => ⟨hstep.1, hsub hstep.2⟩, ?_⟩
  intro h
  induction h with
  | refl => exact .refl
  | tail _ hstep ih =>
    exact ih.tail ⟨hstep.1, hclosed _ (mem_of_reflTransGen_step ih ha) _ hstep⟩

theorem mem_visit_single :
    b ∈ (g.visit [a] (unreached.erase a)).1 ↔ ReflTransGen (g.Step unreached) a b := by
  simp only [mem_visit, List.mem_singleton, exists_eq_left, reflTransGen_step_erase]

/-- The walk begins with the actor on top of its stack. -/
theorem exists_visit_cons (g : Graph) (a : Actor) (rest unreached : List Actor) :
    ∃ others, (g.visit (a :: rest) unreached).1 = a :: others := by
  rw [visit]
  exact ⟨_, rfl⟩

/-- What a walk from an actor leaves: the open actors that no path from it leads to. -/
theorem mem_visit_single_snd (hnodup : unreached.Nodup) (ha : a ∈ unreached) :
    b ∈ (g.visit [a] (unreached.erase a)).2 ↔
      b ∈ unreached ∧ ¬ReflTransGen (g.Step unreached) a b := by
  rw [visit_snd_eq (nodup_cons_erase hnodup ha), List.mem_filter, decide_eq_true_eq,
    mem_visit_single]
  refine and_congr_left fun hpath => ?_
  have hba : b ≠ a := by
    rintro rfl
    exact hpath .refl
  exact List.mem_erase_of_ne hba

/-- One component among open actors: its least actor, and all that a path leads to from there. -/
def IsComponent (g : Graph) (unreached component : List Actor) : Prop :=
  ∃ first rest, component = first :: rest ∧ (∀ a ∈ rest, first < a) ∧ first ∈ unreached ∧
    ∀ b, b ∈ component ↔ ReflTransGen (g.Step unreached) first b

theorem isComponent_visit {as : List Actor} (hordered : (a :: as).Pairwise (· < ·))
    (hnodup : unreached.Nodup) (hsub : unreached ⊆ a :: as) (ha : a ∈ unreached) :
    g.IsComponent unreached (g.visit [a] (unreached.erase a)).1 := by
  obtain ⟨others, hvisit⟩ := exists_visit_cons g a [] (unreached.erase a)
  have hdistinct := (List.nodup_append'.1 (visit_nodup (g := g) (nodup_cons_erase hnodup ha))).1
  refine ⟨a, others, hvisit, ?_, ha, fun b => mem_visit_single⟩
  intro b hb
  have hmem : b ∈ (g.visit [a] (unreached.erase a)).1 := by
    rw [hvisit]
    exact List.mem_cons_of_mem _ hb
  -- every open actor is still to come in the order, and the first one is not visited again
  rw [hvisit] at hdistinct
  have hne : b ≠ a := fun heq => (List.nodup_cons.1 hdistinct).1 (heq ▸ hb)
  have hopen := hsub (mem_of_reflTransGen_step (mem_visit_single.1 hmem) ha)
  exact (List.pairwise_cons.1 hordered).1 b ((List.mem_cons.1 hopen).resolve_left hne)

theorem isComponent_of_closed {left component : List Actor} (hsub : left ⊆ unreached)
    (hclosed : ∀ c ∈ left, ∀ d, g.Step unreached c d → d ∈ left)
    (h : g.IsComponent left component) : g.IsComponent unreached component := by
  obtain ⟨first, rest, hcons, hleast, hfirst, hmem⟩ := h
  refine ⟨first, rest, hcons, hleast, hsub hfirst, fun b => ?_⟩
  rw [hmem, reflTransGen_step_of_closed hsub hclosed hfirst]

/-- As the members are gone through in order, each walk from one that is still open gives the
component of this one, and the components together hold all that was open. -/
theorem componentsFrom_spec (hmutual : g.Mutual) {as : List Actor}
    (hordered : as.Pairwise (· < ·)) (hnodup : unreached.Nodup) (hsub : unreached ⊆ as) :
    unreached ⊆ (g.componentsFrom as unreached).flatten ∧
      (∀ component ∈ g.componentsFrom as unreached, g.IsComponent unreached component) ∧
      ((g.componentsFrom as unreached).filterMap List.head?).Sublist as := by
  induction as generalizing unreached with
  | nil =>
    rw [List.subset_nil.1 hsub]
    exact ⟨List.nil_subset _, List.forall_mem_nil _, .slnil⟩
  | cons a as ih =>
    have hrest := (List.pairwise_cons.1 hordered).2
    unfold componentsFrom
    split
    · rename_i ha
      have hleft : ∀ b, b ∈ (g.visit [a] (unreached.erase a)).2 ↔
          b ∈ unreached ∧ ¬ReflTransGen (g.Step unreached) a b :=
        fun b => mem_visit_single_snd hnodup ha
      -- a step out of what is left would lead back to the walk, since steps go both ways
      have hclosed : ∀ c ∈ (g.visit [a] (unreached.erase a)).2, ∀ d, g.Step unreached c d →
          d ∈ (g.visit [a] (unreached.erase a)).2 := by
        intro c hc d hstep
        obtain ⟨hopen, hpath⟩ := (hleft c).1 hc
        refine (hleft d).2 ⟨hstep.2, fun hd => hpath (hd.tail ⟨hmutual c d hstep.1, hopen⟩)⟩
      have hsub' : (g.visit [a] (unreached.erase a)).2 ⊆ as := by
        intro b hb
        obtain ⟨hopen, hpath⟩ := (hleft b).1 hb
        refine (List.mem_cons.1 (hsub hopen)).resolve_left ?_
        rintro rfl
        exact hpath .refl
      have hnodup' := (List.nodup_append'.1
        (visit_nodup (g := g) (nodup_cons_erase hnodup ha))).2.1
      obtain ⟨hall, hcomponents, hheads⟩ := ih hrest hnodup' hsub'
      obtain ⟨others, hvisit⟩ := exists_visit_cons g a [] (unreached.erase a)
      refine ⟨?_, ?_, ?_⟩
      · intro b hb
        by_cases hpath : ReflTransGen (g.Step unreached) a b
        · exact List.mem_append_left _ (mem_visit_single.2 hpath)
        · exact List.mem_append_right _ (hall ((hleft b).2 ⟨hb, hpath⟩))
      · refine List.forall_mem_cons.2 ⟨isComponent_visit hordered hnodup hsub ha, ?_⟩
        intro component hcomponent
        exact isComponent_of_closed (fun b hb => ((hleft b).1 hb).1) hclosed
          (hcomponents component hcomponent)
      · simp only [List.filterMap_cons, hvisit, List.head?_cons]
        exact hheads.cons_cons a
    · rename_i ha
      have hsub' : unreached ⊆ as := by
        intro b hb
        refine (List.mem_cons.1 (hsub hb)).resolve_left ?_
        rintro rfl
        exact ha hb
      obtain ⟨hall, hcomponents, hheads⟩ := ih hrest hnodup hsub'
      exact ⟨hall, hcomponents, hheads.cons a⟩

end Graph

section Batch

variable {ts : List Transfer} {members : List Actor} {a b : Actor}

theorem connected_iff_step (ha : a ∈ members) :
    Connected ts members a b ↔
      ReflTransGen ((Graph.ofTransfers ts).Step (Sorted.distinct members)) a b := by
  have hstep : ∀ c d, (Graph.ofTransfers ts).Step (Sorted.distinct members) c d ↔
      d ∈ members ∧ ∃ t ∈ ts, t.Joins c d := by
    intro c d
    rw [Graph.Step, Graph.mem_neighbors_iff_joins, Sorted.mem_distinct, and_comm]
  constructor
  · exact fun h => h.lift id fun c d hlinked => (hstep c d).2 hlinked.2
  · intro h
    induction h with
    | refl => exact .refl
    | @tail c d hpath hlast ih =>
      have hc := Graph.mem_of_reflTransGen_step hpath (Sorted.mem_distinct.2 ha)
      exact ih.tail ⟨Sorted.mem_distinct.1 hc, (hstep c d).1 hlast⟩

/-- A path from an actor without a transfer goes nowhere. -/
theorem eq_of_connected (h : Connected ts members a b) (halone : ∀ t ∈ ts, ¬t.Touches a) :
    b = a := by
  rcases ReflTransGen.cases_head h with hab | ⟨c, ⟨-, -, t, ht, hjoins⟩, -⟩
  · exact hab.symm
  · exact absurd ((t.joins_iff a c).1 hjoins).1 (halone t ht)

theorem areComponents_ofTransfers (ts : List Transfer) (members : List Actor) :
    AreComponents ts members ((Graph.ofTransfers ts).components members) := by
  have hnodup : (Sorted.distinct members).Nodup := Sorted.nodup_distinct members
  have hmutual := Graph.mutual_ofTransfers ts
  obtain ⟨hdisjoint, hinside⟩ := Graph.nodup_flatten_componentsFrom (Graph.ofTransfers ts)
    (Sorted.distinct members) hnodup
  obtain ⟨hall, hcomponents, hheads⟩ := Graph.componentsFrom_spec hmutual
    (Sorted.pairwise_distinct members) hnodup (List.Subset.refl _)
  have hmem : ∀ a, a ∈ ((Graph.ofTransfers ts).components members).flatten ↔ a ∈ members :=
    fun a => ⟨fun h => Sorted.mem_distinct.1 (hinside h), fun h => hall (Sorted.mem_distinct.2 h)⟩
  refine ⟨hdisjoint, hmem, ?_, ?_, (Sorted.pairwise_distinct members).sublist hheads, ?_⟩
  · intro a ha b hb
    rw [connected_iff_step ha]
    constructor
    · rintro ⟨component, hcomponent, hac, hbc⟩
      obtain ⟨first, rest, -, -, hfirst, hpaths⟩ := hcomponents component hcomponent
      exact (Graph.reflTransGen_step_symm hmutual hfirst ((hpaths a).1 hac)).trans
        ((hpaths b).1 hbc)
    · intro hpath
      obtain ⟨component, hcomponent, hac⟩ := List.mem_flatten.1 ((hmem a).2 ha)
      obtain ⟨first, rest, -, -, -, hpaths⟩ := hcomponents component hcomponent
      exact ⟨component, hcomponent, hac, (hpaths b).2 (((hpaths a).1 hac).trans hpath)⟩
  · intro component hcomponent
    obtain ⟨first, rest, hcons, hleast, -⟩ := hcomponents component hcomponent
    exact ⟨first, rest, hcons, hleast⟩
  · intro a ha halone
    obtain ⟨component, hcomponent, hac⟩ := List.mem_flatten.1 ((hmem a).2 ha)
    obtain ⟨first, rest, rfl, hleast, hfirst, hpaths⟩ := hcomponents component hcomponent
    -- whoever is in the component of the actor is the actor itself
    have heq : ∀ b ∈ first :: rest, b = a := by
      intro b hb
      have hpath := (Graph.reflTransGen_step_symm hmutual hfirst ((hpaths a).1 hac)).trans
        ((hpaths b).1 hb)
      exact eq_of_connected ((connected_iff_step ha).2 hpath) halone
    have hrest : rest = [] := by
      apply List.eq_nil_iff_forall_not_mem.2
      intro b hb
      have hlt := hleast b hb
      rw [heq b (List.mem_cons_of_mem _ hb), heq first List.mem_cons_self] at hlt
      exact irrefl_of (· < ·) a hlt
    rw [← heq first List.mem_cons_self, ← hrest]
    exact hcomponent

/-- Whatever the records and the actors that are asked for, whether these occur in the network or
not, the walks find the components among them. -/
theorem areComponents_ofRecords (records : List Record) (members : List Actor) :
    AreComponents (records.zipIdx.filterMap Transfer.ofRecord?) members
      ((Graph.ofRecords records).components members) :=
  areComponents_ofTransfers _ members

end Batch

end LedgerWatch.Network
