import LedgerWatch.Proofs.Finding.Subjects
import LedgerWatch.Proofs.Lists

namespace LedgerWatch

namespace Finding

variable {b : Bands} {m : Method} {i : Nat} {f : Finding}

def GradedBy (b : Bands) (f : Finding) : Prop := f.severity = b.classify f.score

def MadeFor (b : Bands) (m : Method) (i : Nat) (f : Finding) : Prop :=
  ∃ score evidence, f = .of b m i score evidence

theorem MadeFor.record_eq (h : f.MadeFor b m i) : f.record = i := by
  obtain ⟨score, evidence, rfl⟩ := h
  rfl

theorem MadeFor.method_eq (h : f.MadeFor b m i) : f.method = m := by
  obtain ⟨score, evidence, rfl⟩ := h
  rfl

theorem MadeFor.gradedBy (h : f.MadeFor b m i) : f.GradedBy b := by
  obtain ⟨score, evidence, rfl⟩ := h
  rfl

end Finding

/-- Findings by one method for different records among the first `n`. -/
structure Roster (m : Method) (n : Nat) (fs : List Finding) : Prop where
  method : ∀ f ∈ fs, f.method = m
  inBatch : ∀ f ∈ fs, f.record < n
  nodup : (fs.map Finding.record).Nodup

namespace Roster

variable {m : Method} {n : Nat} {fs : List Finding}

theorem firsts (hmethod : ∀ f ∈ fs, f.method = m) (hbatch : ∀ f ∈ fs, f.record < n) :
    Roster m n (Ranking.firsts fs) := by
  have hmem : ∀ f ∈ Ranking.firsts fs, f ∈ fs := fun f hf => (Ranking.firsts_sublist fs).subset hf
  have hmethod' : ∀ f ∈ Ranking.firsts fs, f.method = m := fun f hf => hmethod f (hmem f hf)
  exact ⟨hmethod', fun f hf => hbatch f (hmem f hf),
    Ranking.nodup_records hmethod' (Ranking.pairwise_firsts fs)⟩

/-- At most one finding for each place of a list that is as long as the batch. -/
theorem ofPlaces {α : Type} {xs : List α} {find? : α × Nat → Option Finding}
    (hlen : xs.length = n)
    (h : ∀ x i f, find? (x, i) = some f → f.record = i ∧ f.method = m) :
    Roster m n (xs.zipIdx.filterMap find?) := by
  refine ⟨?_, ?_, ?_⟩
  · intro f hf
    obtain ⟨⟨x, i⟩, -, hx⟩ := List.mem_filterMap.1 hf
    exact (h x i f hx).2
  · intro f hf
    obtain ⟨⟨x, i⟩, hi, hx⟩ := List.mem_filterMap.1 hf
    rw [(h x i f hx).1, ← hlen]
    exact List.snd_lt_of_mem_zipIdx hi
  · apply Lists.nodup_filterMap_zipIdx
    intro x i f hx
    exact (h x i f hx).1

theorem pairwise_apart (h : Roster m n fs) : fs.Pairwise Finding.Apart := by
  refine (List.pairwise_map.1 h.nodup).imp ?_
  intro f g hne hsame
  exact hne hsame.1

theorem inBatch_eq_self (h : Roster m n fs) : (fs.filter fun f => f.record < n) = fs := by
  apply List.filter_eq_self.2
  intro f hf
  exact decide_eq_true (h.inBatch f hf)

theorem countP_self (h : Roster m n fs) : (fs.countP fun f => f.method == m) = fs.length := by
  apply List.countP_eq_length.2
  intro f hf
  rw [h.method f hf]
  exact beq_self_eq_true m

theorem countP_other (h : Roster m n fs) {m' : Method} (hne : m ≠ m') :
    (fs.countP fun f => f.method == m') = 0 := by
  apply List.countP_eq_zero.2
  intro f hf
  rw [h.method f hf, beq_iff_eq]
  exact hne

end Roster

section Rosters

variable {ι : Type} {sources : List ι} {method : ι → Method} {findings : ι → List Finding}
  {n : Nat}

theorem pairwise_apart_flatMap (hmethods : (sources.map method).Nodup)
    (h : ∀ s ∈ sources, Roster (method s) n (findings s)) :
    (sources.flatMap findings).Pairwise Finding.Apart := by
  refine List.pairwise_flatMap.2 ⟨fun s hs => (h s hs).pairwise_apart, ?_⟩
  refine (List.pairwise_map.1 hmethods).imp_of_mem ?_
  intro s s' hs hs' hne f hf g hg hsame
  apply hne
  rw [← (h s hs).method f hf, ← (h s' hs').method g hg]
  exact hsame.2

theorem countP_flatMap_other (h : ∀ s ∈ sources, Roster (method s) n (findings s)) {m : Method}
    (hm : m ∉ sources.map method) :
    ((sources.flatMap findings).countP fun f => f.method == m) = 0 := by
  apply List.countP_eq_zero.2
  intro f hf
  obtain ⟨s, hs, hf⟩ := List.mem_flatMap.1 hf
  have hne : method s ≠ m := fun heq => hm (heq ▸ List.mem_map_of_mem hs)
  exact List.countP_eq_zero.1 ((h s hs).countP_other hne) f hf

/-- All findings by a method come from the source that has this method. -/
theorem countP_flatMap_method (hmethods : (sources.map method).Nodup)
    (h : ∀ s ∈ sources, Roster (method s) n (findings s)) {s : ι} (hs : s ∈ sources) :
    ((sources.flatMap findings).countP fun f => f.method == method s) = (findings s).length := by
  induction sources with
  | nil => cases hs
  | cons first rest ih =>
    obtain ⟨hfirst, hrest⟩ := List.nodup_cons.1 hmethods
    obtain ⟨hroster, hrosters⟩ := List.forall_mem_cons.1 h
    rw [List.flatMap_cons, List.countP_append]
    -- either the first source has the method and no other one, or one of the others has it
    rcases List.mem_cons.1 hs with rfl | hs
    · rw [hroster.countP_self, countP_flatMap_other hrosters hfirst, Nat.add_zero]
    · have hne : method first ≠ method s := fun heq => hfirst (heq ▸ List.mem_map_of_mem hs)
      rw [hroster.countP_other hne, Nat.zero_add]
      exact ih hrest hrosters hs

end Rosters

end LedgerWatch
