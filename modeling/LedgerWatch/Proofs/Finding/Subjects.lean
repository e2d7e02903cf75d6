import LedgerWatch.Detector
import LedgerWatch.Finding.Ranking
import Mathlib.Data.List.Nodup

namespace LedgerWatch

def Finding.Apart (f g : Finding) : Prop := ¬(f.record = g.record ∧ f.method = g.method)

namespace Ranking

theorem sameSubject_iff {f g : Finding} :
    sameSubject f g = true ↔ f.record = g.record ∧ f.method = g.method := by
  simp [sameSubject]

theorem pairwise_firsts (fs : List Finding) : (firsts fs).Pairwise Finding.Apart := by
  induction fs with
  | nil => exact .nil
  | cons f fs ih =>
    refine List.pairwise_cons.2 ⟨?_, ih.filter _⟩
    -- a later finding on the same subject was filtered out
    intro g hg hfg
    have hne := (List.mem_filter.1 hg).2
    rw [sameSubject_iff.2 hfg] at hne
    simp at hne

theorem firsts_eq_self {fs : List Finding} (h : fs.Pairwise Finding.Apart) : firsts fs = fs := by
  induction fs with
  | nil => rfl
  | cons f fs ih =>
    obtain ⟨hf, hfs⟩ := List.pairwise_cons.1 h
    rw [firsts, ih hfs, List.filter_eq_self.2]
    intro g hg
    rw [Bool.not_eq_true', Bool.eq_false_iff]
    exact fun hsame => hf g hg (sameSubject_iff.1 hsame)

theorem nodup_records {fs : List Finding} {m : Method} (hm : ∀ f ∈ fs, f.method = m)
    (h : fs.Pairwise Finding.Apart) : (fs.map Finding.record).Nodup := by
  refine List.pairwise_map.2 (h.imp_of_mem ?_)
  intro f g hf hg hfg hrecord
  exact hfg ⟨hrecord, (hm f hf).trans (hm g hg).symm⟩

end Ranking

def Finding.reindex (p : Nat → Nat) (f : Finding) : Finding := { f with record := p f.record }

def Outcome.reindex (p : Nat → Nat) : Outcome → Outcome
  | .found fs => .found (fs.map (Finding.reindex p))
  | .failed fault => .failed fault
  | .crashed crash => .crashed crash

namespace Ranking

theorem sameSubject_reindex {p : Nat → Nat} (hp : Function.Injective p) (f g : Finding) :
    sameSubject (f.reindex p) (g.reindex p) = sameSubject f g := by
  rw [Bool.eq_iff_iff, sameSubject_iff, sameSubject_iff]
  simp only [Finding.reindex, hp.eq_iff]

theorem firsts_reindex {p : Nat → Nat} (hp : Function.Injective p) (fs : List Finding) :
    firsts (fs.map (Finding.reindex p)) = (firsts fs).map (Finding.reindex p) := by
  induction fs with
  | nil => rfl
  | cons f fs ih =>
    rw [List.map_cons, firsts, firsts, ih, List.map_cons, List.filter_map]
    congr 2
    refine List.filter_congr ?_
    intro g _
    rw [Function.comp, sameSubject_reindex hp]

theorem prioritize_reindex (p : Nat → Nat) (fs : List Finding) :
    prioritize (fs.map (Finding.reindex p)) = (prioritize fs).map (Finding.reindex p) := by
  refine (List.map_mergeSort ?_).symm
  intro f _ g _
  rfl

theorem rank_reindex {p : Nat → Nat} (hp : Function.Injective p) (fs : List Finding) :
    rank (fs.map (Finding.reindex p)) = (rank fs).map (Finding.reindex p) := by
  rw [rank, firsts_reindex hp, prioritize_reindex, rank]

end Ranking

end LedgerWatch
