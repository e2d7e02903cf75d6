import LedgerWatch.Proofs.Ensemble.History
import LedgerWatch.Proofs.Finding.Ranked

namespace LedgerWatch.Ensemble

open Ranking (byMethod)

/-- Detectors of different methods, none of which reports a finding by a method not its own. -/
structure Separate (records : List Record) (ds : List Detector) : Prop where
  methods : (ds.map Detector.method).Nodup
  own : ∀ d ∈ ds, ∀ f ∈ (d.detect records).findings, f.method = d.method

/-- In any report the findings by a method are ranked without a look at the others. -/
theorem byMethod_anomalies (e : Engine) (records : List Record) (m : Method) :
    byMethod m (e.run records).anomalies =
      Ranking.rank (e.detectors.flatMap fun d =>
        byMethod m (inBatch records (d.detect records).findings)) := by
  rw [Engine.anomalies_run, Ranking.byMethod_rank]
  simp only [byMethod, List.filter_flatMap]

namespace Separate

variable {records : List Record} {ds : List Detector}

theorem tail {d : Detector} (h : Separate records (d :: ds)) : Separate records ds :=
  ⟨(List.nodup_cons.1 h.methods).2, fun d' hd' => h.own d' (List.mem_cons_of_mem d hd')⟩

theorem method_eq (h : Separate records ds) {d : Detector} (hd : d ∈ ds) {f : Finding}
    (hf : f ∈ inBatch records (d.detect records).findings) : f.method = d.method :=
  h.own d hd f (List.mem_of_mem_filter hf)

theorem byMethod_self (h : Separate records ds) {d : Detector} (hd : d ∈ ds) :
    byMethod d.method (inBatch records (d.detect records).findings) =
      inBatch records (d.detect records).findings := by
  apply List.filter_eq_self.2
  intro f hf
  rw [h.method_eq hd hf]
  exact beq_self_eq_true d.method

theorem byMethod_other (h : Separate records ds) {d : Detector} (hd : d ∈ ds) {m : Method}
    (hm : d.method ≠ m) : byMethod m (inBatch records (d.detect records).findings) = [] := by
  apply List.filter_eq_nil_iff.2
  intro f hf
  rw [h.method_eq hd hf, beq_iff_eq]
  exact hm

theorem flatMap_byMethod_of_not_mem (h : Separate records ds) {m : Method}
    (hm : m ∉ ds.map Detector.method) :
    (ds.flatMap fun d => byMethod m (inBatch records (d.detect records).findings)) = [] := by
  apply List.flatMap_eq_nil_iff.2
  intro d hd
  exact h.byMethod_other hd fun heq => hm (heq ▸ List.mem_map_of_mem hd)

theorem flatMap_byMethod (h : Separate records ds) {d : Detector} (hd : d ∈ ds) :
    (ds.flatMap fun d' => byMethod d.method (inBatch records (d'.detect records).findings)) =
      inBatch records (d.detect records).findings := by
  induction ds with
  | nil => cases hd
  | cons first rest ih =>
    have hfirst := (List.nodup_cons.1 h.methods).1
    rw [List.flatMap_cons]
    -- the first detector has the method and no other one, or one of the others has it
    rcases List.mem_cons.1 hd with rfl | hd
    · rw [h.byMethod_self List.mem_cons_self, h.tail.flatMap_byMethod_of_not_mem hfirst,
        List.append_nil]
    · have hne : first.method ≠ d.method := fun heq => hfirst (heq ▸ List.mem_map_of_mem hd)
      rw [h.byMethod_other List.mem_cons_self hne, List.nil_append]
      exact ih h.tail hd

/-- No detector shuts out what another one found. -/
theorem firsts_flatMap (h : Separate records ds) :
    Ranking.firsts (ds.flatMap fun d => inBatch records (d.detect records).findings) =
      ds.flatMap fun d => Ranking.firsts (inBatch records (d.detect records).findings) := by
  induction ds with
  | nil => rfl
  | cons first rest ih =>
    rw [List.flatMap_cons, List.flatMap_cons, Ranking.firsts_append_of_apart, ih h.tail]
    intro f hf g hg hsame
    obtain ⟨d, hd, hg⟩ := List.mem_flatMap.1 hg
    apply (List.nodup_cons.1 h.methods).1
    rw [← h.method_eq List.mem_cons_self hf, hsame.2, h.tail.method_eq hd hg]
    exact List.mem_map_of_mem hd

end Separate

section Reports

variable {records : List Record} {e : Engine} (h : Separate records e.detectors)
include h

theorem byMethod_anomalies_of_mem {d : Detector} (hd : d ∈ e.detectors) :
    byMethod d.method (e.run records).anomalies =
      Ranking.rank (inBatch records (d.detect records).findings) := by
  rw [byMethod_anomalies, h.flatMap_byMethod hd]

theorem byMethod_anomalies_of_not_mem {m : Method} (hm : m ∉ e.detectors.map Detector.method) :
    byMethod m (e.run records).anomalies = [] := by
  rw [byMethod_anomalies, h.flatMap_byMethod_of_not_mem hm, Ranking.rank_nil]

theorem anomalies_perm_firsts :
    (e.run records).anomalies.Perm (e.detectors.flatMap fun d =>
      Ranking.firsts (inBatch records (d.detect records).findings)) := by
  rw [Engine.anomalies_run, ← h.firsts_flatMap]
  exact Ranking.prioritize_perm _

end Reports

theorem Separate.perm {records : List Record} {ds ds' : List Detector} (h : Separate records ds)
    (hperm : ds'.Perm ds) : Separate records ds' :=
  ⟨(hperm.map Detector.method).nodup_iff.2 h.methods, fun d hd => h.own d (hperm.mem_iff.1 hd)⟩

/-- With detectors that keep to their methods, the findings by a method in a report are those of
its detector, ranked on their own, and none where it failed or there is none. They are the same in
the report of any other such engine that has this detector, and an engine that has the same
detectors in another order reports the same findings. -/
theorem methods_independent {records : List Record} {e : Engine}
    (h : Separate records e.detectors) :
    (∀ d ∈ e.detectors, byMethod d.method (e.run records).anomalies =
        Ranking.rank (inBatch records (d.detect records).findings)) ∧
      (∀ d ∈ e.detectors, (∀ fs, d.detect records ≠ .found fs) →
        byMethod d.method (e.run records).anomalies = []) ∧
      (∀ m ∉ e.detectors.map Detector.method, byMethod m (e.run records).anomalies = []) ∧
      (∀ e' : Engine, Separate records e'.detectors → ∀ d ∈ e.detectors, d ∈ e'.detectors →
        byMethod d.method (e'.run records).anomalies =
          byMethod d.method (e.run records).anomalies) ∧
      ∀ e' : Engine, e'.detectors.Perm e.detectors →
        (e'.run records).anomalies.Perm (e.run records).anomalies := by
  refine ⟨fun d hd => byMethod_anomalies_of_mem h hd, ?_,
    fun m hm => byMethod_anomalies_of_not_mem h hm, ?_, ?_⟩
  · intro d hd hfailed
    rw [byMethod_anomalies_of_mem h hd]
    cases hdetect : d.detect records with
    | found fs => exact absurd hdetect (hfailed fs)
    | failed fault => exact Ranking.rank_nil
    | crashed crash => exact Ranking.rank_nil
  · intro e' h' d hd hd'
    rw [byMethod_anomalies_of_mem h' hd', byMethod_anomalies_of_mem h hd]
  · intro e' hperm
    have hparts := hperm.flatMap_right fun d =>
      Ranking.firsts (inBatch records (d.detect records).findings)
    exact (anomalies_perm_firsts (h.perm hperm)).trans
      (hparts.trans (anomalies_perm_firsts h).symm)

/-- One detector finds a record twice and a record outside of the batch, and one crashes. -/
theorem methods_independent_crashing :
    let finding (record : Nat) (score : Float) : Finding :=
      .of {} .density record score (.similarity 0 0)
    let density : Detector := .ofMethod .density fun _ =>
      .found [finding 0 0.5, finding 0 0.9, finding 7 0.9]
    let crashing : Detector := .ofMethod .temporal fun _ => .crashed (.text "boom")
    Separate [.empty] [crashing, density] ∧
      byMethod .density (Engine.run ⟨{}, [crashing, density]⟩ [.empty]).anomalies =
        [finding 0 0.5] := by
  intro finding density crashing
  have hseparate : Separate [.empty] [crashing, density] := by
    refine ⟨by decide, ?_⟩
    simp [crashing, density, finding, Detector.ofMethod, Outcome.findings, Finding.of]
  refine ⟨hseparate, ?_⟩
  have hmem : density ∈ [crashing, density] := by simp
  have hranked := (methods_independent (e := ⟨{}, [crashing, density]⟩) hseparate).1 density hmem
  have hfirst : Ranking.firsts (inBatch [.empty] (density.detect [.empty]).findings) =
      [finding 0 0.5] := rfl
  rw [Ranking.rank, hfirst] at hranked
  exact hranked.trans (List.mergeSort_singleton _)

end LedgerWatch.Ensemble
