import LedgerWatch.Proofs.Ensemble.Distinct
import LedgerWatch.Proofs.Ensemble.Patterns
import LedgerWatch.Proofs.Insertion.Contextual
import LedgerWatch.Proofs.Insertion.Density
import LedgerWatch.Proofs.Insertion.Isolation
import LedgerWatch.Proofs.Insertion.Network
import LedgerWatch.Proofs.Insertion.Similarity
import LedgerWatch.Proofs.Insertion.Temporal

namespace LedgerWatch.Ensemble

variable {r : Record}

theorem detect_inserted {c : Settings} (hc : c.check = .ok ()) (entropy : UInt64)
    (hr : r.IsInert) (before after : List Record) :
    ∀ d ∈ c.detectors entropy, d.detect (before ++ r :: after) =
      (d.detect (before ++ after)).reindex (past before.length) := by
  have hok := Settings.verdicts_of_check hc
  simp only [Settings.verdicts, List.forall_mem_cons] at hok
  obtain ⟨h1, h2, h3, h4, h5, h6, -⟩ := hok
  simp only [Settings.detectors, List.forall_mem_cons]
  refine ⟨?_, ?_, ?_, ?_, ?_, ?_, by simp⟩
  · exact Isolation.detect_inserted h1 _ _ _ hr before after
  · exact Density.detect_inserted h2 _ _ hr before after
  · exact Similarity.detect_inserted h3 _ _ hr before after
  · exact Contextual.detect_inserted h4 _ hr before after
  · exact Temporal.detect_inserted h5 _ hr before after
  · exact Network.detect_inserted h6 _ hr before after

theorem findings_reindex (p : Nat → Nat) (o : Outcome) :
    (o.reindex p).findings = o.findings.map (Finding.reindex p) := by
  cases o <;> rfl

theorem status_reindex (p : Nat → Nat) (o : Outcome) : (o.reindex p).status = o.status := by
  cases o <;> rfl

section Reports

variable {k : Nat} {records records' : List Record} (h : Inserted k r records records')
include h

theorem inBatch_inserted (fs : List Finding) :
    inBatch records' (fs.map (Finding.reindex (past k))) =
      (inBatch records fs).map (Finding.reindex (past k)) := by
  rw [inBatch, List.filter_map, inBatch]
  congr 1
  apply List.filter_congr
  intro f _
  simp only [Function.comp, Finding.reindex, h.length_eq, past_lt_iff h.le_length]

theorem recordOf?_inserted (f : Finding) :
    recordOf? records'.toArray (f.reindex (past k)) = recordOf? records.toArray f :=
  h.getElem?_toArray_past f.record

/-- Patterns are read off the records of the findings, wherever these stand. -/
theorem patterns_inserted (c : PatternSettings) (fs : List Finding) :
    c.patterns records' (fs.map (Finding.reindex (past k))) = c.patterns records fs := by
  have hhigh : (fs.map (Finding.reindex (past k))).countP (c.isHighValue records'.toArray) =
      fs.countP (c.isHighValue records.toArray) := by
    rw [List.countP_map]
    apply List.countP_congr
    intro f _
    simp only [Function.comp, PatternSettings.isHighValue, recordOf?_inserted h]
  have hstates : PatternSettings.states records'.toArray (fs.map (Finding.reindex (past k))) =
      PatternSettings.states records.toArray fs := by
    simp only [PatternSettings.states, List.filterMap_map, Function.comp_def,
      recordOf?_inserted h]
  simp only [PatternSettings.patterns, hhigh, hstates, List.countP_map]
  rfl

variable {e : Engine}
  (hdetect : ∀ d ∈ e.detectors, d.detect records' = (d.detect records).reindex (past k))
include hdetect

theorem runs_inserted : (e.run records').runs = (e.run records).runs := by
  rw [Engine.runs_run, Engine.runs_run]
  apply List.map_congr_left
  intro d hd
  rw [Run.of, hdetect d hd, Run.of, status_reindex, findings_reindex]
  have hcount := congrArg List.length (inBatch_inserted h (d.detect records).findings)
  rw [List.length_map] at hcount
  simp only [inBatch, ← List.countP_eq_length_filter] at hcount
  rw [hcount]

theorem anomalies_inserted :
    (e.run records').anomalies = (e.run records).anomalies.map (Finding.reindex (past k)) := by
  rw [Engine.anomalies_run, Engine.anomalies_run, ← Ranking.rank_reindex (past_injective k),
    List.map_flatMap]
  congr 1
  apply List.flatMap_congr
  intro d hd
  rw [hdetect d hd, findings_reindex]
  exact inBatch_inserted h _

end Reports

/-- With an inert record more, an accepted ensemble reports the same findings in the same order,
for records that have moved on, the same runs and the same patterns. -/
theorem report_of_inert_inserted {c : Settings} {entropy : UInt64} {e : Engine}
    (h : Engine.ofSettings? c entropy = .ok e) (hr : r.IsInert) (before after : List Record) :
    (e.run (before ++ r :: after)).anomalies =
        (e.run (before ++ after)).anomalies.map (Finding.reindex (past before.length)) ∧
      (e.run (before ++ r :: after)).runs = (e.run (before ++ after)).runs ∧
      (e.run (before ++ r :: after)).patterns = (e.run (before ++ after)).patterns := by
  obtain ⟨hc, rfl⟩ := Engine.eq_of_ofSettings? h
  have hinserted := Inserted.intro before after r
  have hdetect := detect_inserted hc entropy hr before after
  have hanomalies := anomalies_inserted (e := ⟨c, c.detectors entropy⟩) hinserted hdetect
  refine ⟨hanomalies, runs_inserted hinserted hdetect, ?_⟩
  rw [Engine.patterns_run, Engine.patterns_run, hanomalies]
  exact patterns_inserted hinserted c.patterns _

/-- A record with a customer and a note only, between purchases that five detectors find. -/
theorem report_of_inert_inserted_note :
    let purchase (amount : String) : Record :=
      ⟨[("amount", .string amount), ("customer_id", .string "a"), ("merchant_id", .string "b"),
        ("merchant_category", .string "food"), ("is_fraud", .string "true")]⟩
    let note : Record := ⟨[("customer_id", .string "a"), ("note", .string "late")]⟩
    let before := [purchase "1", purchase "-1"]
    let after := [purchase "1e10"]
    let c : Settings :=
      { isolation := { trees := 1, maxSamples := 3, seed := some 7 }
        density := { neighbors := 1, threshold := 1 }
        similarity := { nu := 0.5 } }
    ∃ e, Engine.ofSettings? c 0 = .ok e ∧
      ((e.run (before ++ after)).anomalies.map fun f => (f.record, f.method)).Perm
        [(2, .isolation), (2, .density), (0, .similarity), (1, .similarity), (2, .similarity),
          (2, .contextual), (0, .network), (1, .network), (2, .network)] ∧
      (e.run (before ++ note :: after)).anomalies =
        (e.run (before ++ after)).anomalies.map (Finding.reindex (past 2)) ∧
      (e.run (before ++ note :: after)).runs = (e.run (before ++ after)).runs ∧
      (e.run (before ++ note :: after)).runs.map Run.findings = [1, 1, 3, 1, 0, 3] ∧
      (e.run (before ++ note :: after)).patterns = (e.run (before ++ after)).patterns ∧
      (e.run (before ++ note :: after)).patterns.map Pattern.count = [5] := by
  intro purchase note before after c
  have hnote : note.IsInert := ⟨rfl, rfl, rfl, rfl, rfl, rfl, .inr rfl⟩
  have hengine := Engine.ofSettings?_of_check (c := c) (by decide +kernel) 0
  have hroster := roster_detectors c 0 (before ++ after)
  have hperm := anomalies_perm (e := ⟨c, c.detectors 0⟩) hroster (by decide)
  obtain ⟨hanomalies, hruns, hpatterns⟩ := report_of_inert_inserted hengine hnote before after
  refine ⟨_, hengine, (hperm.map _).trans (.of_eq (by decide +kernel)), hanomalies, hruns, ?_,
    hpatterns, ?_⟩
  · rw [hruns, findings_runs hroster]
    decide +kernel
  · rw [hpatterns, Engine.patterns_run, PatternSettings.patterns_of_perm hperm.symm]
    decide +kernel

end LedgerWatch.Ensemble
