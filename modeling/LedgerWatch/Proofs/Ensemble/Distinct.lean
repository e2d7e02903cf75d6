import Mathlib.Algebra.GroupWithZero.Nat
import LedgerWatch.Proofs.Ensemble.Tallies
import LedgerWatch.Proofs.Ensemble.Verdicts

namespace LedgerWatch.Ensemble

/-- Whatever a detector of an ensemble finds is a roster, also where it finds nothing since it
failed or crashed. -/
theorem roster_detectors (c : Settings) (entropy : UInt64) (records : List Record) :
    ∀ d ∈ c.detectors entropy, Roster d.method records.length (d.detect records).findings := by
  intro d hd
  obtain ⟨v, -, -, hsettled⟩ := Lists.exists_of_mem_left (settled_detectors c entropy records) hd
  exact hsettled.roster_findings

theorem found_or_crashed {c : Settings} (h : c.check = .ok ()) (entropy : UInt64)
    (records : List Record) :
    ∀ d ∈ c.detectors entropy,
      (c.CrashesOn records d.method → d.detect records = .crashed .overCapacity) ∧
      (¬c.CrashesOn records d.method →
        ∃ fs, d.detect records = .found fs ∧ Roster d.method records.length fs) := by
  intro d hd
  obtain ⟨v, hv, -, hsettled⟩ := Lists.exists_of_mem_left (settled_detectors c entropy records) hd
  exact ⟨hsettled.crashed, hsettled.accepted (Settings.verdicts_of_check h v hv)⟩

theorem methods_detectors (c : Settings) (entropy : UInt64) :
    (c.detectors entropy).map Detector.method = Method.all := rfl

section Rosters

variable {e : Engine} {records : List Record}
  (h : ∀ d ∈ e.detectors, Roster d.method records.length (d.detect records).findings)
include h

theorem findings_of {d : Detector} (hd : d ∈ e.detectors) :
    (Run.of records d).findings = (d.detect records).findings.length := by
  apply List.countP_eq_length.2
  intro f hf
  exact decide_eq_true ((h d hd).inBatch f hf)

theorem findings_runs :
    (e.run records).runs.map Run.findings =
      e.detectors.map fun d => (d.detect records).findings.length := by
  rw [Engine.runs_run, List.map_map]
  apply List.map_congr_left
  intro d hd
  exact findings_of h hd

/-- Detectors of different methods leave the ranking nothing to drop. -/
theorem anomalies_perm (hmethods : (e.detectors.map Detector.method).Nodup) :
    (e.run records).anomalies.Perm (e.detectors.flatMap fun d => (d.detect records).findings) := by
  -- no finding is outside of the batch, and no two have the same subject
  have hinside : (e.detectors.flatMap fun d => inBatch records (d.detect records).findings) =
      e.detectors.flatMap fun d => (d.detect records).findings := by
    apply List.flatMap_congr
    intro d hd
    exact (h d hd).inBatch_eq_self
  rw [Engine.anomalies_run, hinside, Ranking.rank,
    Ranking.firsts_eq_self (pairwise_apart_flatMap hmethods h)]
  exact Ranking.prioritize_perm _

theorem length_anomalies (hmethods : (e.detectors.map Detector.method).Nodup) :
    (e.run records).anomalies.length = ((e.run records).runs.map Run.findings).sum := by
  rw [(anomalies_perm h hmethods).length_eq, List.length_flatMap, findings_runs h]

theorem countP_anomalies (hmethods : (e.detectors.map Detector.method).Nodup) {d : Detector}
    (hd : d ∈ e.detectors) :
    ((e.run records).anomalies.countP fun f => f.method == d.method) =
      (Run.of records d).findings := by
  rw [(anomalies_perm h hmethods).countP_eq, findings_of h hd,
    countP_flatMap_method hmethods h hd]

end Rosters

/-- Each detector of an accepted ensemble finds records of the batch by its own method, none of
them twice, unless it is a forest that no list can hold, which crashes. In every run the report
holds every finding, the number of its findings is the sum of those of the runs, and the number by a
method is that of the run of this method. -/
theorem findings_add_up {c : Settings} {entropy : UInt64} {e : Engine}
    (h : Engine.ofSettings? c entropy = .ok e) (records : List Record) :
    e.detectors.map Detector.method = Method.all ∧
      (∀ d ∈ e.detectors,
        (c.CrashesOn records d.method → d.detect records = .crashed .overCapacity) ∧
        (¬c.CrashesOn records d.method →
          ∃ fs, d.detect records = .found fs ∧ Roster d.method records.length fs)) ∧
      (e.run records).anomalies.Perm (e.detectors.flatMap fun d => (d.detect records).findings) ∧
      (e.run records).summary.anomalies = ((e.run records).runs.map Run.findings).sum ∧
      (e.run records).summary.byMethod =
        (e.run records).runs.map fun r => (r.method, r.findings) := by
  obtain ⟨hc, rfl⟩ := Engine.eq_of_ofSettings? h
  have hroster := roster_detectors c entropy records
  have hmethods : ((c.detectors entropy).map Detector.method).Nodup := by
    rw [methods_detectors]
    decide
  refine ⟨methods_detectors c entropy, found_or_crashed hc entropy records,
    anomalies_perm hroster hmethods, length_anomalies hroster hmethods, ?_⟩
  rw [Engine.summary_run, Engine.runs_run, List.map_map, Summary.byMethod_eq, tally]
  rw [← methods_detectors c entropy, List.map_map]
  apply List.map_congr_left
  intro d hd
  exact Prod.ext rfl (countP_anomalies hroster hmethods hd)

/-- An accepted engine with a detector that finds nothing, since it crashes. -/
theorem crashed_of_countless_trees :
    let c : Settings := { isolation := { trees := 18446744073709551615, seed := some 42 } }
    let record : Record := ⟨[("amount", .string "1")]⟩
    ∃ e, Engine.ofSettings? c 0 = .ok e ∧
      ∃ d ∈ e.detectors, d.method = .isolation ∧
        d.detect [record, record] = .crashed .overCapacity ∧
        ∀ fs, d.detect [record, record] ≠ .found fs := by
  intro c record
  have hc : c.check = .ok () := by decide +kernel
  have hcrashes : c.CrashesOn [record, record] .isolation :=
    ⟨rfl, by decide +kernel, by decide +kernel, by decide +kernel⟩
  have hcrashed := (found_or_crashed hc 0 [record, record] _ (.head _)).1 hcrashes
  refine ⟨_, Engine.ofSettings?_of_check hc 0, _, .head _, rfl, hcrashed, fun fs hfound => ?_⟩
  cases hcrashed.symm.trans hfound

/-- Of three purchases of one customer five detectors find some or all. -/
theorem findings_add_up_purchases :
    let purchase (amount : String) : Record :=
      ⟨[("amount", .string amount), ("customer_id", .string "a"), ("merchant_id", .string "b"),
        ("merchant_category", .string "food"), ("is_fraud", .string "true")]⟩
    let records := [purchase "1", purchase "-1", purchase "1e10"]
    let c : Settings :=
      { isolation := { trees := 2, maxSamples := 3, seed := some 7 }
        density := { neighbors := 1, threshold := 1 }
        similarity := { nu := 0.5 }
        network := { minClusterSize := 2 } }
    ∃ e, Engine.ofSettings? c 0 = .ok e ∧
      (e.run records).runs.map Run.findings = [1, 1, 3, 1, 0, 3] ∧
      (e.run records).summary.anomalies = 9 ∧
      (e.run records).summary.byMethod =
        (e.run records).runs.map fun r => (r.method, r.findings) := by
  intro purchase records c
  have hengine := Engine.ofSettings?_of_check (c := c) (by decide +kernel) 0
  obtain ⟨-, -, -, hsum, hbyMethod⟩ := findings_add_up hengine records
  have hfindings : (Engine.run ⟨c, c.detectors 0⟩ records).runs.map Run.findings =
      [1, 1, 3, 1, 0, 3] := by
    rw [findings_runs (roster_detectors c 0 records)]
    decide +kernel
  rw [hfindings] at hsum
  exact ⟨_, hengine, hfindings, hsum, hbyMethod⟩

end LedgerWatch.Ensemble
