import LedgerWatch.Ensemble.Engine

namespace LedgerWatch

namespace Outcome

def findings : Outcome → List Finding
  | .found fs => fs
  | .failed _ => []
  | .crashed _ => []

def status : Outcome → Ensemble.Status
  | .found _ => .ok
  | .failed fault => .failed fault.message
  | .crashed crash => .failed crash.message

theorem isFailed_status_iff (o : Outcome) : o.status.isFailed ↔ ∀ fs, o ≠ .found fs := by
  cases o <;> simp [status, Ensemble.Status.isFailed]

end Outcome

namespace Ensemble

def Run.of (records : List Record) (d : Detector) : Run :=
  { detector := d.name
    method := d.method
    status := (d.detect records).status
    findings := (d.detect records).findings.countP fun f => f.record < records.length }

theorem contribution_eq (d : Detector) (records : List Record) :
    contribution d records =
      ⟨inBatch records (d.detect records).findings, Run.of records d⟩ := by
  unfold contribution Run.of
  cases h : d.detect records with
  | found fs => simp [Outcome.findings, Outcome.status, inBatch, List.countP_eq_length_filter]
  | failed fault => rfl
  | crashed crash => rfl

namespace Engine

theorem run_eq (e : Engine) (records : List Record) :
    e.run records =
      assemble e.settings records
        (e.detectors.map fun d =>
          ⟨inBatch records (d.detect records).findings, Run.of records d⟩) := by
  simp only [run, contributions_eq, contribution_eq]

theorem runs_run (e : Engine) (records : List Record) :
    (e.run records).runs = e.detectors.map (Run.of records) := by
  rw [run_eq]
  simp [assemble]

theorem anomalies_run (e : Engine) (records : List Record) :
    (e.run records).anomalies =
      Ranking.rank (e.detectors.flatMap fun d => inBatch records (d.detect records).findings) := by
  rw [run_eq]
  simp [assemble, List.flatMap_map]

theorem summary_run (e : Engine) (records : List Record) :
    (e.run records).summary = .of records (e.run records).anomalies := by
  rw [run_eq]
  rfl

theorem patterns_run (e : Engine) (records : List Record) :
    (e.run records).patterns =
      e.settings.patterns.patterns records (e.run records).anomalies := by
  rw [run_eq]
  rfl

theorem run_parallel (c : Settings) (ds : List Detector) (records : List Record)
    (parallel : Bool) :
    run ⟨{ c with parallel }, ds⟩ records = run ⟨c, ds⟩ records := by
  rw [run_eq, run_eq]
  rfl

end Engine

inductive Request
  | register (d : Detector)
  | run (records : List Record)

/-- The engine after a request, and the report where a run was asked for. -/
def Engine.serve (e : Engine) : Request → Engine × Option Report
  | .register d => (e.register d, none)
  | .run records => (e, some (e.run records))

/-- The engines made from some settings and asked for anything since, each with the detectors
registered so far. -/
inductive Reached (c : Settings) : List Detector → Engine → Prop
  | standard {entropy : UInt64} {e : Engine} (h : Engine.ofSettings? c entropy = .ok e) :
      Reached c (c.detectors entropy) e
  | assembled (ds : List Detector) : Reached c ds ⟨c, ds⟩
  | registered {ds : List Detector} {e : Engine} (h : Reached c ds e) (d : Detector) :
      Reached c (ds ++ [d]) (e.serve (.register d)).1
  | ran {ds : List Detector} {e : Engine} (h : Reached c ds e) (records : List Record) :
      Reached c ds (e.serve (.run records)).1

theorem Engine.eq_of_ofSettings? {c : Settings} {entropy : UInt64} {e : Engine}
    (h : Engine.ofSettings? c entropy = .ok e) :
    c.check = .ok () ∧ e = ⟨c, c.detectors entropy⟩ := by
  unfold Engine.ofSettings? at h
  cases hc : c.check with
  | error fault => simp [hc, bind, Except.bind] at h
  | ok u =>
    simp only [hc, bind, Except.bind, pure, Except.pure, Except.ok.injEq] at h
    exact ⟨rfl, h.symm⟩

theorem Engine.ofSettings?_of_check {c : Settings} (h : c.check = .ok ()) (entropy : UInt64) :
    Engine.ofSettings? c entropy = .ok ⟨c, c.detectors entropy⟩ := by
  simp only [Engine.ofSettings?, h, bind, Except.bind, pure, Except.pure]

/-- Requests change nothing but the list of detectors, and that only at its end. -/
theorem Reached.eq {c : Settings} {ds : List Detector} {e : Engine} (h : Reached c ds e) :
    e = ⟨c, ds⟩ := by
  induction h with
  | standard h => exact (Engine.eq_of_ofSettings? h).2
  | assembled ds => rfl
  | registered _ d ih => rw [ih]; rfl
  | ran _ records ih => exact ih

/-- Any engine answers a run on any batch with a report and stays as it is. The report has one
entry for each registered detector, in order; it ranks the findings in the batch of those
that found any; and it is the same whether the detectors run side by side or not. -/
theorem report_of_reached {c : Settings} {ds : List Detector} {e : Engine}
    (h : Reached c ds e) (records : List Record) :
    e.serve (.run records) = (e, some (e.run records)) ∧
      e = ⟨c, ds⟩ ∧
      (e.run records).runs = ds.map (Run.of records) ∧
      (∀ d ∈ ds, (Run.of records d).status.isFailed ↔ ∀ fs, d.detect records ≠ .found fs) ∧
      (e.run records).anomalies =
        Ranking.rank (ds.flatMap fun d => inBatch records (d.detect records).findings) ∧
      ∀ parallel, Engine.run ⟨{ c with parallel }, ds⟩ records = e.run records := by
  obtain rfl := h.eq
  refine ⟨rfl, rfl, Engine.runs_run _ records, ?_, Engine.anomalies_run _ records, ?_⟩
  · intro d _
    exact (d.detect records).isFailed_status_iff
  · intro parallel
    exact Engine.run_parallel c ds records parallel

/-- One detector fails, one crashes and is registered after a run, and one reports a record that
is not in the batch. -/
theorem report_of_reached_broken :
    let failing : Detector := .ofMethod .similarity fun _ => .failed (.computation "no kernel")
    let straying : Detector := .ofMethod .density fun _ =>
      .found [.of {} .density 0 0.5 (.similarity 0 0), .of {} .density 7 0.5 (.similarity 0 0)]
    let crashing : Detector := .ofMethod .temporal fun _ => .crashed (.text "boom")
    let ran := ((⟨{}, [failing, straying]⟩ : Engine).serve (.run [])).1
    let engine := (ran.serve (.register crashing)).1
    (engine.run [.empty]).runs.map (fun r => (r.detector, r.status, r.findings)) =
      [("one_class_svm", .failed "Computation error: no kernel", 0),
        ("local_outlier_factor", .ok, 1), ("temporal", .failed "panic: boom", 0)] := by
  intro failing straying crashing ran engine
  have reached : Reached {} [failing, straying, crashing] engine :=
    .registered (.ran (.assembled [failing, straying]) []) crashing
  rw [(report_of_reached reached [.empty]).2.2.1]
  rfl

end Ensemble

end LedgerWatch
