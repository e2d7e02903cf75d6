import LedgerWatch.Proofs.Contextual.Findings
import LedgerWatch.Proofs.Density.Findings
import LedgerWatch.Proofs.Density.Neighborhood
import LedgerWatch.Proofs.Ensemble.History
import LedgerWatch.Proofs.Isolation.Findings
import LedgerWatch.Proofs.Network.Findings
import LedgerWatch.Proofs.Network.Incidence
import LedgerWatch.Proofs.Similarity.Findings
import LedgerWatch.Proofs.Stats.PeerLists
import LedgerWatch.Proofs.Temporal.Findings

namespace LedgerWatch.Ensemble

/-- What each section of the settings has to say on the detector made from it. -/
def Settings.verdicts (c : Settings) : List (Method × Except Fault Unit) :=
  [(.isolation, c.isolation.check), (.density, c.density.check),
    (.similarity, c.similarity.check), (.contextual, c.contextual.check),
    (.temporal, c.temporal.check), (.network, c.network.check)]

def Status.ofVerdict : Except Fault Unit → Status
  | .ok () => .ok
  | .error fault => .failed fault.message

theorem Settings.verdicts_of_check {c : Settings} (h : c.check = .ok ()) :
    ∀ v ∈ c.verdicts, v.2 = .ok () := by
  have peel : ∀ {first rest : Except Fault Unit},
      (first >>= fun _ => rest) = .ok () → first = .ok () ∧ rest = .ok () := by
    intro first rest hboth
    cases first with
    | error fault => cases hboth
    | ok u => exact ⟨rfl, hboth⟩
  unfold Settings.check at h
  obtain ⟨h1, h⟩ := peel h
  obtain ⟨h2, h⟩ := peel h
  obtain ⟨h3, h⟩ := peel h
  obtain ⟨h4, h⟩ := peel h
  obtain ⟨h5, h⟩ := peel h
  obtain ⟨h6, -⟩ := peel h
  simp [verdicts, h1, h2, h3, h4, h5, h6]

theorem check_default : Settings.check {} = .ok () := by decide +kernel

/-- Whether the detector of a method crashes: a forest has to grow that no list can hold. -/
def Settings.CrashesOn (c : Settings) (records : List Record) (m : Method) : Prop :=
  m = .isolation ∧ c.isolation.check = .ok () ∧ c.isolation.Overloaded records

instance (c : Settings) (records : List Record) (m : Method) : Decidable (c.CrashesOn records m) :=
  inferInstanceAs (Decidable (_ ∧ _ ∧ _))

/-- An outcome is the fault of a verdict that refuses, and a roster unless there is a crash. -/
structure Settled (verdict : Except Fault Unit) (crashes : Prop) (m : Method) (n : Nat)
    (o : Outcome) : Prop where
  refused : ∀ fault, verdict = .error fault → o = .failed fault
  crashed : crashes → o = .crashed .overCapacity
  accepted : verdict = .ok () → ¬crashes → ∃ fs, o = .found fs ∧ Roster m n fs

namespace Settled

variable {verdict : Except Fault Unit} {crashes : Prop} {m : Method} {n : Nat} {o : Outcome}

theorem status_eq [Decidable crashes] (h : Settled verdict crashes m n o) :
    o.status =
      if crashes then .failed Crash.overCapacity.message else Status.ofVerdict verdict := by
  split
  · rename_i hcrashes
    rw [h.crashed hcrashes]
    rfl
  · rename_i hsteady
    cases verdict with
    | error fault =>
      rw [h.refused fault rfl]
      rfl
    | ok u =>
      obtain ⟨fs, hfs, -⟩ := h.accepted rfl hsteady
      rw [hfs]
      rfl

theorem crashed_iff (h : Settled verdict crashes m n o) (crash : Crash) :
    o = .crashed crash ↔ crashes ∧ crash = .overCapacity := by
  by_cases hcrashes : crashes
  · rw [h.crashed hcrashes, Outcome.crashed.injEq, and_iff_right hcrashes, eq_comm]
  · refine iff_of_false (fun hcrash => ?_) fun hboth => hcrashes hboth.1
    cases verdict with
    | error fault => cases (h.refused fault rfl).symm.trans hcrash
    | ok u =>
      obtain ⟨fs, hfs, -⟩ := h.accepted rfl hcrashes
      cases hfs.symm.trans hcrash

theorem roster_findings (h : Settled verdict crashes m n o) : Roster m n o.findings := by
  have hnone : Roster m n [] := ⟨List.forall_mem_nil _, List.forall_mem_nil _, List.nodup_nil⟩
  by_cases hcrashes : crashes
  · rw [h.crashed hcrashes]
    exact hnone
  · cases verdict with
    | error fault =>
      rw [h.refused fault rfl]
      exact hnone
    | ok u =>
      obtain ⟨fs, hfs, hroster⟩ := h.accepted rfl hcrashes
      rw [hfs]
      exact hroster

/-- A detector that is no forest never crashes. -/
theorem of_steady {c : Settings} {records : List Record} (hm : m ≠ .isolation)
    (hrefused : ∀ fault, verdict = .error fault → o = .failed fault)
    (haccepted : verdict = .ok () → ∃ fs, o = .found fs ∧ Roster m n fs) :
    Settled verdict (c.CrashesOn records m) m n o :=
  ⟨hrefused, fun hcrashes => absurd hcrashes.1 hm, fun hok _ => haccepted hok⟩

end Settled

theorem settled_isolation (c : Settings) (entropy : UInt64) (records : List Record) :
    Settled c.isolation.check (c.CrashesOn records .isolation) .isolation records.length
      (c.isolation.detect c.scaling c.bands entropy records) where
  refused _ h := Isolation.detect_of_refused h c.scaling c.bands entropy records
  crashed h := Isolation.detect_of_overloaded h.2.1 h.2.2 c.scaling c.bands entropy
  accepted h hsteady := by
    have hload : ¬c.isolation.Overloaded records := fun hload => hsteady ⟨rfl, h, hload⟩
    exact Isolation.detect_of_accepted h hload c.scaling c.bands entropy

/-- The detectors and the verdicts of the sections, side by side. -/
theorem settled_detectors (c : Settings) (entropy : UInt64) (records : List Record) :
    List.Forall₂
      (fun d v => d.method = v.1 ∧
        Settled v.2 (c.CrashesOn records d.method) d.method records.length (d.detect records))
      (c.detectors entropy) c.verdicts := by
  refine .cons ⟨rfl, settled_isolation c entropy records⟩
    (.cons ⟨rfl, .of_steady nofun ?_ ?_⟩ (.cons ⟨rfl, .of_steady nofun ?_ ?_⟩
      (.cons ⟨rfl, .of_steady nofun ?_ ?_⟩ (.cons ⟨rfl, .of_steady nofun ?_ ?_⟩
        (.cons ⟨rfl, .of_steady nofun ?_ ?_⟩ .nil)))))
  · exact fun _ h => Density.detect_of_refused h _ _ records
  · exact fun h => Density.detect_of_accepted h _ _ records
  · exact fun _ h => Similarity.detect_of_refused h _ _ records
  · exact fun h => Similarity.detect_of_accepted h _ _ records
  · exact fun _ h => Contextual.detect_of_refused h _ records
  · exact fun h => Contextual.detect_of_accepted h _ records
  · exact fun _ h => Temporal.detect_of_refused h _ records
  · exact fun h => Temporal.detect_of_accepted h _ records
  · exact fun _ h => Network.detect_of_refused h _ records
  · exact fun h => Network.detect_of_accepted h _ records

/-- What the run of a method reports, by the verdict on its section. -/
def Settings.statusOf (c : Settings) (records : List Record) (v : Method × Except Fault Unit) :
    Status :=
  if c.CrashesOn records v.1 then .failed Crash.overCapacity.message else .ofVerdict v.2

theorem statuses_run (c : Settings) (entropy : UInt64) (records : List Record) :
    ((Engine.run ⟨c, c.detectors entropy⟩ records).runs.map fun r => (r.method, r.status)) =
      c.verdicts.map fun v => (v.1, c.statusOf records v) := by
  rw [Engine.runs_run, List.map_map]
  -- detectors and verdicts are walked side by side; what they are does not matter any more
  have h := settled_detectors c entropy records
  revert h
  generalize c.verdicts = verdicts
  generalize c.detectors entropy = ds
  intro h
  induction h with
  | nil => rfl
  | cons hd _ ih =>
    obtain ⟨hmethod, hsettled⟩ := hd
    rw [List.map_cons, List.map_cons, ih, Settings.statusOf, ← hmethod, ← hsettled.status_eq]
    rfl

theorem crashed_iff_of_mem_detectors {c : Settings} {entropy : UInt64} {d : Detector}
    (hd : d ∈ c.detectors entropy) (records : List Record) (crash : Crash) :
    d.detect records = .crashed crash ↔
      c.CrashesOn records d.method ∧ crash = .overCapacity := by
  obtain ⟨v, -, -, hsettled⟩ := Lists.exists_of_mem_left (settled_detectors c entropy records) hd
  exact hsettled.crashed_iff crash

/-- Where a detector looks something up there is something, and numbers are drawn from proper
ranges. The look-ups of a forest show in its outcome, and no draw has a type with an empty range. -/
structure LookupsInRange (c : Settings) (records : List Record) : Prop where
  /-- No tree asks for a number from a range of infinite width. -/
  ranges : ∀ draws, Isolation.AgreeOnFinite draws Random.Stream.draws → ∀ t depth rows s,
    Isolation.grow draws t depth rows s = Isolation.grow Random.Stream.draws t depth rows s
  /-- Neighbors are rows of the table. -/
  neighbors : ∀ scaling i, let rows := (scaledFeatures records scaling).rows.toList
    ∀ e ∈ Density.nearest rows (c.density.wanted rows.length) i, e.row < records.length
  /-- The windows of the series are full. -/
  windows : ∀ v ∈ Temporal.windows c.temporal.window.toNat (Temporal.series records),
    v.1.length = c.temporal.window.toNat
  /-- Every member of a group has peers and a baseline. -/
  peers : ∀ (xs : List Float) p, Stats.PeerStats.ofValues? xs = some p →
    p.peers.length = xs.length ∧ p.baselines.length = xs.length
  /-- The positions that an actor holds are those of transfers. -/
  positions : ∀ a, ∀ i ∈ (Network.Graph.ofRecords records).incidentPositions a,
    i < (Network.Graph.ofRecords records).transfers.size

theorem lookupsInRange (c : Settings) (records : List Record) : LookupsInRange c records where
  ranges draws h t depth rows s := Isolation.grow_congr h t depth rows s
  neighbors scaling i e he := by
    rw [← height_scaledFeatures records scaling]
    exact (Density.lt_of_mem_nearest he).1
  windows v hv := (Temporal.mem_windows hv).1
  peers xs p h :=
    ⟨Stats.PeerStats.length_peers_of_ofValues? h, Stats.PeerStats.length_baselines_of_ofValues? h⟩
  positions a i hi := (Network.Graph.indexed_ofTransfers _).lt_of_mem_incidentPositions hi

/-- Whatever the settings and the records, each of the six runs has the status that its section of
the settings deserves, and no detector looks outside of what it holds. One detector can crash: the
forest, where it is asked for more trees than a list can hold. An engine from accepted settings thus
reports six runs that went well wherever the forest finds room. -/
theorem statuses_of_verdicts (c : Settings) (entropy : UInt64) (records : List Record) :
    ((Engine.run ⟨c, c.detectors entropy⟩ records).runs.map fun r => (r.method, r.status)) =
        (c.verdicts.map fun v => (v.1, c.statusOf records v)) ∧
      (∀ d ∈ c.detectors entropy, ∀ crash, d.detect records = .crashed crash ↔
        c.CrashesOn records d.method ∧ crash = .overCapacity) ∧
      LookupsInRange c records ∧
      (c.check = .ok () → ¬c.isolation.Overloaded records →
        ∃ e, Engine.ofSettings? c entropy = .ok e ∧
          (e.run records).runs.map Run.status = List.replicate 6 .ok) := by
  refine ⟨statuses_run c entropy records,
    fun d hd crash => crashed_iff_of_mem_detectors hd records crash, lookupsInRange c records, ?_⟩
  intro hc hload
  refine ⟨⟨c, c.detectors entropy⟩, Engine.ofSettings?_of_check hc entropy, ?_⟩
  have hruns := congrArg (List.map Prod.snd) (statuses_run c entropy records)
  rw [List.map_map, List.map_map] at hruns
  refine hruns.trans (List.eq_replicate_iff.2 ⟨rfl, ?_⟩)
  intro status hstatus
  obtain ⟨v, hv, rfl⟩ := List.mem_map.1 hstatus
  have hok := Settings.verdicts_of_check hc v hv
  have hsteady : ¬c.CrashesOn records v.1 := fun hcrashes => hload hcrashes.2.2
  simp only [Function.comp, Settings.statusOf, if_neg hsteady, hok, Status.ofVerdict]

/-- Accepted settings that ask for more trees than a list can hold, and two records with an
amount. -/
theorem failed_run_of_countless_trees :
    let c : Settings := { isolation := { trees := 18446744073709551615, seed := some 42 } }
    let record : Record := ⟨[("amount", .string "1")]⟩
    c.check = .ok () ∧
      ((Engine.run ⟨c, c.detectors 0⟩ [record, record]).runs.map fun r => (r.method, r.status)) =
        [(.isolation, .failed "panic: capacity overflow"), (.density, .ok), (.similarity, .ok),
          (.contextual, .ok), (.temporal, .ok), (.network, .ok)] := by
  intro c record
  refine ⟨by decide +kernel, ?_⟩
  rw [statuses_run]
  decide +kernel

/-- One section is refused, and the batch has records with features. -/
theorem statuses_of_verdicts_one_refused :
    let purchase (amount date : String) : Record :=
      ⟨[("amount", .string amount), ("date", .string date), ("customer_id", .string "a"),
        ("merchant_id", .string "b"), ("merchant_category", .string "food")]⟩
    let records := [purchase "1" "2024-01-01", purchase "2" "2024-01-02",
      purchase "900" "2024-01-03", .empty]
    let c : Settings := { similarity := { nu := 2 }, temporal := { window := 3 } }
    ((Engine.run ⟨c, c.detectors 0⟩ records).runs.map fun r => (r.method, r.status)) =
        [(.isolation, .ok), (.density, .ok),
          (.similarity, .failed "Invalid parameter: one_class.nu = 2, must be in (0, 1]"),
          (.contextual, .ok), (.temporal, .ok), (.network, .ok)] ∧
      let accepted : Settings := { temporal := { window := 3 } }
      accepted.check = .ok () ∧ ¬accepted.isolation.Overloaded records ∧
        ∃ e, Engine.ofSettings? accepted 0 = .ok e ∧
          (e.run records).runs.map Run.status = List.replicate 6 .ok := by
  intro purchase records c
  refine ⟨?_, ?_⟩
  · rw [(statuses_of_verdicts c 0 records).1]
    decide +kernel
  · intro accepted
    have hc : accepted.check = .ok () := by decide +kernel
    have hload : ¬accepted.isolation.Overloaded records := fun h => absurd h.1 (by decide)
    exact ⟨hc, hload, (statuses_of_verdicts accepted 0 records).2.2.2 hc hload⟩

end LedgerWatch.Ensemble
