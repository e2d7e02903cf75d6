import LedgerWatch.Proofs.Command.Seeds
import LedgerWatch.Proofs.Command.World
import LedgerWatch.Proofs.Ensemble.Sizes

namespace LedgerWatch.Command

open Ensemble (Engine Report)

namespace Options

def loaded (o : Options) (w : World) : Except Batch.Failure (List Record) :=
  Batch.load? o.data (w.text? o.data)

/-- The settings in the settings file; the default ones where none is named. -/
def configured (o : Options) (w : World) : Except Failure Ensemble.Settings :=
  match o.config with
  | none => .ok {}
  | some path => (Ensemble.Settings.ofFileContent? (w.text? path)).mapError (.settings path)

end Options

/-- A run ends early: the failure is told, and no file is made or changed. -/
structure EndsEarly (w : World) (failure : Failure) (exit : UInt32 × World) : Prop where
  code : exit.1 = 1
  files : exit.2.files = w.files
  errors : exit.2.errors = w.errors ++ ("Error: " ++ failure.message w.words ++ "\n")

/-- The lines on the first findings of a report, as many as are wanted. -/
def topLines (top : Nat) (findings : List Finding) : List String :=
  if findings = [] then []
  else
    sectionLines ("Top " ++ toString (min top findings.length) ++ " findings") ++
      findingColumns "Record" "Method" "Severity" "Score" :: (findings.take top).map findingLine

/-- A run reports: what it shows, and what it does to the files. -/
structure Reports (o : Options) (w : World) (records : List Record) (report : Report)
    (exit : UInt32 × World) : Prop where
  /-- Without an output file no file is touched. -/
  kept : o.output = none → exit.1 = 0 ∧ exit.2.files = w.files
  /-- The output file holds the whole report with some time for each detector; no other file is
  touched. -/
  written : ∀ path, o.output = some path → w.writable path = true → exit.1 = 0 ∧
    ∃ elapsed : List Float, elapsed.length = report.runs.length ∧
      exit.2.files = Function.update w.files path (some (report.toJson elapsed).pretty.toUTF8)
  /-- What the output file holds tells the report: no other one is written in the same bytes,
  whatever the times. -/
  told : ∀ path, o.output = some path → w.writable path = true → report.Sized →
    ∀ (report' : Report) (elapsed' : List Float), report'.Sized →
      elapsed'.length = report'.runs.length →
        exit.2.files path = some (report'.toJson elapsed').pretty.toUTF8 → report.Alike report'
  unwritten : ∀ path, o.output = some path → w.writable path = false →
    exit.1 = 1 ∧ exit.2.files = w.files
  shown : ∃ times : Times, times.runs.length = report.runs.length ∧
    exit.2.shown = w.shown ++ linesText
      (sectionLines "Anomaly Detection" ++
        [loadedLine records times, runningStep ++ "done " ++ times.running] ++
        summaryLines report.summary ++ runLines (report.runs.zip times.runs) ++
        topLines o.top.toNat report.anomalies ++ patternLines report.patterns ++
        if exit.1 = 0 then writtenLines o ++ [""] else [])

section Steps

variable (o : Options) (w : World)

def filesOf : Files := ⟨w.text? o.data, o.config.bind w.text?⟩

theorem settings?_filesOf : o.settings? (filesOf o w) = (o.configured w).map o.asked := by
  rw [Options.settings?, Options.baseSettings?, Options.configured, filesOf]
  simp only [Options.withOrder_withSeed]
  cases o.config <;> rfl

theorem records?_filesOf : o.records? (filesOf o w) = o.loaded w := rfl

theorem runIn_eq : o.runIn w =
    (match o.prepare (filesOf o w) w.seed (o.loaded w) with
      | .error course => o.stop course (milliseconds (w.clock w.looks) (w.clock (w.looks + 1)))
      | .ok (records, engine) =>
        o.report records engine (milliseconds (w.clock w.looks) (w.clock (w.looks + 1))) :
      Simulation UInt32) (w.later 2) := by
  obtain ⟨data, config, output, seed, sequential, top⟩ := o
  cases config <;> rfl

variable {o w}

theorem endsEarly_stop {course : Course} {failure : Failure} (h : course.failure? = some failure)
    (loading : Float) :
    EndsEarly w failure ((o.stop course loading : Simulation UInt32) (w.later 2)) := by
  have hrun : (o.stop course loading : Simulation UInt32) (w.later 2) =
      (1, (((w.later 2).withShown
        (linesText (course.opening o ⟨elapsedText loading, "", []⟩))).withShown
          (course.broken?.getD "")).withError ("Error: " ++ failure.message w.words ++ "\n")) := by
    rw [Options.stop, Simulation.bind_apply, printLines_apply, h]
    rfl
  rw [hrun]
  exact ⟨rfl, rfl, rfl⟩

end Steps

theorem findingLines_eq (top : Nat) (findings : List Finding) :
    findingLines top findings = topLines top findings := by
  cases findings with
  | nil => rfl
  | cons f fs => simp [findingLines, topLines]

theorem opening_finished (o : Options) (records : List Record) (report : Report) (times : Times) :
    (Course.finished records report).opening o times =
      sectionLines "Anomaly Detection" ++
        [loadedLine records times, runningStep ++ "done " ++ times.running] ++
        summaryLines report.summary ++ runLines (report.runs.zip times.runs) ++
        topLines o.top.toNat report.anomalies ++ patternLines report.patterns := by
  simp only [Course.opening, reportLines, findingLines_eq, List.append_assoc]

theorem reports_save {o : Options} {w w' : World} {records : List Record} {report : Report}
    {elapsed : List Float} {times : Times} (hfiles : w'.files = w.files)
    (hwritable : w'.writable = w.writable)
    (hshown : w'.shown =
      w.shown ++ linesText ((Course.finished records report).opening o times))
    (hlen : elapsed.length = report.runs.length) (htimes : times.runs.length = report.runs.length) :
    Reports o w records report
      ((save o.output (report.toJson elapsed).pretty
        ((Course.finished records report).closing o) : Simulation UInt32) w') := by
  have hlast : ∀ last : List String, w'.shown ++ linesText last =
      w.shown ++ linesText ((Course.finished records report).opening o times ++ last) := by
    intro last
    rw [hshown, String.append_assoc, ← linesText_append]
  rw [opening_finished] at hlast
  cases houtput : o.output with
  | none =>
    rw [save_none]
    exact {
      kept := fun _ => ⟨rfl, hfiles⟩
      written := fun path hpath => by simp [houtput] at hpath
      told := fun path hpath => by simp [houtput] at hpath
      unwritten := fun path hpath => by simp [houtput] at hpath
      shown := ⟨times, htimes, hlast _⟩ }
  | some path =>
    -- the file asked for is this one
    have hone : ∀ path', o.output = some path' → path' = path := fun path' hpath' =>
      Option.some.inj (hpath'.symm.trans houtput)
    cases hpath : w.writable path with
    | true =>
      rw [save_of_writable (hwritable ▸ hpath)]
      refine {
        kept := fun hnone => by simp [houtput] at hnone
        written := ?_
        told := ?_
        unwritten := ?_
        shown := ⟨times, htimes, hlast _⟩ }
      · intro path' hpath' _
        rw [hone path' hpath']
        exact ⟨rfl, elapsed, hlen, congrArg (Function.update · path _) hfiles⟩
      · intro path' hpath' _ hsized report' elapsed' hsized' hlen' htext
        rw [hone path' hpath'] at htext
        have hsame := Option.some.inj ((Function.update_self path _ w'.files).symm.trans htext)
        exact Report.alike_of_pretty_eq hsized hsized' hlen hlen' (String.toByteArray_inj.1 hsame)
      · intro path' hpath' hnot
        simp [hone path' hpath', hpath] at hnot
    | false =>
      rw [save_of_not_writable (hwritable ▸ hpath)]
      exact {
        kept := fun hnone => by simp [houtput] at hnone
        written := fun path' hpath' hyes => by simp [hone path' hpath', hpath] at hyes
        told := fun path' hpath' hyes => by simp [hone path' hpath', hpath] at hyes
        unwritten := fun _ _ _ => ⟨rfl, hfiles⟩
        shown := ⟨times, htimes, String.append_empty.symm.trans (hlast [])⟩ }

theorem reports_report (o : Options) (w : World) (looks : Nat) (records : List Record) (e : Engine)
    (loading : Float) :
    Reports o w records (e.run records)
      ((o.report records e loading : Simulation UInt32) (w.later looks)) := by
  obtain ⟨elapsed, times, more, hlen, htimes, hrun⟩ :=
    exists_report o records e loading (w.later looks)
  have hruns : (e.run records).runs.length = e.detectors.length := by
    rw [Engine.runs_run, List.length_map]
  rw [hrun]
  exact reports_save rfl rfl rfl (hlen.trans hruns.symm) (htimes.trans hruns.symm)

section Courses

variable {o : Options} {w : World}

theorem isSome_failure?_of_prepare {files : Files} {entropy : UInt64}
    {loaded : Except Batch.Failure (List Record)} {course : Course}
    (h : o.prepare files entropy loaded = .error course) : course.failure?.isSome := by
  unfold Options.prepare at h
  split at h
  · exact Except.error.inj h ▸ rfl
  · split at h
    · exact Except.error.inj h ▸ rfl
    · split at h
      · exact Except.error.inj h ▸ rfl
      · cases h

theorem endsEarly_runIn {failure : Failure}
    (h : (o.course (filesOf o w) w.seed).failure? = some failure) :
    EndsEarly w failure (o.runIn w) := by
  rw [Options.course, records?_filesOf] at h
  rw [runIn_eq]
  cases hprepare : o.prepare (filesOf o w) w.seed (o.loaded w) with
  | error course =>
    rw [hprepare] at h
    exact endsEarly_stop h _
  | ok started =>
    rw [hprepare] at h
    cases h

theorem reports_runIn {records : List Record} {report : Report}
    (h : o.course (filesOf o w) w.seed = .finished records report) :
    Reports o w records report (o.runIn w) := by
  rw [Options.course, records?_filesOf] at h
  rw [runIn_eq]
  cases hprepare : o.prepare (filesOf o w) w.seed (o.loaded w) with
  | error course =>
    rw [hprepare] at h
    have hcourse : course = .finished records report := h
    have hsome := isSome_failure?_of_prepare hprepare
    rw [hcourse] at hsome
    cases hsome
  | ok started =>
    obtain ⟨records', engine⟩ := started
    rw [hprepare] at h
    obtain ⟨rfl, rfl⟩ := Course.finished.inj h
    exact reports_report o w 2 _ engine _

end Courses

/-- What a run does for each way in which its steps can go. -/
structure RunsInOrder (o : Options) (w : World) : Prop where
  not_loaded : ∀ failure, o.loaded w = .error failure →
    EndsEarly w (.records o.data failure) (o.runIn w)
  not_configured : ∀ records failure, o.loaded w = .ok records →
    o.configured w = .error failure → EndsEarly w failure (o.runIn w)
  not_started : ∀ records c fault, o.loaded w = .ok records → o.configured w = .ok c →
    Engine.ofSettings? (o.asked c) w.seed = .error fault →
    EndsEarly w (.engine fault) (o.runIn w)
  reports : ∀ records c e, o.loaded w = .ok records → o.configured w = .ok c →
    Engine.ofSettings? (o.asked c) w.seed = .ok e →
    Reports o w records (e.run records) (o.runIn w)
  /-- The report is the same for all options, files and seeds that come to the same records,
  settings and seed in effect: whatever is shown of it, wherever it is written, in sequence or side
  by side. -/
  same_report : ∀ records c e, o.loaded w = .ok records → o.configured w = .ok c →
    Engine.ofSettings? (o.asked c) w.seed = .ok e →
    ∀ (o' : Options) (w' : World), o'.loaded w' = .ok records → o'.configured w' = .ok c →
      o'.effectiveSeed c w'.seed = o.effectiveSeed c w.seed →
      Reports o' w' records (e.run records) (o'.runIn w')
  same_report_flags : ∀ records c e, o.loaded w = .ok records → o.configured w = .ok c →
    Engine.ofSettings? (o.asked c) w.seed = .ok e →
    ∀ top sequential, Reports { o with top, sequential } w records (e.run records)
      (Options.runIn { o with top, sequential } w)
  /-- Where six findings for each record can be counted, so can all that a report counts; so what
  the output file holds tells the report. -/
  sized : ∀ records c e, Engine.ofSettings? (o.asked c) w.seed = .ok e →
    6 * records.length < UInt64.size → (e.run records).Sized
  /-- Settings that are accepted stay so under any seed, so that an engine can be built. -/
  accepted : ∀ c : Ensemble.Settings, c.check = .ok () → ∀ seed, (c.withSeed seed).check = .ok ()
  started : ∀ c, o.configured w = .ok c → ∃ e, Engine.ofSettings? (o.asked c) w.seed = .ok e

section Runs

variable {o : Options} {w : World} {records : List Record} {c : Ensemble.Settings}

theorem check_of_configured (h : o.configured w = .ok c) : c.check = .ok () := by
  rw [Options.configured] at h
  split at h
  · obtain rfl := Except.ok.inj h
    exact Ensemble.check_default
  · rename_i path _
    cases htext : w.text? path with
    | none =>
      rw [htext] at h
      cases h
    | some text =>
      rw [htext, Ensemble.Settings.ofFileContent?] at h
      cases hread : Ensemble.Settings.read? text with
      | error failure =>
        rw [hread] at h
        cases h
      | ok d =>
        rw [hread] at h
        exact Except.ok.inj h ▸ Ensemble.Settings.check_of_read? hread

theorem ofSettings?_asked (h : o.configured w = .ok c) (entropy : UInt64) :
    Engine.ofSettings? (o.asked c) entropy = .ok ⟨o.asked c, (o.asked c).detectors entropy⟩ :=
  Engine.ofSettings?_of_check ((o.check_asked c).trans (check_of_configured h)) entropy

theorem course_of_configured (hloaded : o.loaded w = .ok records)
    (hconfigured : o.configured w = .ok c) :
    o.course (filesOf o w) w.seed =
      .finished records (Engine.run ⟨o.asked c, (o.asked c).detectors w.seed⟩ records) := by
  simp only [Options.course, Options.prepare, records?_filesOf, hloaded, settings?_filesOf,
    hconfigured, Except.map, ofSettings?_asked hconfigured]

end Runs

/-- Settings without neighbors are refused, and no report is made; without them there is one. -/
example :
    let w : World :=
      { files := fun path =>
          if path = "data.json" then some "[]".toUTF8
          else if path = "settings.json" then some "\x7b\"lof\": \x7b\"k\": 0\x7d\x7d".toUTF8
          else none
        writable := fun _ => true
        clock := id
        seed := 0
        words := fun _ => "" }
    let o : Options := { data := "data.json", output := some "report.json" }
    let refused := Options.runIn { o with config := some "settings.json" } w
    refused.1 = 1 ∧ refused.2.files "report.json" = none ∧
      refused.2.errors = "Error: Invalid parameter: lof.k = 0, must be at least 1\n" ∧
      (o.runIn w).1 = 0 ∧ ((o.runIn w).2.files "report.json").isSome := by
  decide +kernel

end LedgerWatch.Command
