import Mathlib.Logic.Function.Basic
import LedgerWatch.Command.Host

/-!
A world for the commands to run in: files by their paths, a clock that may show anything, a seed,
and what has been shown. A program that runs in it is a function from worlds to worlds, so what it
changes and what it leaves alone can be stated. Actions side by side run one after another here;
since each of them asks for nothing but the time, any other order is that of another clock.
-/

namespace LedgerWatch.Command

structure World where
  files : String → Option ByteArray
  /-- Whether a file can be made or replaced. -/
  writable : String → Bool
  /-- What the clock shows each time it is looked at. -/
  clock : Nat → Nat
  /-- How often it has been looked at. -/
  looks : Nat := 0
  seed : UInt64
  words : Words
  shown : String := ""
  errors : String := ""

def linesText : List String → String
  | [] => ""
  | line :: lines => line ++ "\n" ++ linesText lines

namespace World

def text? (w : World) (path : String) : Option String := (w.files path).bind String.fromUTF8?

def put (w : World) (path text : String) : World :=
  { w with files := Function.update w.files path (some text.toUTF8) }

def later (w : World) (looks : Nat) : World := { w with looks := w.looks + looks }

def withShown (w : World) (text : String) : World := { w with shown := w.shown ++ text }

def withError (w : World) (text : String) : World := { w with errors := w.errors ++ text }

end World

/-- A program that runs in a world. -/
def Simulation (α : Type) : Type := World → α × World

namespace Simulation

instance : Monad Simulation where
  pure a w := (a, w)
  bind x f w := f (x w).1 (x w).2

instance : LawfulMonad Simulation :=
  LawfulMonad.mk' _ (fun _ => rfl) (fun _ _ => rfl) (fun _ _ _ => rfl)

instance : Host Simulation where
  read? path w := (w.text? path, w)
  write path text w := if w.writable path then (true, w.put path text) else (false, w)
  print text w := ((), w.withShown text)
  complain text w := ((), w.withError text)
  words w := (w.words, w)
  now w := (w.clock w.looks, w.later 1)
  freshSeed w := (w.seed, w)
  workOut make w := (make (), w)
  sideBySide actions := actions.mapM id

theorem bind_apply {α β : Type} (x : Simulation α) (f : α → Simulation β) (w : World) :
    (x >>= f) w = f (x w).1 (x w).2 := rfl

end Simulation

def Options.runIn (o : Options) (w : World) : UInt32 × World := (o.run : Simulation UInt32) w

theorem now_apply (w : World) :
    (Host.now : Simulation Nat) w = (w.clock w.looks, w.later 1) := rfl

theorem write_apply (path text : String) (w : World) :
    (Host.write path text : Simulation Bool) w =
      if w.writable path then (true, w.put path text) else (false, w) := rfl

theorem timed_apply {α : Type} (make : Unit → α) (w : World) :
    (timed make : Simulation (α × Float)) w =
      ((make (), milliseconds (w.clock w.looks) (w.clock (w.looks + 1))), w.later 2) := rfl

theorem linesText_append (lines lines' : List String) :
    linesText (lines ++ lines') = linesText lines ++ linesText lines' := by
  induction lines with
  | nil => simp [linesText]
  | cons line lines ih => simp only [List.cons_append, linesText, ih, String.append_assoc]

theorem printLines_apply (lines : List String) (w : World) :
    (printLines lines : Simulation Unit) w = ((), w.withShown (linesText lines)) := by
  induction lines generalizing w with
  | nil => simp [printLines, linesText, World.withShown, pure]
  | cons line lines ih =>
    have hstep : (printLines (line :: lines) : Simulation Unit) w =
        (printLines lines : Simulation Unit) (w.withShown (line ++ "\n")) := rfl
    rw [hstep, ih]
    simp only [World.withShown, linesText, String.append_assoc]

/-- Actions that take time and change nothing give their results, each with some time. -/
theorem exists_mapM_timed {α β : Type} (make : α → β) (xs : List α) (w : World) :
    ∃ (elapsed : List Float) (looks : Nat), elapsed.length = xs.length ∧
      (xs.map fun x => (timed fun _ => make x : Simulation (β × Float))).mapM id w =
        ((xs.map make).zip elapsed, w.later looks) := by
  induction xs generalizing w with
  | nil => exact ⟨[], 0, rfl, rfl⟩
  | cons x xs ih =>
    obtain ⟨elapsed, looks, hlen, hrun⟩ := ih (w.later 2)
    refine ⟨milliseconds (w.clock w.looks) (w.clock (w.looks + 1)) :: elapsed, 2 + looks,
      congrArg (· + 1) hlen, ?_⟩
    rw [List.map_cons, List.mapM_cons, id, Simulation.bind_apply, timed_apply,
      Simulation.bind_apply, hrun]
    simp only [World.later, Nat.add_assoc]
    rfl

theorem exists_timedContributions (e : Ensemble.Engine) (records : List Record) (w : World) :
    ∃ (elapsed : List Float) (looks : Nat), elapsed.length = e.detectors.length ∧
      (timedContributions e records : Simulation _) w =
        ((e.detectors.map fun d => Ensemble.contribution d records).zip elapsed,
          w.later looks) := by
  obtain ⟨elapsed, looks, hlen, hrun⟩ :=
    exists_mapM_timed (fun d => Ensemble.contribution d records) e.detectors w
  refine ⟨elapsed, looks, hlen, ?_⟩
  rw [← hrun, timedContributions]
  split <;> rfl

section Save

variable {w : World} {path : String}

theorem save_none (text : String) (lines : List String) (w : World) :
    (save none text lines : Simulation UInt32) w = (0, w.withShown (linesText lines)) :=
  congrArg (fun r => ((0 : UInt32), r.2)) (printLines_apply lines w)

theorem save_of_writable (hpath : w.writable path = true) (text : String) (lines : List String) :
    (save (some path) text lines : Simulation UInt32) w =
      (0, (w.put path text).withShown (linesText lines)) := by
  have hwrite : (Host.write path text : Simulation Bool) w = (true, w.put path text) :=
    (write_apply path text w).trans (if_pos hpath)
  rw [save, Simulation.bind_apply, hwrite]
  exact save_none text lines (w.put path text)

theorem save_of_not_writable (hpath : w.writable path = false) (text : String)
    (lines : List String) :
    (save (some path) text lines : Simulation UInt32) w =
      (1, w.withError ("Error: " ++ w.words (.unwritable path) ++ "\n")) := by
  have hwrite : (Host.write path text : Simulation Bool) w = (false, w) :=
    (write_apply path text w).trans (if_neg (hpath ▸ Bool.false_ne_true))
  rw [save, Simulation.bind_apply, hwrite]
  rfl

end Save

/-- An engine's report is shown before it is written. -/
theorem exists_report (o : Options) (records : List Record) (e : Ensemble.Engine)
    (loading : Float) (w : World) :
    ∃ (elapsed : List Float) (times : Times) (looks : Nat),
      elapsed.length = e.detectors.length ∧ times.runs.length = e.detectors.length ∧
      (o.report records e loading : Simulation UInt32) w =
        (save o.output ((e.run records).toJson elapsed).pretty
            (Course.closing o (.finished records (e.run records))) : Simulation UInt32)
          ((w.later looks).withShown
            (linesText ((Course.finished records (e.run records)).opening o times))) := by
  obtain ⟨elapsed, looks, hlen, hrun⟩ := exists_timedContributions e records (w.later 1)
  have hreport : Ensemble.assemble e.settings records
      (e.detectors.map fun d => Ensemble.contribution d records) = e.run records := by
    rw [Ensemble.Engine.run, Ensemble.contributions_eq]
  have hfst : ((e.detectors.map fun d => Ensemble.contribution d records).zip elapsed).map
      Prod.fst = e.detectors.map fun d => Ensemble.contribution d records :=
    List.map_fst_zip (Nat.le_of_eq ((List.length_map _).trans hlen.symm))
  have hsnd : ((e.detectors.map fun d => Ensemble.contribution d records).zip elapsed).map
      Prod.snd = elapsed :=
    List.map_snd_zip (Nat.le_of_eq (hlen.trans (List.length_map _).symm))
  refine ⟨elapsed, ⟨elapsedText loading,
    elapsedText (milliseconds (w.clock w.looks) (w.clock (w.looks + 1 + looks))),
    elapsed.map fun time => Text.padStart 10 (elapsedText time)⟩, 1 + looks + 1, hlen,
    (List.length_map _).trans hlen, ?_⟩
  rw [Options.report, Simulation.bind_apply, now_apply, Simulation.bind_apply, hrun,
    Simulation.bind_apply, now_apply]
  dsimp only
  rw [hfst, hsnd, hreport, Simulation.bind_apply, printLines_apply]
  simp only [World.later, Nat.add_assoc]

end LedgerWatch.Command
