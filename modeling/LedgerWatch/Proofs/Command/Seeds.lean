import LedgerWatch.Command.Detect
import LedgerWatch.Proofs.Ensemble.Verdicts

namespace LedgerWatch

theorem Isolation.detector_seed (c : Isolation.Settings) (scaling : Scaling) (bands : Bands)
    (seed : Option UInt64) (entropy : UInt64) :
    Isolation.detector { c with seed } scaling bands entropy =
      Isolation.detector { c with seed := none } scaling bands (seed.getD entropy) := rfl

namespace Ensemble.Settings

theorem check_withSeed (c : Settings) (seed : UInt64) : (c.withSeed seed).check = c.check := rfl

theorem check_of_read? {text : String} {c : Settings} (h : read? text = .ok c) :
    c.check = .ok () := by
  rw [read?] at h
  split at h
  · cases h
  · obtain ⟨hcheck, rfl⟩ := accepted?_eq_ok_iff.1 h
    exact hcheck

end Ensemble.Settings

namespace Command.Options

def asked (o : Options) (c : Ensemble.Settings) : Ensemble.Settings :=
  { c with
    isolation := { c.isolation with seed := o.seed.or c.isolation.seed }
    parallel := c.parallel && !o.sequential }

/-- The seed in effect: that of the options, else that of the settings, else one from outside. -/
def effectiveSeed (o : Options) (c : Ensemble.Settings) (entropy : UInt64) : UInt64 :=
  (o.seed.or c.isolation.seed).getD entropy

theorem withOrder_withSeed (o : Options) (c : Ensemble.Settings) :
    o.withOrder (o.withSeed c) = o.asked c := by
  obtain ⟨data, config, output, seed, sequential, top⟩ := o
  cases seed <;> cases sequential <;>
    simp [withOrder, withSeed, asked, Ensemble.Settings.withSeed]

theorem check_asked (o : Options) (c : Ensemble.Settings) : (o.asked c).check = c.check := rfl

theorem detectors_asked (o : Options) (c : Ensemble.Settings) (entropy : UInt64) :
    (o.asked c).detectors entropy =
      Ensemble.Settings.detectors { c with isolation := { c.isolation with seed := none } }
        (o.effectiveSeed c entropy) := by
  simp only [Ensemble.Settings.detectors, asked]
  rw [Isolation.detector_seed]
  rfl

theorem run_asked {o o' : Options} {c : Ensemble.Settings} {entropy entropy' : UInt64}
    (h : o.effectiveSeed c entropy = o'.effectiveSeed c entropy') (records : List Record) :
    Ensemble.Engine.run ⟨o.asked c, (o.asked c).detectors entropy⟩ records =
      Ensemble.Engine.run ⟨o'.asked c, (o'.asked c).detectors entropy'⟩ records := by
  rw [Ensemble.Engine.run_eq, Ensemble.Engine.run_eq, detectors_asked, detectors_asked, h]
  rfl

end Command.Options

end LedgerWatch
