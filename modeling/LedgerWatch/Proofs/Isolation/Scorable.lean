import LedgerWatch.Isolation.Forest
import LedgerWatch.Proofs.Presence

namespace LedgerWatch

def Record.hasFeature (r : Record) : Bool := Feature.all.any fun f => (r.feature? f).isSome

namespace Isolation

def hasValue (row : List Float) : Bool := row.any fun x => !x.isNaN

theorem length_scorable (t : Table) : (scorable t).length = t.rows.toList.countP hasValue := by
  have hrows : (List.range t.height).map t.row = t.rows.toList := by
    apply List.ext_getElem
    · simp [Table.height]
    · intro i _ hi
      have hi' : i < t.rows.size := by simpa using hi
      simp [Table.row, hi']
  rw [scorable, ← List.countP_eq_length_filter, ← hrows, List.countP_map]
  rfl

theorem map_hasValue_scaledFeatures (records : List Record) (scaling : Scaling) :
    (scaledFeatures records scaling).rows.toList.map hasValue =
      records.map Record.hasFeature := by
  have hpresence := congrArg (List.map (List.any · id)) (presence_scaledFeatures records scaling)
  rw [List.map_map, List.map_map] at hpresence
  have hvalue : (List.any · id) ∘ Stats.presence = hasValue := by
    funext row
    simp [Stats.presence, hasValue]
  rw [hvalue] at hpresence
  exact hpresence

theorem length_scorable_scaledFeatures (records : List Record) (scaling : Scaling) :
    (scorable (scaledFeatures records scaling)).length = records.countP Record.hasFeature := by
  have hvalues := congrArg (List.countP id) (map_hasValue_scaledFeatures records scaling)
  rw [List.countP_map, List.countP_map] at hvalues
  rw [length_scorable]
  exact hvalues

/-- Whether a batch makes a forest grow, and no list holds its trees. -/
def Settings.Overloaded (c : Settings) (records : List Record) : Prop :=
  c.OverCapacity ∧ 2 ≤ records.countP Record.hasFeature

instance (c : Settings) (records : List Record) : Decidable (c.Overloaded records) :=
  inferInstanceAs (Decidable (_ ∧ _))

end Isolation

end LedgerWatch
