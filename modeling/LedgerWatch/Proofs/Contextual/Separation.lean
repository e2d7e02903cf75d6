import LedgerWatch.Proofs.Contextual.Verdicts

namespace LedgerWatch.Contextual

def keyAt? (grouping : Grouping) (records : List Record) (i : Nat) : Option String :=
  (records[i]?).bind (key? grouping)

def readingAt? (field : String) (records : List Record) (i : Nat) : Option Float :=
  (records[i]?).bind fun r => r.numeric? field

/-- Two batches in which the group of record `i` is the same: it has the same key and the same
members, and the members have the same values in the fields that are watched. -/
structure SameGroup (records records' : List Record) (i : Nat) (grouping : Grouping) : Prop where
  key_eq : keyAt? grouping records i = keyAt? grouping records' i
  members_iff : ∀ key ∈ keyAt? grouping records i, ∀ j < records.length,
    keyAt? grouping records j = some key ↔ keyAt? grouping records' j = some key
  readings_eq : ∀ key ∈ keyAt? grouping records i, ∀ j < records.length,
    keyAt? grouping records j = some key → ∀ field ∈ fields grouping,
      readingAt? field records j = readingAt? field records' j

instance (records records' : List Record) (i : Nat) (grouping : Grouping) :
    Decidable (SameGroup records records' i grouping) :=
  decidable_of_iff
    (keyAt? grouping records i = keyAt? grouping records' i ∧
      (∀ key ∈ keyAt? grouping records i, ∀ j < records.length,
        keyAt? grouping records j = some key ↔ keyAt? grouping records' j = some key) ∧
      ∀ key ∈ keyAt? grouping records i, ∀ j < records.length,
        keyAt? grouping records j = some key → ∀ field ∈ fields grouping,
          readingAt? field records j = readingAt? field records' j)
    ⟨fun ⟨hkey, hmembers, hreadings⟩ => ⟨hkey, hmembers, hreadings⟩,
      fun ⟨hkey, hmembers, hreadings⟩ => ⟨hkey, hmembers, hreadings⟩⟩

theorem values_eq_reduceOption (grouping : Grouping) (key field : String) (records : List Record) :
    values grouping key field records = (records.map fun r =>
      if key? grouping r = some key then r.numeric? field else none).reduceOption := by
  rw [values, List.filterMap_filter, List.reduceOption, List.filterMap_map]
  simp

namespace SameGroup

variable {c : Settings} {bands : Bands} {records records' : List Record} {i j : Nat}
  {grouping : Grouping} {key field : String} (hlen : records.length = records'.length)
  (h : SameGroup records records' i grouping)

section Members

variable (hkey : keyAt? grouping records i = some key)
include h hkey

theorem member_iff (hj : j < records.length) (hj' : j < records'.length) :
    key? grouping records[j] = some key ↔ key? grouping records'[j] = some key := by
  have hiff := h.members_iff key hkey j hj
  rwa [keyAt?, keyAt?, List.getElem?_eq_getElem hj, List.getElem?_eq_getElem hj'] at hiff

theorem reading_eq (hj : j < records.length) (hj' : j < records'.length)
    (hmember : key? grouping records[j] = some key) (hfield : field ∈ fields grouping) :
    records[j].numeric? field = records'[j].numeric? field := by
  have hread := h.readings_eq key hkey j hj
  simp only [keyAt?, readingAt?, List.getElem?_eq_getElem hj, List.getElem?_eq_getElem hj',
    Option.bind_some] at hread
  exact hread hmember field hfield

include hlen

theorem map_reading (hfield : field ∈ fields grouping) :
    (records.map fun r => if key? grouping r = some key then r.numeric? field else none) =
      records'.map fun r => if key? grouping r = some key then r.numeric? field else none := by
  refine Lists.map_eq_map hlen ?_
  intro j hj hj'
  simp only [← h.member_iff hkey hj hj']
  split
  · exact h.reading_eq hkey hj hj' ‹_› hfield
  · rfl

theorem values_take_eq (hfield : field ∈ fields grouping) (n : Nat) :
    values grouping key field (records.take n) = values grouping key field (records'.take n) := by
  rw [values_eq_reduceOption, values_eq_reduceOption, List.map_take, List.map_take,
    h.map_reading hlen hkey hfield]

theorem values_eq (hfield : field ∈ fields grouping) :
    values grouping key field records = values grouping key field records' := by
  rw [values_eq_reduceOption, values_eq_reduceOption, h.map_reading hlen hkey hfield]

theorem countP_eq : (records.countP fun r => key? grouping r = some key) =
    records'.countP fun r => key? grouping r = some key := by
  have hmembers : (records.map fun r => decide (key? grouping r = some key)) =
      records'.map fun r => decide (key? grouping r = some key) := by
    refine Lists.map_eq_map hlen ?_
    intro j hj hj'
    rw [decide_eq_decide]
    exact h.member_iff hkey hj hj'
  have hcount := congrArg (List.countP id) hmembers
  rwa [List.countP_map, List.countP_map] at hcount

theorem standsOut?_eq (hfield : field ∈ fields grouping) :
    c.standsOut? records grouping key i field = c.standsOut? records' grouping key i field := by
  have hread : readingAt? field records i = readingAt? field records' i := by
    obtain ⟨r, hr, -⟩ := Option.bind_eq_some_iff.1 hkey
    exact h.readings_eq key hkey i (List.getElem?_eq_some_iff.1 hr).1 hkey field hfield
  simp only [Settings.standsOut?, Option.bind_eq_bind, ← Option.bind_assoc]
  rw [← readingAt?, ← readingAt?, hread, h.values_eq hlen hkey hfield,
    h.values_take_eq hlen hkey hfield]

end Members

include hlen h

/-- Where a record's group is the same, so is what is found for the record there. -/
theorem findingIn?_eq : c.findingIn? bands records i grouping =
    c.findingIn? bands records' i grouping := by
  simp only [Settings.findingIn?, Option.bind_eq_bind, ← Option.bind_assoc]
  rw [← keyAt?, ← keyAt?, ← h.key_eq]
  cases hkey : keyAt? grouping records i with
  | none => rw [Option.bind_none, Option.bind_none]
  | some key =>
    have houtstanding : c.outstanding records grouping key i =
        c.outstanding records' grouping key i :=
      List.filterMap_congr fun field hfield => h.standsOut?_eq hlen hkey hfield
    simp only [Option.bind_some, houtstanding, h.countP_eq hlen hkey]

end SameGroup

/-- A record in the same groups, with the same values in their members, is found alike in two
batches of one length, or in neither, whatever the other records are. -/
theorem detect_of_same_groups {c : Settings} (hc : c.check = .ok ()) (bands : Bands)
    {records records' : List Record} (hlen : records.length = records'.length) {i : Nat}
    (h : ∀ grouping, SameGroup records records' i grouping) :
    ∃ fs fs', c.detect bands records = .found fs ∧ c.detect bands records' = .found fs' ∧
      (fs.filter fun f => f.record = i) = fs'.filter fun f => f.record = i := by
  refine ⟨_, _, detect_eq hc bands records, detect_eq hc bands records', ?_⟩
  have hfor : c.findingFor? bands records i = c.findingFor? bands records' i :=
    congrArg Grouping.all.findSome? (funext fun grouping => (h grouping).findingIn?_eq hlen)
  calc _ = (c.findingFor? bands records i).toList := about_groupings i
    _ = (c.findingFor? bands records' i).toList := by rw [hfor]
    _ = _ := (about_groupings i).symm

/-- A record stands out in its category in two batches. Another record of its state, where fraud
scores are not watched, has another fraud score, and a record outside its groups goes elsewhere. -/
theorem detect_of_same_groups_food :
    let record (fields : List (String × String)) : Record :=
      ⟨fields.map fun p => (p.1, .string p.2)⟩
    let food (amount fraudScore : String) : Record :=
      record [("merchant_category", "food"), ("merchant_state", "CA"),
        ("transaction_type", "online"), ("amount", amount), ("fraud_score", fraudScore)]
    let batch (fraudScore : String) (outside : Record) : List Record :=
      [food "10" "0.1", food "12" "0.2", food "11" "", food "100" "0.9",
        record [("merchant_state", "CA"), ("amount", "10"), ("fraud_score", fraudScore)], outside]
    let c : Settings := {}
    let records := batch "0.3" (record [("merchant_category", "toys"), ("amount", "900")])
    let records' := batch "0.8" (record [("merchant_state", "NV"), ("amount", "1")])
    c.check = .ok () ∧ records.length = records'.length ∧
      (∀ grouping, SameGroup records records' 3 grouping) ∧
      (c.findingFor? {} records 3).isSome ∧
      ∃ fs fs', c.detect {} records = .found fs ∧ c.detect {} records' = .found fs' ∧
        (fs.filter fun f => f.record = 3) = fs'.filter fun f => f.record = 3 := by
  intro record food batch c records records'
  have hcheck : c.check = .ok () := by decide +kernel
  have hlen : records.length = records'.length := rfl
  have hsame : ∀ grouping, SameGroup records records' 3 grouping := by
    intro grouping
    cases grouping <;> decide +kernel
  exact ⟨hcheck, hlen, hsame, by decide +kernel, detect_of_same_groups hcheck {} hlen hsame⟩

end LedgerWatch.Contextual
