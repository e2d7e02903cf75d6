import LedgerWatch.Proofs.Contextual.Findings
import LedgerWatch.Proofs.Finding.About
import LedgerWatch.Proofs.Scores.Basic
import LedgerWatch.Proofs.Stats.PeerLists

namespace LedgerWatch.Contextual

open Ranking (about)
open Binary64

/-- The readable values of a field in a group, in record order. -/
def values (grouping : Grouping) (key field : String) (records : List Record) : List Float :=
  (records.filter fun r => key? grouping r = some key).filterMap fun r => r.numeric? field

namespace Settings

variable (c : Settings) (bands : Bands) (records : List Record)

/-- A value is judged against the others of its group, where it stands behind those of the records
before its own. -/
def standsOut? (grouping : Grouping) (key : String) (i : Nat) (field : String) :
    Option FieldScore := do
  let r ← records[i]?
  let value ← r.numeric? field
  let peers ← Stats.PeerStats.ofValues? (values grouping key field records)
  let baseline ← peers.baselineAt? (values grouping key field (records.take i)).length
  let z ← baseline.zScore? value
  if c.zThreshold < z.abs then some ⟨field, value, z, baseline.range c.rangeWidth⟩ else none

def outstanding (grouping : Grouping) (key : String) (i : Nat) : List FieldScore :=
  (fields grouping).filterMap (c.standsOut? records grouping key i)

def findingIn? (i : Nat) (grouping : Grouping) : Option Finding := do
  let r ← records[i]?
  let key ← key? grouping r
  let scores := c.outstanding records grouping key i
  if scores.isEmpty then none
  else
    let size := records.countP fun r => key? grouping r = some key
    some (.of bands .contextual i (largest scores / c.scoreScale)
      (.contextual grouping key size scores))

/-- What is found for a record: what the first grouping says that has a say. -/
def findingFor? (i : Nat) : Option Finding :=
  Grouping.all.findSome? (c.findingIn? bands records i)

end Settings

section Groups

variable {c : Settings} {bands : Bands} {grouping : Grouping} {key field : String}
  {records : List Record} {i : Nat} {r : Record}

def members (grouping : Grouping) (key : String) (records : List Record) : List Member :=
  records.zipIdx.filter fun m => key? grouping m.1 = some key

theorem length_members (grouping : Grouping) (key : String) (records : List Record) :
    (members grouping key records).length = records.countP fun r => key? grouping r = some key := by
  conv_rhs => rw [← List.zipIdx_map_fst 0 records, List.countP_map]
  exact List.countP_eq_length_filter.symm

theorem map_snd_readings (grouping : Grouping) (key field : String) (records : List Record) :
    (readings field (members grouping key records)).map Prod.snd =
      values grouping key field records := by
  conv_rhs => rw [values, ← List.zipIdx_map_fst 0 records, List.filter_map, List.filterMap_map]
  rw [readings, List.map_filterMap]
  congr 1
  funext m
  rw [Option.map_map, Function.comp_apply]
  exact congrFun Option.map_id (m.1.numeric? field)

theorem length_readings (grouping : Grouping) (key field : String) (records : List Record) :
    (readings field (members grouping key records)).length =
      (values grouping key field records).length := by
  rw [← map_snd_readings, List.length_map]

theorem nodup_positions (records : List Record) : (records.zipIdx.map Prod.snd).Nodup := by
  rw [List.zipIdx_map_snd]
  exact List.nodup_range'

theorem nodup_map_fst_readings (grouping : Grouping) (key field : String) (records : List Record) :
    ((readings field (members grouping key records)).map Prod.fst).Nodup := by
  have hmembers : ((members grouping key records).map Prod.snd).Nodup :=
    (nodup_positions records).sublist (List.filter_sublist.map Prod.snd)
  refine hmembers.sublist (Lists.map_filterMap_sublist ?_ _)
  intro m p hp
  obtain ⟨x, -, rfl⟩ := Option.map_eq_some_iff.1 hp
  rfl

/-- A reading stands behind those of the records before its own. -/
theorem getElem?_readings (hr : records[i]? = some r) (hkey : key? grouping r = some key)
    {value : Float} (hvalue : r.numeric? field = some value) :
    (readings field (members grouping key records))[
      (values grouping key field (records.take i)).length]? = some (i, value) := by
  have hmember : records.zipIdx[i]? = some (r, i) := by
    rw [List.getElem?_zipIdx, hr, Option.map_some, Nat.zero_add]
  have hplace := Lists.getElem?_filterMap (y := (i, value)) hmember
    (f := fun m => if key? grouping m.1 = some key then
      (m.1.numeric? field).map fun x => (m.2, x) else none) (by simp [hkey, hvalue])
  rw [← length_readings, readings, members, readings, members, ← Lists.take_zipIdx,
    List.filterMap_filter, List.filterMap_filter]
  simpa using hplace

theorem getElem?_of_mem_readings {p : Nat × Float}
    (hp : p ∈ readings field (members grouping key records)) :
    ∃ r, records[p.1]? = some r ∧ r.numeric? field = some p.2 := by
  obtain ⟨m, hm, hread⟩ := List.mem_filterMap.1 hp
  obtain ⟨x, hx, rfl⟩ := Option.map_eq_some_iff.1 hread
  exact ⟨m.1, List.mem_zipIdx_iff_getElem?.1 (List.mem_of_mem_filter hm), hx⟩

theorem ne_of_mem_fieldScores (hr : records[i]? = some r) (hvalue : r.numeric? field = none)
    {p : Nat × FieldScore} (hp : p ∈ c.fieldScores (members grouping key records) field) :
    p.1 ≠ i := by
  simp only [Settings.fieldScores] at hp
  split at hp
  · cases hp
  · obtain ⟨v, hv, hscore⟩ := List.mem_filterMap.1 hp
    obtain ⟨s, -, rfl⟩ := Option.map_eq_some_iff.1 hscore
    obtain ⟨r', hr', hread⟩ := getElem?_of_mem_readings (List.of_mem_zip hv).1
    rintro rfl
    rw [hr, Option.some.injEq] at hr'
    rw [← hr', hvalue] at hread
    cases hread

/-- What a group says of a field of a record: the record's value is judged where it stands. -/
theorem filter_fieldScores (hr : records[i]? = some r) (hkey : key? grouping r = some key) :
    ((c.fieldScores (members grouping key records) field).filter fun p => p.1 == i).map Prod.snd =
      (c.standsOut? records grouping key i field).toList := by
  cases hvalue : r.numeric? field with
  | none =>
    rw [List.filter_eq_nil_iff.2 fun p hp hi => ne_of_mem_fieldScores hr hvalue hp (eq_of_beq hi)]
    simp [Settings.standsOut?, hr, hvalue]
  | some value =>
    simp only [Settings.fieldScores, map_snd_readings, Settings.standsOut?, hr, hvalue,
      Option.bind_eq_bind, Option.bind_some]
    cases hpeers : Stats.PeerStats.ofValues? (values grouping key field records) with
    | none => rfl
    | some peers =>
      have hlen : (readings field (members grouping key records)).length =
          peers.baselines.length := by
        rw [Stats.PeerStats.length_baselines_of_ofValues? hpeers, length_readings]
      have hmark : ∀ (v : (Nat × Float) × Option (Stats.Summary Float)) (p : Nat × FieldScore),
          ((c.fieldScore? field v.1.2 v.2).map fun s => (v.1.1, s)) = some p → p.1 = v.1.1 := by
        intro v p hp
        obtain ⟨s, -, rfl⟩ := Option.map_eq_some_iff.1 hp
        rfl
      -- the reading has the same place among the readings as its baseline among the baselines
      obtain ⟨baseline, hbaseline, hscores⟩ := Lists.filter_filterMap_zip hmark hlen
        (nodup_map_fst_readings grouping key field records) (getElem?_readings hr hkey hvalue)
      rw [Option.bind_some, Stats.PeerStats.baselineAt?, hbaseline]
      refine (congrArg (List.map Prod.snd) hscores).trans ?_
      rw [← Option.toList_map, Option.map_map]
      exact congrArg Option.toList (congrFun Option.map_id (c.fieldScore? field value baseline))

theorem outstanding_eq (hr : records[i]? = some r) (hkey : key? grouping r = some key) :
    ((((fields grouping).flatMap (c.fieldScores (members grouping key records))).filter
      fun p => p.1 == i).map Prod.snd) = c.outstanding records grouping key i := by
  rw [List.filter_flatMap, List.map_flatMap, Settings.outstanding, List.filterMap_eq_flatMap_toList]
  exact List.flatMap_congr fun field _ => filter_fieldScores hr hkey

theorem about_groupFindings (hr : records[i]? = some r) (hkey : key? grouping r = some key) :
    about i (c.groupFindings bands grouping (key, members grouping key records)) =
      (c.findingIn? bands records i grouping).toList := by
  have hmember : (r, i) ∈ members grouping key records :=
    List.mem_filter.2 ⟨List.mem_zipIdx_iff_getElem?.2 hr, decide_eq_true hkey⟩
  have hpositions : ((members grouping key records).map Prod.snd).Nodup :=
    (nodup_positions records).sublist (List.filter_sublist.map Prod.snd)
  rw [Settings.groupFindings, Ranking.about_filterMap Prod.snd ?_ hpositions hmember]
  · simp only [outstanding_eq hr hkey, length_members, Settings.findingIn?, hr, hkey,
      Option.bind_eq_bind, Option.bind_some]
  · intro m f hf
    dsimp only at hf
    split at hf
    · cases hf
    · rw [← Option.some.inj hf]
      rfl

theorem about_groupingFindings (i : Nat) :
    about i (c.groupingFindings bands records grouping) =
      (c.findingIn? bands records i grouping).toList := by
  cases hr : records[i]? with
  | none =>
    rw [Settings.findingIn?, hr]
    apply Ranking.about_eq_nil
    intro f hf hrecord
    obtain ⟨j, hj, hmade⟩ := madeFor_of_mem_groupingFindings hf
    rw [← hrecord, hmade.record_eq] at hr
    exact absurd hj (Nat.not_lt.2 (List.getElem?_eq_none_iff.1 hr))
  | some r =>
    have hmem : (r, i) ∈ records.zipIdx := List.mem_zipIdx_iff_getElem?.2 hr
    have hfind : ∀ group, ∀ f ∈ c.groupFindings bands grouping group,
        ∃ m ∈ group.2, f.record = Prod.snd m := by
      intro group f hf
      obtain ⟨m, hm, hmade⟩ := madeFor_of_mem_groupFindings hf
      exact ⟨m, hm, hmade.record_eq⟩
    cases hkey : key? grouping r with
    | none =>
      rw [Settings.findingIn?, hr, Option.bind_eq_bind, Option.bind_some, hkey]
      exact Ranking.about_flatMap_groupBy_of_none hfind (nodup_positions records) hmem hkey
    | some key =>
      rw [← about_groupFindings hr hkey]
      exact Ranking.about_flatMap_groupBy hfind (nodup_positions records) hmem hkey

/-- Of the groupings that find something for a record the first one counts. -/
theorem about_groupings (i : Nat) :
    about i (Ranking.firsts (Grouping.all.flatMap (c.groupingFindings bands records))) =
      (c.findingFor? bands records i).toList := by
  rw [Ranking.about_firsts (m := .contextual), Ranking.about_flatMap]
  · simp only [about_groupingFindings]
    rw [← List.filterMap_eq_flatMap_toList, List.head?_filterMap, Settings.findingFor?]
  · intro f hf
    obtain ⟨grouping, -, hf⟩ := List.mem_flatMap.1 hf
    obtain ⟨j, -, hmade⟩ := madeFor_of_mem_groupingFindings hf
    exact hmade.method_eq

theorem findingIn?_eq_some_iff {f : Finding} :
    c.findingIn? bands records i grouping = some f ↔ ∃ r key, records[i]? = some r ∧
      key? grouping r = some key ∧ c.outstanding records grouping key i ≠ [] ∧
        .of bands .contextual i (largest (c.outstanding records grouping key i) / c.scoreScale)
          (.contextual grouping key (records.countP fun r => key? grouping r = some key)
            (c.outstanding records grouping key i)) = f := by
  simp only [Settings.findingIn?, bind, Option.bind_eq_some_iff, Option.ite_none_left_eq_some,
    List.isEmpty_iff, Option.some.injEq]
  constructor
  · rintro ⟨r, hr, key, hkey, hne, rfl⟩
    exact ⟨r, key, hr, hkey, hne, rfl⟩
  · rintro ⟨r, key, hr, hkey, hne, rfl⟩
    exact ⟨r, hr, key, hkey, hne, rfl⟩

theorem outstanding_ne_nil_iff : c.outstanding records grouping key i ≠ [] ↔
    ∃ field ∈ fields grouping, (c.standsOut? records grouping key i field).isSome := by
  simp [Settings.outstanding, List.filterMap_eq_nil_iff, Option.isSome_iff_ne_none]

theorem isSome_findingFor?_iff (bands : Bands) : (c.findingFor? bands records i).isSome ↔
    ∃ grouping r key field, records[i]? = some r ∧ key? grouping r = some key ∧
      field ∈ fields grouping ∧ (c.standsOut? records grouping key i field).isSome := by
  have hall : ∀ grouping, grouping ∈ Grouping.all := by
    intro grouping
    cases grouping <;> decide
  rw [Settings.findingFor?, List.findSome?_isSome_iff]
  simp only [Option.isSome_iff_exists (x := c.findingIn? ..), findingIn?_eq_some_iff,
    outstanding_ne_nil_iff]
  constructor
  · rintro ⟨grouping, -, -, r, key, hr, hkey, ⟨field, hfield, hs⟩, -⟩
    exact ⟨grouping, r, key, field, hr, hkey, hfield, hs⟩
  · rintro ⟨grouping, r, key, field, hr, hkey, hfield, hs⟩
    exact ⟨grouping, hall grouping, _, r, key, hr, hkey, ⟨field, hfield, hs⟩, rfl⟩

end Groups

section Scores

variable {c : Settings} {bands : Bands} {records : List Record} {grouping : Grouping} {key : String}
  {i : Nat}

theorem zScore_of_mem_outstanding {s : FieldScore}
    (hs : s ∈ c.outstanding records grouping key i) :
    s.zScore.isFinite = true ∧ c.zThreshold < s.zScore.abs := by
  obtain ⟨field, -, hs⟩ := List.mem_filterMap.1 hs
  simp only [Settings.standsOut?, bind, Option.bind_eq_some_iff] at hs
  obtain ⟨r, -, value, -, peers, -, baseline, -, z, hz, hs⟩ := hs
  obtain ⟨habove, hs⟩ := Option.ite_none_right_eq_some.1 hs
  rw [← Option.some.inj hs]
  exact ⟨Stats.isFinite_of_zScore? hz, habove⟩

/-- Above a threshold that is positive there is no zero among the z-scores. -/
theorem isGreatest_largest_of_above (hc : c.check = .ok ()) {scores : List FieldScore}
    (hne : scores ≠ [])
    (hscores : ∀ s ∈ scores, s.zScore.isFinite = true ∧ c.zThreshold < s.zScore.abs) :
    IsGreatest {y | ∃ s ∈ scores, y = s.zScore.abs} (largest scores) := by
  obtain ⟨hmem, hmost⟩ := isGreatest_largest fun s hs => (hscores s hs).1
  have hmost' : ∀ s ∈ scores, s.zScore.abs ≤ largest scores := fun s hs =>
    hmost (List.mem_cons_of_mem 0 (List.mem_map_of_mem hs))
  constructor
  · rcases List.mem_cons.1 hmem with hzero | hmem
    · -- the search starts from zero, which lies below all of them
      obtain ⟨s, hs⟩ := List.exists_mem_of_ne_nil scores hne
      have hthreshold : 0 < c.zThreshold := of_decide_eq_true (Fault.of_require_bind hc).1
      have hle : c.zThreshold ≤ 0 :=
        Binary64.le_trans (le_of_lt (hscores s hs).2) (hzero ▸ hmost' s hs)
      exact absurd hle ((lt_iff_not_le (by decide) (not_isNaN_of_lt hthreshold).2).1 hthreshold)
    · obtain ⟨s, hs, heq⟩ := List.mem_map.1 hmem
      exact ⟨s, hs, heq.symm⟩
  · rintro y ⟨s, hs, rfl⟩
    exact hmost' s hs

end Scores

/-- A record is found at most once, and exactly where in some grouping in which it has a key one of
its fields stands out. It is found for the first such grouping, with all fields that stand out there
and with the score of the largest of their z-scores. -/
theorem detect_by_first_grouping {c : Settings} (hc : c.check = .ok ()) (bands : Bands)
    (records : List Record) :
    ∃ fs, c.detect bands records = .found fs ∧ (fs.map Finding.record).Nodup ∧
      (∀ i, (fs.filter fun f => f.record = i) = (c.findingFor? bands records i).toList) ∧
      (∀ i, (∃ f ∈ fs, f.record = i) ↔ ∃ grouping r key field, records[i]? = some r ∧
        key? grouping r = some key ∧ field ∈ fields grouping ∧
          (c.standsOut? records grouping key i field).isSome) ∧
      ∀ f ∈ fs, ∃ grouping key size scores top,
        f.evidence = .contextual grouping key size scores ∧
          IsGreatest {y | ∃ s ∈ scores, y = s.zScore.abs} top ∧ f.score = top / c.scoreScale := by
  obtain ⟨fs, hfs, hroster⟩ := detect_of_accepted hc bands records
  obtain rfl := Outcome.found.inj ((detect_eq hc bands records).symm.trans hfs)
  have habout (i : Nat) : about i (Ranking.firsts (Grouping.all.flatMap
      (c.groupingFindings bands records))) = (c.findingFor? bands records i).toList :=
    about_groupings i
  refine ⟨_, hfs, hroster.nodup, habout, ?_, ?_⟩
  · intro i
    rw [← isSome_findingFor?_iff bands, Option.isSome_iff_ne_none, Ne,
      ← Option.toList_eq_nil_iff, ← habout, about, List.filter_eq_nil_iff]
    simp
  · intro f hf
    have hfound : f ∈ (c.findingFor? bands records f.record).toList := by
      rw [← habout]
      exact Ranking.mem_about.2 ⟨hf, rfl⟩
    obtain ⟨grouping, -, hin⟩ := List.exists_of_findSome?_eq_some (Option.mem_toList.1 hfound)
    obtain ⟨r, key, -, -, hne, hmade⟩ := findingIn?_eq_some_iff.1 hin
    exact ⟨grouping, key, _, _, _, congrArg Finding.evidence hmade.symm,
      isGreatest_largest_of_above hc hne fun _ => zScore_of_mem_outstanding,
      congrArg Finding.score hmade.symm⟩

/-- A record stands out in its category with an amount and a fraud score, and with its amount also
among the records of its type; the category counts, with a member that has no fraud score. Another
record has no category and stands out in its state. -/
theorem detect_by_first_grouping_food :
    let record (fields : List (String × String)) : Record :=
      ⟨fields.map fun p => (p.1, .string p.2)⟩
    let food (amount : String) : List (String × String) :=
      [("merchant_category", "food"), ("merchant_state", "CA"), ("transaction_type", "online"),
        ("amount", amount)]
    let context (f : Finding) : Option (Grouping × String × Nat × List String) :=
      match f.evidence with
      | .contextual grouping key size scores =>
        some (grouping, key, size, scores.map FieldScore.field)
      | _ => none
    let c : Settings := {}
    let records := [record (food "10" ++ [("fraud_score", "0.1")]),
      record (food "12" ++ [("fraud_score", "0.2")]), record (food "11"),
      record (food "100" ++ [("fraud_score", "0.9")]),
      record [("merchant_state", "CA"), ("amount", "300")]]
    c.check = .ok () ∧
      ((List.range 5).map fun i => (c.findingFor? {} records i).bind context) =
        [none, none, none, some (.category, "food", 4, ["amount", "fraud_score"]),
          some (.state, "CA", 5, ["amount"])] ∧
      (c.findingIn? {} records 3 .type).isSome ∧
      ∃ fs, c.detect {} records = .found fs ∧
        ∀ i, (fs.filter fun f => f.record = i) = (c.findingFor? {} records i).toList := by
  intro record food context c records
  have hcheck : c.check = .ok () := by decide +kernel
  obtain ⟨fs, hfs, -, hfound, -, -⟩ := detect_by_first_grouping hcheck {} records
  exact ⟨hcheck, by decide +kernel, by decide +kernel, fs, hfs, hfound⟩

end LedgerWatch.Contextual
