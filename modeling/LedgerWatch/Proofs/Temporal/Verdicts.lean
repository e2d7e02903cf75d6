import LedgerWatch.Finding.Json
import LedgerWatch.Proofs.Finding.About
import LedgerWatch.Proofs.Stats.PeerLists
import LedgerWatch.Proofs.Temporal.Chronology
import LedgerWatch.Proofs.Temporal.Findings

namespace LedgerWatch

/-- Whether a finding is about a window of amounts just before it. -/
def Evidence.isRolling : Evidence → Bool
  | .rolling .. => true
  | _ => false

namespace Temporal

open Ranking (about)

def ofMonth (month : Nat) (points : List Point) : List Point :=
  points.filter fun p => p.date.date.month = month

namespace Settings

variable (c : Settings) (bands : Bands) (points : List Point) (position : Nat)

/-- A point behind a full window is judged against the points of the window. -/
def rollingAt? : Option Finding := do
  let p ← points[position]?
  if position < c.window.toNat then none
  else
    let window := points.extract (position - c.window.toNat) position
    let stats ← Stats.summarize? (window.map Point.amount)
    let z ← stats.zScore? p.amount
    if c.zThreshold < z.abs then
      some (c.finding bands p z (.rolling stats.mean stats.std z (.of z)))
    else none

/-- A point is judged against the others of its month, where it stands behind those that come
before it in the series. -/
def seasonalAt? : Option Finding := do
  let p ← points[position]?
  let month := p.date.date.month
  let peers ← Stats.PeerStats.ofValues? ((ofMonth month points).map Point.amount)
  let baseline ← peers.baselineAt? (ofMonth month (points.take position)).length
  let z ← baseline.zScore? p.amount
  if c.zThreshold < z.abs then
    some (c.finding bands p z (.seasonal month (baseline.range c.rangeWidth) z))
  else none

/-- A point is judged by how far it lies from the line, in standard deviations of all amounts. -/
def trendAt? : Option Finding := do
  let p ← points[position]?
  let amounts := points.map Point.amount
  let stats ← Stats.summarize? amounts
  if stats.isFlat then none
  else
    let line ← Stats.fit? amounts
    let predicted := line.at (Float.ofNat position)
    let residual := p.amount - predicted
    let threshold := c.trendSigma * stats.std
    if threshold < residual.abs then
      some (c.finding bands p (residual / stats.std) (.trend position predicted residual threshold))
    else none

/-- What is found for a point: what the first pass says that has a say. -/
def findingAt? : Option Finding :=
  c.rollingAt? bands points position <|> c.seasonalAt? bands points position <|>
    c.trendAt? bands points position

end Settings

section Passes

variable {c : Settings} {bands : Bands} {points : List Point} {position : Nat} {p : Point}
  (hpoints : (points.map Point.record).Nodup) (hp : points[position]? = some p)

theorem map_snd_windows (w : Nat) (points : List Point) :
    (windows w points).map Prod.snd = points.drop w := by
  rw [windows, List.map_map]
  exact List.zipIdx_map_fst 0 (points.drop w)

theorem nodup_records_windows (hpoints : (points.map Point.record).Nodup) (w : Nat) :
    ((windows w points).map fun v => v.2.record).Nodup := by
  have hdrop := hpoints.sublist ((List.drop_sublist w points).map Point.record)
  rwa [← map_snd_windows, List.map_map] at hdrop

theorem record_of_rolling? {v : List Point × Point} {f : Finding}
    (h : c.rolling? bands v.1 v.2 = some f) : f.record = v.2.record :=
  record_of_forPoint (forPoint_of_rolling? (List.mem_singleton_self v.2) h)

theorem mem_windows_of_le {w : Nat} (hw : w ≤ position) (hp : points[position]? = some p) :
    (points.extract (position - w) position, p) ∈ windows w points := by
  refine List.mem_map.2 ⟨(p, position - w), ?_, ?_⟩
  · rw [List.mem_zipIdx_iff_getElem?, List.getElem?_drop, Nat.add_sub_cancel' hw]
    exact hp
  · rw [List.extract, Nat.sub_sub_self hw]

include hpoints hp

/-- A point among the first ones has no window. -/
theorem ne_of_mem_windows {w : Nat} (hw : position < w) {v : List Point × Point}
    (hv : v ∈ windows w points) : v.2.record ≠ p.record := by
  intro heq
  have hfront : p ∈ points.take w := by
    rw [List.mem_iff_getElem?]
    exact ⟨position, by rw [List.getElem?_take_of_lt hw, hp]⟩
  have hback : v.2 ∈ points.drop w := by
    rw [← map_snd_windows]
    exact List.mem_map_of_mem hv
  rw [← List.take_append_drop w points, List.map_append] at hpoints
  exact List.disjoint_of_nodup_append hpoints (List.mem_map_of_mem hfront)
    (heq ▸ List.mem_map_of_mem hback)

theorem about_rolling :
    about p.record (c.rolling bands points) = (c.rollingAt? bands points position).toList := by
  rcases Nat.lt_or_ge position c.window.toNat with hlt | hge
  · have hnone : c.rollingAt? bands points position = none := by
      simp [Settings.rollingAt?, hp, hlt]
    rw [hnone]
    apply Ranking.about_eq_nil
    intro f hf
    obtain ⟨v, hv, hf⟩ := List.mem_filterMap.1 hf
    rw [record_of_rolling? hf]
    exact ne_of_mem_windows hpoints hp hlt hv
  · have hrolling : c.rollingAt? bands points position =
        c.rolling? bands (points.extract (position - c.window.toNat) position) p := by
      simp only [Settings.rollingAt?, hp, Option.bind_eq_bind, Option.bind_some,
        Nat.not_lt.2 hge, if_false]
      rfl
    rw [hrolling]
    exact Ranking.about_filterMap (fun v => v.2.record) (fun _ _ hf => record_of_rolling? hf)
      (nodup_records_windows hpoints c.window.toNat) (mem_windows_of_le hge hp)

theorem about_monthFindings {month : Nat} (hmonth : p.date.date.month = month) :
    about p.record (c.monthFindings bands (month, ofMonth month points)) =
      (c.seasonalAt? bands points position).toList := by
  simp only [Settings.monthFindings, Settings.seasonalAt?, hp, Option.bind_eq_bind,
    Option.bind_some, hmonth]
  cases hpeers : Stats.PeerStats.ofValues? ((ofMonth month points).map Point.amount) with
  | none => rfl
  | some peers =>
    have hlen : (ofMonth month points).length = peers.baselines.length := by
      rw [Stats.PeerStats.length_baselines_of_ofValues? hpeers, List.length_map]
    -- the point has the same place in its month as its baseline has among the baselines
    have hplace : (ofMonth month points)[(ofMonth month (points.take position)).length]? =
        some p := Lists.getElem?_filter hp (decide_eq_true hmonth)
    have hmonthly : ((ofMonth month points).map Point.record).Nodup :=
      hpoints.sublist (List.filter_sublist.map Point.record)
    have hrecord : ∀ (v : Point × Option (Stats.Summary Float)) (f : Finding),
        c.seasonal? bands month v.1 v.2 = some f → f.record = v.1.record := by
      intro v f hf
      exact record_of_forPoint (forPoint_of_seasonal? (List.mem_singleton_self v.1) hf)
    obtain ⟨baseline, hbaseline, hfound⟩ :=
      Lists.filter_filterMap_zip hrecord hlen hmonthly hplace
    rw [Option.bind_some, Stats.PeerStats.baselineAt?, hbaseline]
    exact hfound

theorem about_seasonal :
    about p.record (c.seasonal bands points) = (c.seasonalAt? bands points position).toList := by
  have hfind : ∀ month, ∀ f ∈ c.monthFindings bands month,
      ∃ q ∈ month.2, f.record = Point.record q := by
    intro month f hf
    obtain ⟨q, hq, hmade⟩ := forPoint_of_mem_monthFindings hf
    exact ⟨q, hq, hmade.record_eq⟩
  rw [Settings.seasonal, Ranking.about_flatMap_groupBy hfind hpoints (List.mem_of_getElem? hp) rfl]
  simp only [Option.some.injEq]
  exact about_monthFindings hpoints hp rfl

theorem about_trend :
    about p.record (c.trend bands points) = (c.trendAt? bands points position).toList := by
  simp only [Settings.trend, Settings.trendAt?, trend?, hp, Option.bind_eq_bind, Option.bind_some]
  cases Stats.summarize? (points.map Point.amount) with
  | none => rfl
  | some stats =>
    cases hflat : stats.isFlat with
    | true => simp [hflat, Ranking.about]
    | false =>
      cases Stats.fit? (points.map Point.amount) with
      | none => simp [Ranking.about]
      | some line =>
        have hmem : (p, position) ∈ points.zipIdx := List.mem_zipIdx_iff_getElem?.2 hp
        have hzip : (points.zipIdx.map fun m => m.1.record).Nodup := by
          rwa [← List.zipIdx_map_fst 0 points, List.map_map] at hpoints
        simp only [hflat, Option.bind_some, Bool.false_eq_true, if_false, pure]
        refine Ranking.about_filterMap (fun m : Point × Nat => m.1.record) ?_ hzip hmem
        intro m f hf
        obtain ⟨-, hf⟩ := Option.ite_none_right_eq_some.1 hf
        rw [← Option.some.inj hf]
        rfl

/-- Of the passes that find something for a point the first one counts. -/
theorem about_passes :
    about p.record (Ranking.firsts (c.rolling bands points ++ c.seasonal bands points ++
      c.trend bands points)) = (c.findingAt? bands points position).toList := by
  rw [Ranking.about_firsts (m := .temporal), Ranking.about_append, Ranking.about_append,
    about_rolling hpoints hp, about_seasonal hpoints hp, about_trend hpoints hp,
    Settings.findingAt?]
  · cases c.rollingAt? bands points position <;> cases c.seasonalAt? bands points position <;>
      cases c.trendAt? bands points position <;> rfl
  · intro f hf
    obtain ⟨q, -, hmade⟩ := forPoint_of_mem_passes hf
    exact hmade.method_eq

end Passes

section Short

variable {c : Settings} {bands : Bands} {points : List Point}

theorem rolling_of_length_le (h : points.length ≤ c.window.toNat) :
    c.rolling bands points = [] := by
  rw [Settings.rolling, windows, List.drop_eq_nil_of_le h]
  rfl

theorem rollingAt?_of_length_le (h : points.length ≤ c.window.toNat) (position : Nat) :
    c.rollingAt? bands points position = none := by
  unfold Settings.rollingAt?
  cases hp : points[position]? with
  | none => rfl
  | some p =>
    have hlt := (List.getElem?_eq_some_iff.1 hp).1.trans_le h
    simp [hlt]

theorem isRolling_of_mem_rolling {f : Finding} (h : f ∈ c.rolling bands points) :
    f.evidence.isRolling = true := by
  obtain ⟨v, -, hf⟩ := List.mem_filterMap.1 h
  simp only [Settings.rolling?, bind, Option.bind_eq_some_iff] at hf
  obtain ⟨stats, -, z, -, hf⟩ := hf
  obtain ⟨-, hf⟩ := Option.ite_none_right_eq_some.1 hf
  rw [← Option.some.inj hf]
  rfl

theorem isRolling_of_mem_seasonal {f : Finding} (h : f ∈ c.seasonal bands points) :
    f.evidence.isRolling = false := by
  obtain ⟨month, -, hf⟩ := List.mem_flatMap.1 h
  unfold Settings.monthFindings at hf
  split at hf
  · cases hf
  · obtain ⟨⟨p, baseline⟩, -, hf⟩ := List.mem_filterMap.1 hf
    simp only [Settings.seasonal?, bind, Option.bind_eq_some_iff] at hf
    obtain ⟨stats, -, z, -, hf⟩ := hf
    obtain ⟨-, hf⟩ := Option.ite_none_right_eq_some.1 hf
    rw [← Option.some.inj hf]
    rfl

theorem isRolling_of_mem_trend {f : Finding} (h : f ∈ c.trend bands points) :
    f.evidence.isRolling = false := by
  unfold Settings.trend at h
  split at h
  · cases h
  · obtain ⟨⟨p, position⟩, -, hf⟩ := List.mem_filterMap.1 h
    obtain ⟨-, hf⟩ := Option.ite_none_right_eq_some.1 hf
    rw [← Option.some.inj hf]
    rfl

end Short

/-- In the order of their dates, records with a date and an amount are found at most once each: for
what the first pass says that has a say on their points; other records are not found. A series no
longer than a window has no rolling findings, and the other two passes find what they find. -/
theorem detect_by_first_pass {c : Settings} (hc : c.check = .ok ()) (bands : Bands)
    (records : List Record) :
    Chronological records (series records) ∧
      ∃ fs, c.detect bands records = .found fs ∧ (fs.map Finding.record).Nodup ∧
        (∀ f ∈ fs, ∃ r date amount, records[f.record]? = some r ∧
          r.transactionDate? = some date ∧ r.amount? = some amount) ∧
        (∀ position p, (series records)[position]? = some p →
          (fs.filter fun f => f.record = p.record) =
            (c.findingAt? bands (series records) position).toList) ∧
        ((series records).length ≤ c.window.toNat →
          (∀ f ∈ fs, f.evidence.isRolling = false) ∧
          ∀ position p, (series records)[position]? = some p →
            (fs.filter fun f => f.record = p.record) =
              (c.seasonalAt? bands (series records) position <|>
                c.trendAt? bands (series records) position).toList) := by
  have hpoints := nodup_records_series records
  obtain ⟨fs, hfs, hroster⟩ := detect_of_accepted hc bands records
  obtain rfl := Outcome.found.inj ((detect_eq hc bands records).symm.trans hfs)
  refine ⟨chronological_series records, _, hfs, hroster.nodup, ?_,
    fun position p hp => about_passes hpoints hp, fun hshort => ⟨?_, ?_⟩⟩
  · intro f hf
    obtain ⟨p, hp, hmade⟩ := forPoint_of_mem_passes ((Ranking.firsts_sublist _).subset hf)
    obtain ⟨r, hr, hdate, hamount⟩ := mem_series_iff.1 hp
    exact ⟨r, p.date, p.amount, hmade.record_eq ▸ hr, hdate, hamount⟩
  · intro f hf
    have hmem := (Ranking.firsts_sublist _).subset hf
    rw [rolling_of_length_le hshort, List.nil_append] at hmem
    rcases List.mem_append.1 hmem with hmem | hmem
    · exact isRolling_of_mem_seasonal hmem
    · exact isRolling_of_mem_trend hmem
  · intro position p hp
    refine (about_passes hpoints hp).trans ?_
    rw [Settings.findingAt?, rollingAt?_of_length_le hshort]
    rfl

/-- A March amount far above those of the next March, the first of which lies far below the line; an
April amount far above the three just before it; and a record without a date. -/
theorem detect_by_first_pass_march :
    let record (date amount : String) : Record :=
      ⟨[("transaction_date", .string date), ("amount", .string amount)]⟩
    let c : Settings := { window := 3, trendSigma := 1 }
    let records := [record "2023-03-10" "100", record "2023-07-01" "90", record "" "5",
      record "2024-03-01" "10", record "2024-03-02" "12", record "2024-03-02" "11",
      record "2024-04-01" "30", record "2024-04-01" "10"]
    c.check = .ok () ∧
      ((List.range 7).map fun position =>
          (c.findingAt? {} (series records) position).map fun f => (f.record, f.evidence.kind)) =
        [some (0, "seasonal"), none, some (3, "trend"), none, none, some (6, "rolling"), none] ∧
      ∃ fs, c.detect {} records = .found fs ∧
        ∀ position p, (series records)[position]? = some p →
          (fs.filter fun f => f.record = p.record) =
            (c.findingAt? {} (series records) position).toList := by
  intro record c records
  have hcheck : c.check = .ok () := by decide +kernel
  have hseries : series records = records.zipIdx.filterMap point? :=
    series_of_pairwise (by decide +kernel)
  have hkinds : ((List.range 7).map fun position =>
      (c.findingAt? {} (records.zipIdx.filterMap point?) position).map fun f =>
        (f.record, f.evidence.kind)) =
      [some (0, "seasonal"), none, some (3, "trend"), none, none, some (6, "rolling"), none] := by
    decide +kernel
  obtain ⟨fs, hfs, -, -, hfound, -⟩ := (detect_by_first_pass hcheck {} records).2
  exact ⟨hcheck, hseries ▸ hkinds, fs, hfs, hfound⟩

end Temporal

end LedgerWatch
