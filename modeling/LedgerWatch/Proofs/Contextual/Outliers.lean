import LedgerWatch.Proofs.Stats.LoneOutlier
import LedgerWatch.Proofs.Contextual.Verdicts

namespace LedgerWatch.Contextual

open Exact

section Found

variable {c : Settings} {records : List Record} {grouping : Grouping} {key field : String} {i : Nat}
  {r : Record}

theorem isSome_standsOut?_iff (hr : records[i]? = some r) (hkey : key? grouping r = some key) :
    (c.standsOut? records grouping key i field).isSome ↔ (r.numeric? field).isSome ∧
      ∃ p, Stats.PeerStats.ofValues? (values grouping key field records) = some p ∧
        p.StandsOut c.zThreshold (values grouping key field (records.take i)).length := by
  cases hvalue : r.numeric? field with
  | none => simp [Settings.standsOut?, hr, hvalue]
  | some value =>
    have hplace : (values grouping key field records)[
        (values grouping key field (records.take i)).length]? = some value := by
      rw [← map_snd_readings, List.getElem?_map, getElem?_readings hr hkey hvalue]
      rfl
    simp only [Option.isSome_iff_exists, Settings.standsOut?, hr, hvalue, bind, Option.bind_some,
      Option.bind_eq_some_iff, Option.ite_none_right_eq_some, Option.some.injEq]
    constructor
    · rintro ⟨s, p, hp, baseline, hbaseline, z, hz, habove, -⟩
      refine ⟨⟨value, rfl⟩, p, hp, z, ?_, habove⟩
      rw [Stats.PeerStats.zScoreAt?_eq hp, hbaseline, hplace]
      exact hz
    · rintro ⟨-, p, hp, z, hz, habove⟩
      rw [Stats.PeerStats.zScoreAt?_eq hp, hplace] at hz
      obtain ⟨baseline, hbaseline, hz⟩ := Option.bind_eq_some_iff.1 hz
      exact ⟨_, p, hp, baseline, hbaseline, z, hz, habove, rfl⟩

theorem exists_mem_detect_iff (hc : c.check = .ok ()) (bands : Bands) (records : List Record) :
    ∃ fs, c.detect bands records = .found fs ∧ ∀ i, (∃ f ∈ fs, f.record = i) ↔
      ∃ grouping r key field, records[i]? = some r ∧ key? grouping r = some key ∧
        field ∈ fields grouping ∧ (r.numeric? field).isSome ∧
          ∃ p, Stats.PeerStats.ofValues? (values grouping key field records) = some p ∧
            p.StandsOut c.zThreshold (values grouping key field (records.take i)).length := by
  refine ⟨_, detect_eq hc bands records, fun i => ?_⟩
  have hfound : (∃ f ∈ Ranking.firsts (Grouping.all.flatMap
      (c.groupingFindings bands records)), f.record = i) ↔
        (c.findingFor? bands records i).isSome := by
    rw [Option.isSome_iff_ne_none, Ne, ← Option.toList_eq_nil_iff, ← about_groupings,
      Ranking.about, List.filter_eq_nil_iff]
    simp
  rw [hfound, isSome_findingFor?_iff]
  constructor
  · rintro ⟨grouping, r, key, field, hr, hkey, hfield, hs⟩
    obtain ⟨hvalue, hp⟩ := (isSome_standsOut?_iff hr hkey).1 hs
    exact ⟨grouping, r, key, field, hr, hkey, hfield, hvalue, hp⟩
  · rintro ⟨grouping, r, key, field, hr, hkey, hfield, hvalue, hp⟩
    exact ⟨grouping, r, key, field, hr, hkey, hfield,
      (isSome_standsOut?_iff hr hkey).2 ⟨hvalue, hp⟩⟩

end Found

/-- Among real numbers that are all the same but for one, and that have a spread, the one is judged
against the whole group. Its z-score has the sign of its distance from the others, and as its square
the number of the others; theirs are at most one. So from a threshold of one on it stands out where
their number is above the square of the threshold, and nothing else does. What stands out in a group
of records is what is found. -/
theorem lone_outlier_stands_out :
    (∀ (n position : ℕ) (a b : ℝ) (group : Stats.Summary ℝ), 3 ≤ n → position < n →
      Stats.summarize? (Stats.lone n position a b) = some group →
      Stats.isDegenerate group.std group.mean = false →
        ∃ p peer, Stats.PeerStats.ofValues? (Stats.lone n position a b) = some p ∧
          p.peer? position = some peer ∧ Stats.isDegenerate peer.std peer.mean = true ∧
          p.baselineAt? position = some group ∧
          (∃ z, p.zScoreAt? position = some z ∧ SignType.sign z = SignType.sign (b - a) ∧
            z ^ 2 = n - 1) ∧
          (∀ i z, i ≠ position → p.zScoreAt? i = some z → |z| ≤ 1) ∧
          ∀ threshold, 1 ≤ threshold → ∀ i,
            p.StandsOut threshold i ↔ i = position ∧ threshold ^ 2 < n - 1) ∧
      ∀ (c : Settings) (bands : Bands) (records : List Record), c.check = .ok () →
        ∃ fs, c.detect bands records = .found fs ∧ ∀ i, (∃ f ∈ fs, f.record = i) ↔
          ∃ grouping r key field, records[i]? = some r ∧ key? grouping r = some key ∧
            field ∈ fields grouping ∧ (r.numeric? field).isSome ∧
              ∃ p, Stats.PeerStats.ofValues? (values grouping key field records) = some p ∧
                p.StandsOut c.zThreshold
                  (values grouping key field (records.take i)).length := by
  refine ⟨?_, fun c bands records hc => exists_mem_detect_iff hc bands records⟩
  intro n position a b group hn hposition hgroup hspread
  have hlen : (Stats.lone n position a b).length = n := Stats.length_lone
  obtain ⟨p, hp⟩ := Stats.PeerStats.exists_of_length (hlen.symm ▸ hn)
  obtain ⟨hpeer, hflat, hbaseline⟩ := Stats.baselineAt?_of_constant_peers hp
    (hlen.symm ▸ hposition) Stats.eq_of_mem_eraseIdx_lone hgroup hspread
  exact ⟨p, _, hp, hpeer, hflat, hbaseline,
    Stats.zScoreAt?_lone_self hn hposition hp hgroup hspread,
    fun i z hne => Stats.abs_le_one_of_zScoreAt?_lone hn hposition hp hne,
    fun threshold hthreshold i =>
      Stats.standsOut_lone_iff hn hposition hp hgroup hspread hthreshold⟩

/-- Beside ten equal numbers a lone one stands out at a threshold of three, beside nine it does not;
and a record with a lone amount is found beside ten others. -/
theorem lone_outlier_stands_out_eleven :
    let food (amount : String) : Record :=
      ⟨[("merchant_category", .string "food"), ("amount", .string amount)]⟩
    let records := List.replicate 10 (food "100") ++ [food "9000"]
    (∃ p : Stats.PeerStats ℝ, Stats.PeerStats.ofValues? (Stats.lone 11 10 100 9000) = some p ∧
        p.StandsOut 3 10) ∧
      (∃ p : Stats.PeerStats ℝ, Stats.PeerStats.ofValues? (Stats.lone 10 9 100 9000) = some p ∧
        ¬p.StandsOut 3 9) ∧
      ∃ fs, Settings.detect {} {} records = .found fs ∧ ∃ f ∈ fs, f.record = 10 := by
  intro food records
  obtain ⟨hexact, hfound⟩ := lone_outlier_stands_out
  have hspread (n : ℕ) (hn : n = 10 ∨ n = 11) : ∃ group : Stats.Summary ℝ,
      Stats.summarize? (Stats.lone n (n - 1) 100 9000) = some group ∧
        Stats.isDegenerate group.std group.mean = false := by
    have hperm : (Stats.lone n (n - 1) (100 : ℝ) 9000).Perm _ := Stats.lone_perm (by omega)
    have hne : Stats.lone n (n - 1) (100 : ℝ) 9000 ≠ [] :=
      List.ne_nil_of_length_pos (by rw [Stats.length_lone]; omega)
    refine ⟨_, Stats.summarize?_eq hne, Bool.eq_false_iff.2 ?_⟩
    rw [Ne, Stats.isDegenerate_iff, not_le]
    apply Real.lt_sqrt_of_sq_lt
    rw [Stats.average_of_perm hperm, Stats.variance_of_perm hperm,
      Stats.average_cons_replicate, Stats.variance_cons_replicate]
    rcases hn with rfl | rfl <;> norm_num
  refine ⟨?_, ?_, ?_⟩
  · obtain ⟨group, hgroup, hspread⟩ := hspread 11 (by omega)
    obtain ⟨p, -, hp, -, -, -, -, -, hiff⟩ :=
      hexact 11 10 100 9000 group (by omega) (by omega) hgroup hspread
    exact ⟨p, hp, (hiff 3 (by norm_num) 10).2 ⟨rfl, by norm_num⟩⟩
  · obtain ⟨group, hgroup, hspread⟩ := hspread 10 (by omega)
    obtain ⟨p, -, hp, -, -, -, -, -, hiff⟩ :=
      hexact 10 9 100 9000 group (by omega) (by omega) hgroup hspread
    refine ⟨p, hp, fun h => ?_⟩
    have hlt := ((hiff 3 (by norm_num) 9).1 h).2
    norm_num at hlt
  · obtain ⟨fs, hfs, hiff⟩ := hfound {} {} records (by decide +kernel)
    refine ⟨fs, hfs, (hiff 10).2 ⟨.category, food "9000", "food", "amount", rfl,
      by decide +kernel, by decide +kernel, by decide +kernel, ?_⟩⟩
    have hstands : ((Stats.PeerStats.ofValues? (values .category "food" "amount" records)).bind
        fun p => p.zScoreAt? (values .category "food" "amount" (records.take 10)).length).any
          (fun z => decide ((3 : Float) < z.abs)) = true := by decide +kernel
    obtain ⟨z, hz, habove⟩ := (Option.any_eq_true _ _).1 hstands
    obtain ⟨p, hp, hz⟩ := Option.bind_eq_some_iff.1 hz
    exact ⟨p, hp, z, hz, of_decide_eq_true habove⟩

end LedgerWatch.Contextual
