import LedgerWatch.Proofs.Isolation.Findings

namespace LedgerWatch

open Binary64

namespace Isolation

section Scored

variable {c : Settings} {seed : UInt64} {t : Table} {scores : List (Option Float)}

theorem isSome_of_scoreWith? {trees : List Tree} {cost : Float} {row : List Float}
    {s : Option Float} (h : scoreWith? trees cost row = some s) : s.isSome = hasValue row := by
  unfold scoreWith? at h
  split at h
  · rename_i hvalue
    obtain ⟨path, -, hpath⟩ := Option.bind_eq_some_iff.1 h
    rw [← Option.some.inj hpath, hasValue, hvalue]
    rfl
  · rename_i hvalue
    rw [← Option.some.inj h, hasValue, Bool.eq_false_iff.2 hvalue]
    rfl

theorem map_isSome_scores? (h : c.scores? seed t = .ok scores) :
    scores.map Option.isSome =
      t.rows.toList.map fun row => decide (2 ≤ (scorable t).length) && hasValue row := by
  rcases scores?_eq_ok h with ⟨hfew, rfl⟩ | ⟨hmany, trees, -, hscores⟩
  · rw [List.map_replicate]
    simp [Nat.not_le.2 hfew, Table.height, List.map_const']
  · have hmap := Lists.map_eq_of_mapM hscores
    apply List.map_injective_iff.2 (Option.some_injective Bool)
    have hsome := congrArg (List.map (Option.map Option.isSome)) hmap
    rw [List.map_map, List.map_map] at hsome
    rw [List.map_map, List.map_map]
    refine hsome.symm.trans (List.map_congr_left fun row hrow => ?_)
    obtain ⟨s, -, hs⟩ := List.mem_map.1 (hmap ▸ List.mem_map_of_mem hrow)
    rw [Function.comp, ← hs, Option.map_some, isSome_of_scoreWith? hs.symm, Function.comp,
      decide_eq_true hmany, Bool.true_and]

/-- A record is scored if it has a feature and another record has one. -/
theorem isSome_score_iff {records : List Record} {scaling : Scaling}
    (h : c.scores? seed (scaledFeatures records scaling) = .ok scores) {i : ℕ} {r : Record}
    (hr : records[i]? = some r) :
    ∃ s, scores[i]? = some s ∧
      (s.isSome ↔ r.hasFeature ∧ 2 ≤ records.countP Record.hasFeature) := by
  have hscored : scores.map Option.isSome = records.map fun r =>
      decide (2 ≤ records.countP Record.hasFeature) && r.hasFeature := by
    rw [map_isSome_scores? h, length_scorable_scaledFeatures]
    have hvalues := map_hasValue_scaledFeatures records scaling
    have hboth := congrArg
      (List.map (decide (2 ≤ records.countP Record.hasFeature) && ·)) hvalues
    rwa [List.map_map, List.map_map] at hboth
  have hi := congrArg (·[i]?) hscored
  simp only [List.getElem?_map, hr, Option.map_some] at hi
  obtain ⟨s, hs, hsome⟩ := Option.map_eq_some_iff.1 hi
  refine ⟨s, hs, ?_⟩
  rw [hsome, Bool.and_eq_true, decide_eq_true_eq, and_comm]

end Scored

section Ranking

variable {threshold : Float} {scores : List (Option Float)}

def ahead (p q : ℕ × Float) : Bool := q.2 < p.2 || (p.2 = q.2 && p.1 < q.1)

def noLower (p q : ℕ × Float) : Bool := totalOrderKey q.2 ≤ totalOrderKey p.2

theorem isPlus_of_mem_above (hpos : 0 < threshold) {p : ℕ × Float}
    (hp : p ∈ above threshold scores) : IsPlus p.2 := by
  have hlt : threshold < p.2 := of_decide_eq_true (List.mem_filter.1 hp).2
  apply IsPlus.of_pos
  have hle := le_of_lt hlt
  rw [lt_iff_not_le rfl (not_isNaN_of_le hle).2]
  intro hback
  exact (lt_iff_not_le rfl (not_isNaN_of_le hle).1).1 hpos (le_trans hle hback)

theorem ahead_iff {p q : ℕ × Float} :
    ahead p q = true ↔ q.2 < p.2 ∨ p.2 = q.2 ∧ p.1 < q.1 := by
  simp [ahead]

theorem ahead_self {p : ℕ × Float} (hp : IsPlus p.2) : ahead p p = false := by
  rw [Bool.eq_false_iff, ne_eq, ahead_iff, not_or]
  refine ⟨?_, fun h => absurd h.2 (Nat.lt_irrefl _)⟩
  rw [lt_iff_not_le hp.not_isNaN hp.not_isNaN, not_not]
  exact le_refl_of_not_isNaN hp.not_isNaN

theorem ahead_of_noLower {p q : ℕ × Float} (hp : IsPlus p.2) (hq : IsPlus q.2)
    (h : noLower p q) (htie : noLower q p → p.1 < q.1) :
    ahead p q = true ∧ ahead q p = false := by
  have hle : q.2 ≤ p.2 := (hq.totalOrderKey_le_iff hp).1 (of_decide_eq_true h)
  have hback : p.2 ≤ q.2 → p.1 < q.1 := fun hpq =>
    htie (decide_eq_true ((hp.totalOrderKey_le_iff hq).2 hpq))
  rw [Bool.eq_false_iff, ne_eq, ahead_iff, ahead_iff, lt_iff_not_le hq.not_isNaN hp.not_isNaN,
    lt_iff_not_le hp.not_isNaN hq.not_isNaN]
  by_cases hpq : p.2 ≤ q.2
  · have heq := hp.eq_of_le_of_le hq hpq hle
    have hlt := hback hpq
    exact ⟨.inr ⟨heq, hlt⟩, by rintro (hnot | ⟨-, hgt⟩) <;> [exact hnot hle; omega]⟩
  · refine ⟨.inl hpq, ?_⟩
    rintro (hnot | ⟨heq, -⟩)
    · exact hnot hle
    · exact hpq (heq ▸ le_refl_of_not_isNaN hq.not_isNaN)

theorem noLower_trans (p q r : ℕ × Float) : noLower p q → noLower q r → noLower p r := by
  simp only [noLower, decide_eq_true_eq]
  exact fun hpq hqr => Int.le_trans hqr hpq

theorem noLower_total (p q : ℕ × Float) : noLower p q || noLower q p := by
  simpa only [noLower, Bool.or_eq_true, decide_eq_true_eq] using Int.le_total _ _

theorem ranked_candidates (hpos : 0 < threshold) (scores : List (Option Float)) :
    (candidates threshold scores).Pairwise fun p q => ahead p q = true ∧ ahead q p = false := by
  have hstable := Lists.pairwise_mergeSort_stable noLower_trans noLower_total
    (increasing_above threshold scores)
  have hplus : ∀ p ∈ candidates threshold scores, IsPlus p.2 := fun p hp =>
    isPlus_of_mem_above hpos ((candidates_perm threshold scores).mem_iff.1 hp)
  refine List.Pairwise.imp_of_mem ?_ hstable
  intro p q hp hq hpq
  exact ahead_of_noLower (hplus p hp) (hplus q hq) hpq.1 hpq.2

end Ranking

/-- The first `limit` records above the threshold are flagged, ranked by their scores. -/
structure FlagsFirst (threshold : Float) (limit : ℕ) (scores : List (Option Float))
    (fs : List Finding) : Prop where
  scored : ∀ f ∈ fs, scores[f.record]? = some (some f.score)
  ranked : fs.Pairwise fun f g => g.score < f.score ∨ f.score = g.score ∧ f.record < g.record
  length : fs.length = min limit (above threshold scores).length
  flagged_iff : ∀ i, (∃ f ∈ fs, f.record = i) ↔ ∃ s, scores[i]? = some (some s) ∧ threshold < s ∧
    (above threshold scores).countP (fun p => ahead p (i, s)) < limit
  /-- What is above the threshold and not flagged has no higher score than what is flagged. -/
  unflagged : ∀ i s, scores[i]? = some (some s) → threshold < s → (∀ f ∈ fs, f.record ≠ i) →
    ∀ f ∈ fs, s ≤ f.score

theorem flagsFirst_take {threshold : Float} (hpos : 0 < threshold) (limit : ℕ)
    (scores : List (Option Float)) {make : ℕ × Float → Finding}
    (hmake : ∀ p, (make p).record = p.1 ∧ (make p).score = p.2) :
    FlagsFirst threshold limit scores (((candidates threshold scores).take limit).map make) := by
  have hperm := candidates_perm threshold scores
  have hranked := ranked_candidates hpos scores
  have hplus : ∀ p ∈ candidates threshold scores, IsPlus p.2 := fun p hp =>
    isPlus_of_mem_above hpos (hperm.mem_iff.1 hp)
  have hmem : ∀ i s, (i, s) ∈ candidates threshold scores ↔
      scores[i]? = some (some s) ∧ threshold < s := fun i s =>
    hperm.mem_iff.trans mem_above_iff
  have htake : ∀ p ∈ candidates threshold scores, p ∈ (candidates threshold scores).take limit ↔
      (above threshold scores).countP (fun q => ahead q p) < limit := by
    intro p hp
    rw [Lists.mem_take_iff_countP hranked (ahead_self (hplus p hp)) hp, hperm.countP_eq]
  refine ⟨?_, ?_, ?_, ?_, ?_⟩
  · intro f hf
    obtain ⟨p, hp, rfl⟩ := List.mem_map.1 hf
    rw [(hmake p).1, (hmake p).2]
    exact ((hmem p.1 p.2).1 (List.mem_of_mem_take hp)).1
  · rw [List.pairwise_map]
    refine (hranked.sublist (List.take_sublist _ _)).imp fun {p q} hpq => ?_
    rw [(hmake p).1, (hmake p).2, (hmake q).1, (hmake q).2]
    exact ahead_iff.1 hpq.1
  · rw [List.length_map, List.length_take, hperm.length_eq]
  · intro i
    constructor
    · rintro ⟨f, hf, rfl⟩
      obtain ⟨p, hp, rfl⟩ := List.mem_map.1 hf
      have hp' := List.mem_of_mem_take hp
      rw [(hmake p).1]
      obtain ⟨hs, hlt⟩ := (hmem p.1 p.2).1 hp'
      exact ⟨p.2, hs, hlt, (htake p hp').1 hp⟩
    · rintro ⟨s, hs, hlt, hfew⟩
      have hp := (htake _ ((hmem i s).2 ⟨hs, hlt⟩)).2 hfew
      exact ⟨make (i, s), List.mem_map_of_mem hp, (hmake (i, s)).1⟩
  · intro i s hs hlt hout f hf
    obtain ⟨p, hp, rfl⟩ := List.mem_map.1 hf
    have hlow : (i, s) ∈ (candidates threshold scores).drop limit := by
      have hin := (hmem i s).2 ⟨hs, hlt⟩
      rw [← List.take_append_drop limit (candidates threshold scores)] at hin
      refine (List.mem_append.1 hin).resolve_left fun hfirst => ?_
      exact hout _ (List.mem_map_of_mem hfirst) (hmake (i, s)).1
    rw [← List.take_append_drop limit (candidates threshold scores)] at hranked
    have hahead := ahead_iff.1 ((List.pairwise_append.1 hranked).2.2 p hp _ hlow).1
    rw [(hmake p).2]
    rcases hahead with hless | ⟨heq, -⟩
    · exact le_of_lt hless
    · rw [heq]
      exact le_refl_of_not_isNaN (not_isNaN_of_lt hlt).2

/-- A forest scores the records that have a feature, where there are two of them, and flags the
first of those above the threshold. Only where there are such records and more trees are asked for
than a list can hold, it crashes instead. -/
theorem detect_flags_first {c : Settings} (hc : c.check = .ok ()) (scaling : Scaling)
    (bands : Bands) (entropy : UInt64) (records : List Record) :
    (c.Overloaded records →
      c.batchScores scaling entropy records = .error (.crashed .overCapacity) ∧
      c.detect scaling bands entropy records = .crashed .overCapacity) ∧
    (¬c.Overloaded records → ∃ (scores : List (Option Float)) (fs : List Finding),
      c.batchScores scaling entropy records = .ok scores ∧
      c.detect scaling bands entropy records = .found fs ∧
      scores.length = records.length ∧
      (∀ (i : ℕ) (r : Record), records[i]? = some r → ∃ s, scores[i]? = some s ∧
        (s.isSome ↔ r.hasFeature ∧ 2 ≤ records.countP Record.hasFeature)) ∧
      FlagsFirst c.scoreThreshold
        (max 1 (ceilCount (c.contamination * Float.ofNat (scores.countP Option.isSome))))
        scores fs) := by
  refine ⟨fun hload => ⟨batchScores_of_overloaded hc hload scaling entropy,
    detect_of_overloaded hc hload scaling bands entropy⟩, fun hload => ?_⟩
  obtain ⟨scores, hs⟩ := exists_scores hload scaling entropy
  have hpos : 0 < c.scoreThreshold := by
    obtain ⟨-, hc⟩ := Fault.of_require_bind hc
    obtain ⟨-, hc⟩ := Fault.of_require_bind hc
    obtain ⟨-, hc⟩ := Fault.of_require_bind hc
    have hrange := Fault.of_require hc
    rw [Bool.and_eq_true] at hrange
    exact of_decide_eq_true hrange.1
  refine ⟨scores, _, batchScores_eq hc hs, detect_eq hc hs, ?_, ?_, ?_⟩
  · exact (length_of_scores? hs).trans (height_scaledFeatures records scaling)
  · exact fun i r hr => isSome_score_iff hs hr
  · exact flagsFirst_take hpos _ scores fun _ => ⟨rfl, rfl⟩

/-- Two records with an amount, and more trees than a list can hold. -/
theorem unscored_of_countless_trees :
    let record : Record := ⟨[("amount", .string "1")]⟩
    let c : Settings := { trees := 18446744073709551615, seed := some 42 }
    c.check = .ok () ∧ record.hasFeature ∧
      (∀ scores, c.batchScores .none 0 [record, record] ≠ .ok scores) ∧
      ∀ fs, c.detect .none {} 0 [record, record] ≠ .found fs := by
  intro record c
  have hc : c.check = .ok () := by decide +kernel
  have hfeature : record.hasFeature := by decide +kernel
  have hload : c.Overloaded [record, record] := ⟨by decide +kernel, by decide +kernel⟩
  refine ⟨hc, hfeature, fun scores hscores => ?_, fun fs hfound => ?_⟩
  · cases (batchScores_of_overloaded hc hload .none 0).symm.trans hscores
  · cases (detect_of_overloaded hc hload .none {} 0).symm.trans hfound

/-- Of three records one has no feature, and so it is neither scored nor flagged. -/
theorem detect_flags_first_two_of_three :
    let record (field value : String) : Record := ⟨[(field, .string value)]⟩
    let records := [record "amount" "1", record "note" "1", record "balance" "2"]
    let c : Settings := { seed := some 42 }
    c.check = .ok () ∧ ¬c.Overloaded records ∧
      ∃ scores fs, c.batchScores .none 0 records = .ok scores ∧
        c.detect .none {} 0 records = .found fs ∧
        scores.map Option.isSome = [true, false, true] ∧
        FlagsFirst c.scoreThreshold
          (max 1 (ceilCount (c.contamination * Float.ofNat (scores.countP Option.isSome))))
          scores fs := by
  intro record records c
  have hc : c.check = .ok () := by decide +kernel
  have hload : ¬c.Overloaded records := fun h => absurd h.1 (by decide)
  obtain ⟨scores, fs, hscores, hfound, hlen, hsome, hflags⟩ :=
    (detect_flags_first hc .none {} 0 records).2 hload
  refine ⟨hc, hload, scores, fs, hscores, hfound, ?_, hflags⟩
  obtain ⟨first, second, third, rfl⟩ := List.length_eq_three.1 hlen
  obtain ⟨_, hs, hfirst⟩ := hsome 0 (record "amount" "1") rfl
  obtain rfl := Option.some.inj hs
  obtain ⟨_, hs, hsecond⟩ := hsome 1 (record "note" "1") rfl
  obtain rfl := Option.some.inj hs
  obtain ⟨_, hs, hthird⟩ := hsome 2 (record "balance" "2") rfl
  obtain rfl := Option.some.inj hs
  have hnone : ¬second.isSome := fun h => absurd (hsecond.1 h) (by decide +kernel)
  rw [List.map_cons, List.map_cons, List.map_cons, List.map_nil, hfirst.2 (by decide +kernel),
    Bool.eq_false_iff.2 hnone, hthird.2 (by decide +kernel)]

end Isolation

end LedgerWatch
