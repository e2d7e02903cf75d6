import LedgerWatch.Ensemble.Report
import LedgerWatch.Proofs.Counts
import LedgerWatch.Proofs.Scores.Shares

namespace LedgerWatch

theorem Severity.mem_all (s : Severity) : s ∈ all := by cases s <;> decide

theorem Method.mem_all (m : Method) : m ∈ all := by cases m <;> decide

theorem Severity.ctorIdx_injective : Function.Injective Severity.ctorIdx := by
  intro s t h
  cases s <;> cases t <;> first | rfl | cases h

theorem Method.ctorIdx_injective : Function.Injective Method.ctorIdx := by
  intro m n h
  cases m <;> cases n <;> first | rfl | cases h

instance : IsStrictTotalOrder Severity (· < ·) :=
  Sorted.isStrictTotalOrder_of_rank Severity.ctorIdx_injective fun _ _ => Iff.rfl

instance : IsStrictTotalOrder Method (· < ·) :=
  Sorted.isStrictTotalOrder_of_rank Method.ctorIdx_injective fun _ _ => Iff.rfl

namespace Ensemble

section Tallies

variable {κ : Type} [DecidableEq κ] {key : Finding → κ} {keys : List κ} {findings : List Finding}

def tally (key : Finding → κ) (keys : List κ) (findings : List Finding) : List (κ × Nat) :=
  keys.map fun k => (k, findings.countP fun f => key f == k)

theorem countP_key (k : κ) :
    (findings.countP fun f => key f == k) = (findings.map key).count k := by
  rw [List.count_eq_countP, List.countP_map]
  rfl

theorem sum_tally (hkeys : keys.Nodup) (hall : ∀ k, k ∈ keys) :
    ((tally key keys findings).map Prod.snd).sum = findings.length := by
  have hcounts : (tally key keys findings).map Prod.snd =
      keys.map fun k => (findings.map key).count k := by
    rw [tally, List.map_map]
    exact List.map_congr_left fun k _ => countP_key k
  rw [hcounts, Sorted.sum_map_count hkeys fun k _ => hall k, List.length_map]

theorem lookup_tally (hall : ∀ k, k ∈ keys) (k : κ) :
    (tally key keys findings).lookup k = some (findings.countP fun f => key f == k) :=
  List.lookup_graph (fun k => findings.countP fun f => key f == k) (hall k)

end Tallies

namespace Summary

variable (records : List Record) {findings findings' : List Finding}

theorem bySeverity_eq :
    (of records findings).bySeverity = tally Finding.severity Severity.all findings := by
  have hcounts : Sorted.countAmong Severity.all (findings.map Finding.severity) = _ :=
    Sorted.countAmong_eq (by decide) fun s _ => s.mem_all
  simp only [of, hcounts, tally, countP_key]

theorem byMethod_eq :
    (of records findings).byMethod = tally Finding.method Method.all findings := by
  have hcounts : Sorted.countAmong Method.all (findings.map Finding.method) = _ :=
    Sorted.countAmong_eq (by decide) fun m _ => m.mem_all
  simp only [of, hcounts, tally, countP_key]

theorem mem_byCategory_iff {category : String} {n : Nat} :
    (category, n) ∈ (of records findings).byCategory ↔
      0 < n ∧ n = findings.countP fun f => categoryOf records.toArray f == category := by
  rw [countP_key]
  exact Sorted.mem_count_iff

theorem of_perm (h : findings.Perm findings') : of records findings = of records findings' := by
  have hflagged := Sorted.distinct_congr fun i => (h.map Finding.record).mem_iff (a := i)
  have hcategories := Sorted.count_of_perm (h.map (categoryOf records.toArray))
  have hseverities : (of records findings).bySeverity = (of records findings').bySeverity := by
    simp only [bySeverity_eq, tally, h.countP_eq]
  have hmethods : (of records findings).byMethod = (of records findings').byMethod := by
    simp only [byMethod_eq, tally, h.countP_eq]
  simp only [of] at hseverities hmethods
  simp only [of, h.length_eq, hseverities, hmethods, hflagged, hcategories]

theorem flagged_eq_zero_iff : (of records findings).flagged = 0 ↔ findings = [] := by
  simp [of, Sorted.length_distinct]

theorem flagged_le_records (h : ∀ f ∈ findings, f.record < records.length) :
    (of records findings).flagged ≤ records.length :=
  Sorted.length_distinct_le_of_lt (List.forall_mem_map.2 h)

variable {records}

theorem rate_eq_zero_iff (hlen : records.length < 2 ^ 64) :
    (of records findings).rate = 0 ↔ findings = [] ∨ records = [] := by
  rw [← flagged_eq_zero_iff records, rate]
  split
  · rename_i hempty
    simp [List.eq_nil_of_length_eq_zero hempty]
  · rename_i hne
    have hpos : 0 < records.length := Nat.pos_of_ne_zero hne
    rw [or_iff_left (List.ne_nil_of_length_pos hpos)]
    exact share_eq_zero_iff hpos hlen

theorem rate_bounds (hlen : records.length < 2 ^ 64)
    (h : ∀ f ∈ findings, f.record < records.length) :
    0 ≤ (of records findings).rate ∧ (of records findings).rate ≤ 1 := by
  have hle := flagged_le_records records h
  rw [rate]
  split
  · exact ⟨Binary64.le_refl_of_not_isNaN rfl, Binary64.zero_le_one⟩
  · rename_i hne
    have hpos : 0 < records.length := Nat.pos_of_ne_zero hne
    exact ⟨(isScore_share (hle.trans_lt hlen) hpos).zero_le, share_le_one hpos hlen hle⟩

end Summary

/-- Every finding is counted once by its severity, once by its method and once by the category of
its record; every severity and every method has a count, and a category has one where it occurs.
The flagged records are the different ones among the findings. So where all of them are in the
batch, the share of flagged records is between zero and one; it is zero only without findings or
without records. None of it depends on the order of the findings. -/
theorem counts_add_up (records : List Record) (findings : List Finding) :
    let s := Summary.of records findings
    (s.anomalies = findings.length ∧ s.records = records.length) ∧
      ((s.bySeverity.map Prod.snd).sum = s.anomalies ∧
        (s.byMethod.map Prod.snd).sum = s.anomalies ∧
        (s.byCategory.map Prod.snd).sum = s.anomalies) ∧
      (∀ v, s.bySeverity.lookup v = some (findings.countP fun f => f.severity == v)) ∧
      (∀ m, s.byMethod.lookup m = some (findings.countP fun f => f.method == m)) ∧
      (∀ category n, (category, n) ∈ s.byCategory ↔
        0 < n ∧ n = findings.countP fun f => categoryOf records.toArray f == category) ∧
      s.flagged = (findings.map Finding.record).toFinset.card ∧
      s.flagged ≤ s.anomalies ∧
      ((∀ f ∈ findings, f.record < records.length) → s.flagged ≤ s.records ∧
        (records.length < 2 ^ 64 → 0 ≤ s.rate ∧ s.rate ≤ 1)) ∧
      (records.length < 2 ^ 64 → (s.rate = 0 ↔ findings = [] ∨ records = [])) ∧
      ∀ findings', findings.Perm findings' → Summary.of records findings' = s := by
  intro s
  refine ⟨⟨rfl, rfl⟩, ⟨?_, ?_, ?_⟩, ?_, ?_, fun category n => Summary.mem_byCategory_iff records,
    Sorted.length_distinct _, ?_, ?_, Summary.rate_eq_zero_iff,
    fun findings' h => (Summary.of_perm records h).symm⟩
  · rw [Summary.bySeverity_eq]
    exact sum_tally (by decide) Severity.mem_all
  · rw [Summary.byMethod_eq]
    exact sum_tally (by decide) Method.mem_all
  · exact (Sorted.sum_count _).trans (List.length_map _)
  · rw [Summary.bySeverity_eq]
    exact lookup_tally Severity.mem_all
  · rw [Summary.byMethod_eq]
    exact lookup_tally Method.mem_all
  · exact (Sorted.length_distinct_le _).trans (List.length_map _).le
  · exact fun h => ⟨Summary.flagged_le_records records h, fun hlen => Summary.rate_bounds hlen h⟩

/-- Two findings on one record and one on a record without a category. -/
theorem counts_add_up_three :
    let record (category : String) : Record := ⟨[("merchant_category", .string category)]⟩
    let records := [record "food", record "fuel", .empty]
    let finding (i : Nat) (score : Float) (m : Method) : Finding :=
      .of {} m i score (.similarity 0 (-score))
    let findings := [finding 0 0.9 .contextual, finding 0 0.3 .temporal, finding 2 0.5 .temporal]
    let s := Summary.of records findings
    (∀ f ∈ findings, f.record < records.length) ∧ records.length < 2 ^ 64 ∧
      s.flagged = 2 ∧ ("food", 2) ∈ s.byCategory ∧ ("unknown", 1) ∈ s.byCategory ∧
      0 ≤ s.rate ∧ s.rate ≤ 1 ∧ s.rate ≠ 0 ∧ Summary.of records findings.reverse = s := by
  intro record records finding findings s
  have hbatch : ∀ f ∈ findings, f.record < records.length := by decide
  have hlen : records.length < 2 ^ 64 := by decide
  obtain ⟨-, -, -, -, hcategory, hflagged, -, hinside, hzero, hperm⟩ :=
    counts_add_up records findings
  obtain ⟨-, hrate⟩ := hinside hbatch
  refine ⟨hbatch, hlen, hflagged.trans (by decide), (hcategory _ _).2 (by decide +kernel),
    (hcategory _ _).2 (by decide +kernel), (hrate hlen).1, (hrate hlen).2, ?_,
    hperm _ findings.reverse_perm.symm⟩
  exact fun h => ((hzero hlen).1 h).elim (by decide) (by decide)

end Ensemble

end LedgerWatch
