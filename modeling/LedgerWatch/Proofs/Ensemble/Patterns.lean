import LedgerWatch.Ensemble.Report
import LedgerWatch.Proofs.Counts
import LedgerWatch.Proofs.Text.Bytes

namespace LedgerWatch.Ensemble

def stateOf? (records : List Record) (f : Finding) : Option String :=
  (records[f.record]?).bind Record.merchantState?

/-- How many findings are in a state. -/
def crowd (records : List Record) (findings : List Finding) (state : String) : Nat :=
  findings.countP fun f => stateOf? records f == some state

def dated (findings : List Finding) : Nat := findings.countP fun f => f.method == .temporal

namespace PatternSettings

/-- How many findings are on records of high value. -/
def valuable (c : PatternSettings) (records : List Record) (findings : List Finding) : Nat :=
  findings.countP (c.isHighValue records.toArray)

section Counts

variable {c : PatternSettings} {records : List Record} {findings : List Finding}

theorem isHighValue_iff {f : Finding} : c.isHighValue records.toArray f ↔
    ∃ r amount, records[f.record]? = some r ∧ r.amount? = some amount ∧ c.highValue < amount := by
  unfold isHighValue recordOf?
  rw [List.getElem?_toArray]
  cases records[f.record]? with
  | none => simp
  | some r => cases hr : r.amount? <;> simp [hr]

theorem states_eq (records : List Record) (findings : List Finding) :
    states records.toArray findings = Sorted.count (findings.filterMap (stateOf? records)) := by
  simp only [states, recordOf?, List.getElem?_toArray]
  rfl

theorem mem_states_iff {state : String} {n : Nat} :
    (state, n) ∈ states records.toArray findings ↔ 0 < n ∧ n = crowd records findings state := by
  rw [states_eq, Sorted.mem_count_iff, List.count_filterMap]
  rfl

variable (c records findings)

def crowdedStates : List String :=
  ((states records.toArray findings).filter fun s => c.geographicMin.toNat < s.2).map Prod.fst

theorem pairwise_crowdedStates : (c.crowdedStates records findings).Pairwise (· < ·) := by
  rw [crowdedStates, states_eq]
  exact (Sorted.increasing_count _).keys.sublist (List.filter_sublist.map Prod.fst)

variable {c records findings} in
theorem mem_crowdedStates_iff {state : String} :
    state ∈ c.crowdedStates records findings ↔
      c.geographicMin.toNat < crowd records findings state := by
  simp only [crowdedStates, List.mem_map, List.mem_filter, decide_eq_true_eq, Prod.exists,
    mem_states_iff]
  constructor
  · rintro ⟨s, n, ⟨⟨-, rfl⟩, habove⟩, rfl⟩
    exact habove
  · intro habove
    exact ⟨state, _, ⟨⟨Nat.zero_lt_of_lt habove, rfl⟩, habove⟩, rfl⟩

/-- The patterns kind by kind, each with the number of its findings. -/
theorem patterns_eq : c.patterns records findings =
    (if 0 < c.valuable records findings then
      [.highValue c.highValue (c.valuable records findings)] else []) ++
      ((c.crowdedStates records findings).map fun state =>
        .geographic state (crowd records findings state)) ++
      if c.temporalMin.toNat < dated findings then [.temporal (dated findings)] else [] := by
  have hcrowded : ((states records.toArray findings).filter fun s =>
      c.geographicMin.toNat < s.2).map (fun s => Pattern.geographic s.1 s.2) =
        (c.crowdedStates records findings).map fun state =>
          .geographic state (crowd records findings state) := by
    rw [crowdedStates, List.map_map]
    apply List.map_congr_left
    intro s hs
    rw [Function.comp, ← (mem_states_iff.1 (List.mem_of_mem_filter hs)).2]
  rw [← hcrowded]
  rfl

end Counts

section Changes

variable {c : PatternSettings} {records : List Record} {findings findings' : List Finding}

theorem mem_patterns_iff {p : Pattern} : p ∈ c.patterns records findings ↔
    (0 < c.valuable records findings ∧
      p = .highValue c.highValue (c.valuable records findings)) ∨
    (∃ state, c.geographicMin.toNat < crowd records findings state ∧
      p = .geographic state (crowd records findings state)) ∨
    c.temporalMin.toNat < dated findings ∧ p = .temporal (dated findings) := by
  simp only [patterns_eq, List.mem_append, List.mem_map, mem_crowdedStates_iff,
    List.mem_ite_nil_right, List.mem_singleton, or_assoc, eq_comm (b := p)]

theorem patterns_of_perm (h : findings.Perm findings') :
    c.patterns records findings' = c.patterns records findings := by
  have hcrowd : ∀ state, crowd records findings' state = crowd records findings state :=
    fun _ => h.symm.countP_eq _
  have hstates : c.crowdedStates records findings' = c.crowdedStates records findings := by
    rw [crowdedStates, crowdedStates, states_eq, states_eq,
      Sorted.count_of_perm (h.symm.filterMap _)]
  have hvaluable : c.valuable records findings' = c.valuable records findings := h.symm.countP_eq _
  have hdated : dated findings' = dated findings := h.symm.countP_eq _
  simp only [patterns_eq, hstates, hcrowd, hvaluable, hdated]

/-- More findings lose no pattern, and none of the patterns counts fewer of them. -/
theorem exists_pattern_of_subperm (h : findings.Subperm findings') {p : Pattern}
    (hp : p ∈ c.patterns records findings) : ∃ q ∈ c.patterns records findings',
      q.kind = p.kind ∧ q.key? = p.key? ∧ p.count ≤ q.count := by
  rcases mem_patterns_iff.1 hp with ⟨hpos, rfl⟩ | ⟨state, habove, rfl⟩ | ⟨habove, rfl⟩
  · have hle : c.valuable records findings ≤ c.valuable records findings' := h.countP_le _
    exact ⟨_, mem_patterns_iff.2 (.inl ⟨hpos.trans_le hle, rfl⟩), rfl, rfl, hle⟩
  · have hle : crowd records findings state ≤ crowd records findings' state := h.countP_le _
    exact ⟨_, mem_patterns_iff.2 (.inr (.inl ⟨state, habove.trans_le hle, rfl⟩)), rfl, rfl, hle⟩
  · have hle : dated findings ≤ dated findings' := h.countP_le _
    exact ⟨_, mem_patterns_iff.2 (.inr (.inr ⟨habove.trans_le hle, rfl⟩)), rfl, rfl, hle⟩

end Changes

/-- First a pattern of the findings on records of high value, where there is one; then one for each
state with more findings than the settings allow, in the order of the bytes of its name; then one
of the findings by date, where there are more of them than the settings allow. The order of the
findings does not matter, and more of them lose no pattern and lower no count. -/
theorem patterns_of_findings (c : PatternSettings) (records : List Record)
    (findings : List Finding) :
    (∀ f, c.isHighValue records.toArray f ↔ ∃ r amount,
      records[f.record]? = some r ∧ r.amount? = some amount ∧ c.highValue < amount) ∧
    (∃ states : List String,
      (states.Pairwise fun s t => Text.bytes s < Text.bytes t) ∧
      (∀ state, state ∈ states ↔ c.geographicMin.toNat < crowd records findings state) ∧
      c.patterns records findings =
        (if 0 < c.valuable records findings then
          [.highValue c.highValue (c.valuable records findings)] else []) ++
          (states.map fun state => .geographic state (crowd records findings state)) ++
          if c.temporalMin.toNat < dated findings then [.temporal (dated findings)] else []) ∧
    (∀ findings', findings.Perm findings' →
      c.patterns records findings' = c.patterns records findings) ∧
    ∀ findings', findings.Subperm findings' → ∀ p ∈ c.patterns records findings,
      ∃ q ∈ c.patterns records findings',
        q.kind = p.kind ∧ q.key? = p.key? ∧ p.count ≤ q.count :=
  ⟨fun _ => isHighValue_iff,
    ⟨c.crowdedStates records findings,
      (c.pairwise_crowdedStates records findings).imp Text.bytes_lt_bytes,
      fun _ => mem_crowdedStates_iff, c.patterns_eq records findings⟩,
    fun _ => patterns_of_perm, fun _ h _ => exists_pattern_of_subperm h⟩

/-- Twelve findings by date in one state and one of another kind on a record of high value; then the
same ones the other way round and one more. -/
theorem patterns_of_findings_nevada :
    let record (amount state : String) : Record :=
      ⟨[("amount", .string amount), ("merchant_state", .string state)]⟩
    let records := List.replicate 12 (record "100" "NV") ++ [record "5000" "OR"]
    let finding (m : Method) (i : Nat) : Finding := .of {} m i 0.3 (.similarity 0 0)
    let findings := (List.range 12).map (finding .temporal) ++ [finding .contextual 12]
    let more := finding .contextual 12 :: findings.reverse
    let c : PatternSettings := {}
    (c.patterns records findings).map (fun p => (p.kind, p.key?, p.count)) =
        [("high_value", none, 1), ("geographic_clustering", some "NV", 12),
          ("temporal_clustering", none, 12)] ∧
      findings.Subperm more ∧
      ∃ q ∈ c.patterns records more, q.key? = some "NV" ∧ 12 ≤ q.count := by
  intro record records finding findings more c
  have hpatterns : (c.patterns records findings).map (fun p => (p.kind, p.key?, p.count)) =
      [("high_value", none, 1), ("geographic_clustering", some "NV", 12),
        ("temporal_clustering", none, 12)] := by decide +kernel
  have hmore : findings.Subperm more :=
    findings.reverse_perm.symm.subperm.trans (List.sublist_cons_self _ _).subperm
  refine ⟨hpatterns, hmore, ?_⟩
  obtain ⟨p, hp, heq⟩ : ∃ p ∈ c.patterns records findings,
      (p.kind, p.key?, p.count) = ("geographic_clustering", some "NV", 12) :=
    List.mem_map.1 (hpatterns ▸ by decide)
  obtain ⟨-, hkey, hcount⟩ := Prod.mk.inj heq |>.imp_right Prod.mk.inj
  obtain ⟨q, hq, -, hkey', hcount'⟩ :=
    (patterns_of_findings c records findings).2.2.2 more hmore p hp
  exact ⟨q, hq, hkey'.trans hkey, hcount ▸ hcount'⟩

end PatternSettings

end LedgerWatch.Ensemble
