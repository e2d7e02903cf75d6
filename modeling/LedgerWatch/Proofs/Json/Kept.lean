import LedgerWatch.Proofs.Json.Drafts

namespace LedgerWatch.Json

/-- Read again as it was written, with room for so many open arrays and objects. -/
def Kept (room : ℕ) (j : Json) : Prop := j.draft.select? .whole room = some j

variable {room n : ℕ} {x : Float} {o : Outline} {js : List Json} {ms : List (String × Json)}

theorem kept_string (room : ℕ) (s : String) : Kept room (.string s) := rfl

theorem inRange_natCast (hn : n < UInt64.size) : Number.InRange n := by
  have hsize : UInt64.size = 0x10000000000000000 := rfl
  constructor <;> omega

theorem ofNat_eq_whole (hn : n < UInt64.size) :
    ofNat n = .number (.whole n (inRange_natCast hn)) := by
  rw [ofNat, ofInt, dif_pos]

theorem kept_ofNat (room : ℕ) (hn : n < UInt64.size) : Kept room (ofNat n) := by
  rw [Kept, ofNat_eq_whole hn]
  simp only [draft, Number.reread?, Number.number?_literal_whole, Draft.select?, Option.map_some]

theorem nat?_ofNat (hn : n < UInt64.size) : (ofNat n).nat? = some n := by
  rw [ofNat_eq_whole hn]
  simp [nat?]

theorem Literal.exists_of_real? {l : Literal} {number : Number} (h : l.real? = some number) :
    ∃ y hy, number = .real y hy := by
  obtain ⟨y, -, hsigned⟩ := Option.bind_eq_some_iff.1 h
  simp only [signed] at hsigned
  by_cases hfinite : (if l.negative then -y else y).isFinite = true
  · rw [dif_pos hfinite] at hsigned
    exact ⟨_, hfinite, (Option.some.inj hsigned).symm⟩
  · rw [dif_neg hfinite] at hsigned
    cases hsigned

theorem isFinite_of_rereadFloat? (h : rereadFloat? x = some x) : x.isFinite = true := by
  by_contra hnone
  have hnull : ofFloat x = .null := dif_neg hnone
  rw [rereadFloat?_eq, rereadNumber?, hnull] at h
  cases h

theorem kept_ofFloat (room : ℕ) (h : rereadFloat? x = some x) : Kept room (ofFloat x) := by
  have hnumber : ofFloat x = .number (.real x (isFinite_of_rereadFloat? h)) := dif_pos _
  rw [Kept, select?_draft_ofFloat]
  rw [rereadFloat?_eq] at h
  obtain ⟨j, hj, hfloat⟩ := Option.bind_eq_some_iff.1 h
  rw [hj]
  rw [rereadNumber?, hnumber, draft, Draft.select?, Number.reread?, Number.literal,
    Literal.number?_ofScientific] at hj
  obtain ⟨number, hreal, rfl⟩ := Option.map_eq_some_iff.1 hj
  obtain ⟨y, hy, rfl⟩ := Literal.exists_of_real? hreal
  obtain rfl : y = x := Option.some.inj hfloat
  rw [hnumber]

theorem itemDrafts_eq_map (js : List Json) : itemDrafts js = js.map draft := by
  induction js with
  | nil => rfl
  | cons j js ih => rw [itemDrafts, ih, List.map_cons]

theorem kept_array (h : ∀ j ∈ js, Kept room j) : Kept (room + 1) (.array js) := by
  have hitems : Draft.selectItems? .whole room 0 (itemDrafts js) = some js := by
    apply Draft.selectItems?_whole
    rw [itemDrafts_eq_map, List.forall₂_map_left_iff, List.forall₂_same]
    exact h
  exact congrArg (Option.map Json.array) hitems

theorem selectMembers?_of_kept (hwanted : ∀ m ∈ ms, o.member? m.1 = some .whole)
    (h : ∀ m ∈ ms, Kept room m.2) : Draft.selectMembers? o room (memberDrafts ms) = some ms := by
  induction ms with
  | nil => rfl
  | cons m ms ih =>
    obtain ⟨hname, hnames⟩ := List.forall_mem_cons.1 hwanted
    obtain ⟨hm, hms⟩ := List.forall_mem_cons.1 h
    have hvalue : m.2.draft.select? .whole room = some m.2 := hm
    rw [memberDrafts, Draft.selectMembers?, hname]
    simp only [hvalue, ih hnames hms, Option.bind_eq_bind, Option.bind_some, Option.pure_def]

theorem kept_object (h : ∀ m ∈ ms, Kept room m.2) : Kept (room + 1) (.object ms) :=
  congrArg (Option.map Json.object) (selectMembers?_of_kept (fun _ _ => rfl) h)

theorem member?_ofNames {names : List String} {name : String} (h : name ∈ names) :
    (Outline.ofNames names).member? name = some .whole :=
  List.lookup_graph (fun _ => Outline.whole) h

/-- The text of an object whose names are all wanted, in either layout. -/
theorem readWanted?_of_kept {names : List String} (hnames : ∀ m ∈ ms, m.1 ∈ names)
    (h : ∀ m ∈ ms, Kept (maxDepth - 1) m.2) :
    readWanted? (.ofNames names) (object ms).compact = some (.object ms) ∧
      readWanted? (.ofNames names) (object ms).pretty = some (.object ms) := by
  have hselect : (object ms).draft.select? (.ofNames names) maxDepth = some (.object ms) :=
    congrArg (Option.map Json.object)
      (selectMembers?_of_kept (fun m hm => member?_ofNames (hnames m hm)) h)
  rw [readWanted?, readWanted?, read?_compact, read?_pretty]
  exact ⟨hselect, hselect⟩

end LedgerWatch.Json
