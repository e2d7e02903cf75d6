import LedgerWatch.Json.Decode
import LedgerWatch.Proofs.Json.Pretty
import LedgerWatch.Proofs.Json.Spelling
import LedgerWatch.Proofs.Lists

namespace LedgerWatch.Json

mutual

def draft : Json → Draft
  | .array items => .array (itemDrafts items)
  | .object members => .object (memberDrafts members)
  | .string s => .string (some s)
  | .number n => .number n.reread?
  | .bool b => .bool b
  | .null => .null

def itemDrafts : List Json → List Draft
  | [] => []
  | j :: js => draft j :: itemDrafts js

def memberDrafts : List (String × Json) → List (Option String × Draft)
  | [] => []
  | (n, j) :: ms => (some n, draft j) :: memberDrafts ms

end

section Drafts

open Draft

mutual

theorem foldlM_step_tokens : ∀ (j : Json) (fs : List Frame),
    ((tokens j).map Token.reread).foldlM Partial.step (.wantsValue fs) =
      some (.finished (draft j) fs)
  | .array items, fs => foldlM_step_itemTokens items fs
  | .object members, fs => foldlM_step_memberTokens members fs
  | .string _, _ => rfl
  | .number _, _ => rfl
  | .bool _, _ => rfl
  | .null, _ => rfl

theorem foldlM_step_itemTokens : ∀ (js : List Json) (fs : List Frame),
    ((itemTokens js).map Token.reread).foldlM Partial.step (.wantsItem fs) =
      some (.finished (.array (itemDrafts js)) fs)
  | [], _ => rfl
  | j :: js, fs => by
    rw [itemTokens, List.map_append, List.foldlM_append, Partial.foldlM_step_wantsItem
      (foldlM_step_tokens j (.array [] :: fs))]
    exact foldlM_step_moreItemTokens js (draft j) [] fs

theorem foldlM_step_moreItemTokens : ∀ (js : List Json) (d : Draft) (done : List Draft)
    (fs : List Frame), ((moreItemTokens js).map Token.reread).foldlM Partial.step
      (.finished d (.array done :: fs)) =
        some (.finished (.array (done.reverse ++ d :: itemDrafts js)) fs)
  | [], d, done, fs => by
    simp [moreItemTokens, itemDrafts, Token.reread, Partial.step]
  | j :: js, d, done, fs => by
    have hrest := foldlM_step_moreItemTokens js (draft j) (d :: done) fs
    show ((tokens j ++ moreItemTokens js).map Token.reread).foldlM Partial.step
      (.wantsValue (.array (d :: done) :: fs)) = _
    rw [List.map_append, List.foldlM_append, foldlM_step_tokens, Option.bind_eq_bind,
      Option.bind_some, hrest]
    simp [itemDrafts]

theorem foldlM_step_memberTokens : ∀ (ms : List (String × Json)) (fs : List Frame),
    ((memberTokens ms).map Token.reread).foldlM Partial.step (.wantsMember fs) =
      some (.finished (.object (memberDrafts ms)) fs)
  | [], _ => rfl
  | (n, j) :: ms, fs => by
    show ((tokens j ++ moreMemberTokens ms).map Token.reread).foldlM Partial.step
      (.wantsValue (.object [] (some n) :: fs)) = _
    rw [List.map_append, List.foldlM_append, foldlM_step_tokens]
    exact foldlM_step_moreMemberTokens ms (draft j) [] (some n) fs

theorem foldlM_step_moreMemberTokens : ∀ (ms : List (String × Json)) (d : Draft)
    (done : List (Option String × Draft)) (name : Option String) (fs : List Frame),
    ((moreMemberTokens ms).map Token.reread).foldlM Partial.step
      (.finished d (.object done name :: fs)) =
        some (.finished (.object (done.reverse ++ (name, d) :: memberDrafts ms)) fs)
  | [], d, done, name, fs => by
    simp [moreMemberTokens, memberDrafts, Token.reread, Partial.step]
  | (n, j) :: ms, d, done, name, fs => by
    have hrest := foldlM_step_moreMemberTokens ms (draft j) ((name, d) :: done) (some n) fs
    show ((tokens j ++ moreMemberTokens ms).map Token.reread).foldlM Partial.step
      (.wantsValue (.object ((name, d) :: done) (some n) :: fs)) = _
    rw [List.map_append, List.foldlM_append, foldlM_step_tokens, Option.bind_eq_bind,
      Option.bind_some, hrest]
    simp [memberDrafts]

end

end Drafts

theorem read?_pretty (j : Json) : Draft.read? j.pretty = some (draft j) := by
  rw [Draft.read?, lex?_pretty, Option.bind_some, Draft.ofTokens?, foldlM_step_tokens]
  rfl

theorem read?_compact (j : Json) : Draft.read? j.compact = some (draft j) := by
  rw [Draft.read?, lex?_compact, Option.bind_some, Draft.ofTokens?, foldlM_step_tokens]
  rfl

section Members

variable {known : List (String × Outline)} {room : ℕ} {names : List String}
  {ms : List (String × Json)}

theorem lookup_of_mem_of_nodup (hnodup : (known.map Prod.fst).Nodup) {k : String × Outline}
    (hk : k ∈ known) : known.lookup k.1 = some k.2 := by
  induction known with
  | nil => cases hk
  | cons l known ih =>
    obtain ⟨hl, hknown⟩ := List.nodup_cons.1 hnodup
    rcases List.mem_cons.1 hk with rfl | hk
    · exact List.lookup_cons_self
    · have hne : k.1 ≠ l.1 := fun heq => hl (heq ▸ List.mem_map_of_mem hk)
      rw [List.lookup_cons, beq_eq_false_iff_ne.2 hne]
      exact ih hknown hk

theorem selectMembers?_memberDrafts {ks : List (String × Outline)}
    (hks : ∀ k ∈ ks, known.lookup k.1 = some k.2) (h : ms.map Prod.fst = ks.map Prod.fst) :
    Draft.selectMembers? (.members known) room (memberDrafts ms) =
      (ms.zip ks).mapM fun p : (String × Json) × (String × Outline) =>
        (p.1.2.draft.select? p.2.2 room).map (Prod.mk p.1.1) := by
  induction ms generalizing ks with
  | nil => rfl
  | cons m ms ih =>
    cases ks with
    | nil => cases h
    | cons k ks =>
      obtain ⟨hname, hrest⟩ := List.cons_eq_cons.1 h
      obtain ⟨hk, hks⟩ := List.forall_mem_cons.1 hks
      have hwanted : (Outline.members known).member? m.1 = some k.2 := by
        rw [hname]
        exact hk
      rw [memberDrafts, Draft.selectMembers?, List.zip_cons_cons, List.mapM_cons, hwanted,
        ← ih hks hrest]
      simp only
      cases m.2.draft.select? k.2 room <;> rfl

theorem select?_draft_object (hnodup : (known.map Prod.fst).Nodup)
    (h : ms.map Prod.fst = known.map Prod.fst) :
    (object ms).draft.select? (.members known) (room + 1) =
      ((ms.zip known).mapM fun p : (String × Json) × (String × Outline) =>
        (p.1.2.draft.select? p.2.2 room).map (Prod.mk p.1.1)).map object :=
  congrArg (Option.map object)
    (selectMembers?_memberDrafts (fun _ hk => lookup_of_mem_of_nodup hnodup hk) h)

/-- Some of the known members, each once and in their order, are all taken. -/
theorem fields?_of_sublist (hnames : (ms.map Prod.fst).Sublist names) (hnodup : names.Nodup) :
    (object ms).fields? names = some ms := by
  have hall : ms.filter (fun m => names.contains m.1) = ms := by
    rw [List.filter_eq_self]
    intro m hm
    exact List.elem_iff.2 (hnames.subset (List.mem_map_of_mem hm))
  simp only [fields?, hall, if_pos (hnodup.sublist hnames)]

theorem fields?_object (hnames : ms.map Prod.fst = names) (hnodup : names.Nodup) :
    (object ms).fields? names = some ms :=
  fields?_of_sublist (hnames ▸ List.Sublist.refl _) hnodup

end Members

/-- What is selected where a double was written. -/
def rereadNumber? (x : Float) : Option Json := (ofFloat x).draft.select? .whole 0

/-- The double that is read in the text of another one. -/
def rereadFloat? (x : Float) : Option Float := (read? (ofFloat x).pretty).bind float?

theorem select?_draft_ofFloat (x : Float) (o : Outline) (room : ℕ) :
    (ofFloat x).draft.select? o room = rereadNumber? x := by
  unfold rereadNumber? ofFloat
  split <;> rfl

theorem rereadFloat?_eq (x : Float) : rereadFloat? x = (rereadNumber? x).bind float? := by
  rw [rereadFloat?, read?, readWanted?, read?_pretty, Option.bind_some, select?_draft_ofFloat]

theorem select?_draft_ofWord (n : UInt64) (o : Outline) (room : ℕ) :
    (ofWord n).draft.select? o room = some (ofWord n) := by
  rw [ofWord]
  simp only [draft, Number.reread?, Number.number?_literal_whole, Draft.select?, Option.map_some]

theorem word?_ofWord (n : UInt64) : (ofWord n).word? = some n := by
  simp [word?, nat?, ofWord]

theorem select?_draft_optional (n : Option UInt64) (o : Outline) (room : ℕ) :
    ((n.map ofWord).getD .null).draft.select? o room = some ((n.map ofWord).getD .null) := by
  cases n with
  | none => rfl
  | some n => exact select?_draft_ofWord n o room

theorem optional?_word (n : Option UInt64) :
    ((n.map ofWord).getD .null).optional? word? = some n := by
  cases n with
  | none => rfl
  | some n => exact congrArg (Option.map some) (word?_ofWord n)

theorem float?_ofFloat {x : Float} (h : x.isFinite = true) : (ofFloat x).float? = some x := by
  rw [ofFloat, dif_pos h]
  rfl

theorem names_and_lookup_of_mapM {f : Json → Option Json} {ms fs : List (String × Json)}
    (h : (ms.mapM fun m => (f m.2).map (Prod.mk m.1)) = some fs) :
    fs.map Prod.fst = ms.map Prod.fst ∧ ∀ n, fs.lookup n = (ms.lookup n).bind f := by
  induction ms generalizing fs with
  | nil =>
    obtain rfl : [] = fs := by simpa using h
    exact ⟨rfl, fun _ => rfl⟩
  | cons m ms ih =>
    rw [List.mapM_cons, Option.bind_eq_bind, Option.bind_eq_some_iff] at h
    obtain ⟨k, hk, h⟩ := h
    obtain ⟨ks, hks, h⟩ := Option.bind_eq_some_iff.1 h
    obtain ⟨j, hj, rfl⟩ := Option.map_eq_some_iff.1 hk
    obtain rfl := Option.some.inj h
    obtain ⟨hnames, hlookup⟩ := ih hks
    refine ⟨by rw [List.map_cons, List.map_cons, hnames], fun n => ?_⟩
    rw [List.lookup_cons, List.lookup_cons]
    cases n == m.1 with
    | true => exact hj.symm
    | false => exact hlookup n

section Reread

variable {α : Type} {ms : List (String × Json)} {names : List String} {room : ℕ}

theorem select?_draft_ofNames (hnames : ms.map Prod.fst = names) (hnodup : names.Nodup) :
    (object ms).draft.select? (.ofNames names) (room + 1) =
      (ms.mapM fun m : String × Json =>
        (m.2.draft.select? .whole room).map (Prod.mk m.1)).map object := by
  subst hnames
  have hzip : ms.zip ((ms.map Prod.fst).map fun n => (n, Outline.whole)) =
      ms.map fun m => (m, m.1, .whole) := by
    have hmap := List.zip_map' (l := ms) (f := id) (g := fun m => (m.1, Outline.whole))
    simpa [Function.comp_def] using hmap
  rw [Outline.ofNames, select?_draft_object (by simpa [Function.comp_def] using hnodup) (by simp),
    hzip, List.mapM_map]
  rfl

/-- Fields that are read where they were written. Each of them is a double, read behind its own
text, or kept; nothing is read where one of the doubles is not. -/
theorem bind_select?_draft {floats : List Float} {read : Fields → Option α} {result : Option α}
    (hnames : ms.map Prod.fst = names) (hnodup : names.Nodup)
    (hmembers : ∀ m ∈ ms, (∃ x ∈ floats, m.2 = ofFloat x) ∨
      m.2.draft.select? .whole room = some m.2)
    (hnone : ∀ x ∈ floats, rereadFloat? x = none → result = none)
    (hread : ∀ fs : Fields, (∀ {n j}, ms.lookup n = some j → ∀ {β : Type} (f : Json → Option β)
      (default : β), fs.withDefault n f default = (j.draft.select? .whole room).bind f) →
        read fs = result) :
    (((object ms).draft.select? (.ofNames names) (room + 1)).bind fun j =>
      (j.fields? names).bind read) = result := by
  rw [select?_draft_ofNames hnames hnodup]
  cases hselected : ms.mapM fun m => (m.2.draft.select? .whole room).map (Prod.mk m.1) with
  | none =>
    have hmissing : ¬∀ m ∈ ms, ((m.2.draft.select? .whole room).map (Prod.mk m.1)).isSome := by
      rw [← Lists.isSome_mapM_iff, hselected]
      exact Bool.false_ne_true
    simp only [not_forall, Option.isSome_map, Bool.not_eq_true, Option.isSome_eq_false_iff,
      Option.isNone_iff_eq_none] at hmissing
    obtain ⟨m, hm, hmissing⟩ := hmissing
    rcases hmembers m hm with ⟨x, hx, hfloat⟩ | hkept
    · rw [hfloat, select?_draft_ofFloat] at hmissing
      have hunread : rereadFloat? x = none := by rw [rereadFloat?_eq, hmissing, Option.bind_none]
      exact (hnone x hx hunread).symm
    · cases hkept.symm.trans hmissing
  | some fs =>
    obtain ⟨hfs, hlookup⟩ :=
      names_and_lookup_of_mapM (f := fun j => j.draft.select? .whole room) hselected
    show ((object fs).fields? names).bind read = result
    rw [fields?_object (hfs.trans hnames) hnodup, Option.bind_some]
    apply hread
    intro n j hj β f default
    have hsome : (j.draft.select? .whole room).isSome := by
      obtain ⟨front, back, rfl, -⟩ := List.lookup_eq_some_iff.1 hj
      have hall := Lists.isSome_mapM_iff.1 (hselected ▸ rfl :
        ((front ++ (n, j) :: back).mapM fun m : String × Json =>
          (m.2.draft.select? .whole room).map (Prod.mk m.1)).isSome)
      simpa using hall (n, j) (by simp)
    obtain ⟨k, hk⟩ := Option.isSome_iff_exists.1 hsome
    simp only [Fields.withDefault, hlookup, hj, Option.bind_some, hk]

end Reread

/-- A finite double whose digits and power of ten, as they are written, are doubles too. -/
def HasShortLiteral (x : Float) : Prop :=
  ∃ h : x.isFinite = true, (Number.real x h).literal.IsShort

instance (x : Float) : Decidable (HasShortLiteral x) :=
  inferInstanceAs (Decidable (∃ _ : x.isFinite = true, _))

theorem rereadFloat?_of_short {x : Float} (h : HasShortLiteral x) : rereadFloat? x = some x := by
  obtain ⟨hfinite, hshort⟩ := h
  have hnumber : ofFloat x = .number (.real x hfinite) := dif_pos hfinite
  rw [rereadFloat?_eq, rereadNumber?, hnumber, draft, Number.reread?_of_isShort hfinite hshort]
  rfl

end LedgerWatch.Json
