import LedgerWatch.Proofs.Batch.Layouts
import LedgerWatch.Proofs.Text.Blanks

namespace LedgerWatch.Batch

def withoutReturn (line : List Char) : List Char :=
  if line.getLast? = some '\r' then line.dropLast else line

/-- The lines of a text. A line feed ends a line, alone or behind a carriage return; what stands
behind the last line feed is a line too, unless it is empty. -/
def linesOf (content : List Char) : List (List Char) :=
  (cut '\n' content).dropLast.map withoutReturn ++
    (cut '\n' content).getLast?.toList.filter (· ≠ [])

example : linesOf "a\r\n\r\n\nb\r".toList = ["a".toList, [], [], "b\r".toList] := by decide

/-- A line that is the text of an object, with its members as a record. -/
def HasRecord (line : List Char) (r : Record) : Prop :=
  Json.readMerged? (String.ofList line) = some r.toJson

/-- How a line without a record is refused: under its number if it is no JSON, else for the kind of
its value. -/
inductive Refusal (line : List Char) (number : ℕ) : Failure → Prop
  | unreadable (h : Json.readMerged? (String.ofList line) = none) :
      Refusal line number (.line number)
  | kind {j : Json} (h : Json.readMerged? (String.ofList line) = some j)
      (other : ∀ r : Record, j ≠ r.toJson) :
      Refusal line number
        (.refused (.invalidInput ("record must be a JSON object, got " ++ j.kind)))

def recordsFrom (start : ℕ) (lines : List (List Char)) : Except Failure (List Record) :=
  ((lines.zipIdx start).filter fun line => !line.1.all Text.isBlank).mapM recordOfLine

section Line

variable {line : List Char} {number : ℕ} {r : Record} {failure : Failure}

theorem all_isBlank_iff : line.all Text.isBlank = true ↔ Text.trim line = [] := by
  rw [Text.trim_eq_nil_iff, List.all_eq_true]

theorem recordOfLine_of_hasRecord (h : HasRecord line r) (number : ℕ) :
    recordOfLine (line, number) = .ok r := by
  unfold HasRecord at h
  simp only [recordOfLine, h]
  rfl

theorem Refusal.recordOfLine (h : Refusal line number failure) :
    recordOfLine (line, number) = .error failure := by
  cases h with
  | unreadable h => simp only [Batch.recordOfLine, h]
  | @kind j h other =>
    simp only [Batch.recordOfLine, h]
    cases j with
    | object members => exact absurd rfl (other ⟨members⟩)
    | _ => rfl

theorem hasRecord_or_refusal (line : List Char) (number : ℕ) :
    (∃ r, HasRecord line r) ∨ ∃ failure, Refusal line number failure := by
  cases h : Json.readMerged? (String.ofList line) with
  | none => exact .inr ⟨_, .unreadable h⟩
  | some j =>
    by_cases hobject : ∃ r : Record, j = r.toJson
    · obtain ⟨r, rfl⟩ := hobject
      exact .inl ⟨r, h⟩
    · exact .inr ⟨_, .kind h fun r hr => hobject ⟨r, hr⟩⟩

theorem eq_withoutReturn_or (line : List Char) :
    withoutReturn line = line ∨ line = withoutReturn line ++ ['\r'] := by
  unfold withoutReturn
  split
  · rename_i hlast
    exact .inr (List.dropLast_append_getLast? '\r' hlast).symm
  · exact .inl rfl

theorem all_isBlank_withoutReturn (line : List Char) :
    (withoutReturn line).all Text.isBlank = line.all Text.isBlank := by
  rcases eq_withoutReturn_or line with h | h
  · rw [h]
  · have hreturn : ['\r'].all Text.isBlank = true := rfl
    conv_rhs => rw [h, List.all_append, hreturn, Bool.and_true]

theorem recordOfLine_withoutReturn (line : List Char) (number : ℕ) :
    recordOfLine (withoutReturn line, number) = recordOfLine (line, number) := by
  rcases eq_withoutReturn_or line with h | h
  · rw [h]
  · have hlex : Json.lex? line = Json.lex? (withoutReturn line) := by
      conv_lhs => rw [h]
      exact Json.lex?_append_space _ rfl
    have hread : Json.readMerged? (String.ofList line) =
        Json.readMerged? (String.ofList (withoutReturn line)) := by
      simp only [Json.readMerged?, Json.read?, Json.readWanted?, Json.Draft.read?,
        String.toList_ofList, hlex]
    simp only [recordOfLine, hread]

end Line

section Lines

variable {line : List Char} {lines before after : List (List Char)} {start : ℕ} {failure : Failure}

theorem recordsFrom_cons_of_blank (h : line.all Text.isBlank = true) (start : ℕ)
    (lines : List (List Char)) :
    recordsFrom start (line :: lines) = recordsFrom (start + 1) lines := by
  rw [recordsFrom, List.zipIdx_cons, List.filter_cons_of_neg (by simp [h])]
  rfl

theorem recordsFrom_cons_of_not_blank (h : line.all Text.isBlank = false) (start : ℕ)
    (lines : List (List Char)) :
    recordsFrom start (line :: lines) = do
      let r ← recordOfLine (line, start)
      let rs ← recordsFrom (start + 1) lines
      return r :: rs := by
  rw [recordsFrom, List.zipIdx_cons, List.filter_cons_of_pos (by simp [h]), List.mapM_cons]
  rfl

theorem recordsFrom_map_withoutReturn (start : ℕ) (lines rest : List (List Char)) :
    recordsFrom start (lines.map withoutReturn ++ rest) = recordsFrom start (lines ++ rest) := by
  induction lines generalizing start with
  | nil => rfl
  | cons line lines ih =>
    have hblank := all_isBlank_withoutReturn line
    rw [List.map_cons, List.cons_append, List.cons_append]
    cases h : line.all Text.isBlank with
    | true =>
      rw [recordsFrom_cons_of_blank h, recordsFrom_cons_of_blank (hblank.trans h), ih]
    | false =>
      rw [recordsFrom_cons_of_not_blank h, recordsFrom_cons_of_not_blank (hblank.trans h), ih,
        recordOfLine_withoutReturn]

/-- An empty line at the end is passed over. -/
theorem recordsFrom_concat_nil (start : ℕ) (lines : List (List Char)) :
    recordsFrom start (lines ++ [[]]) = recordsFrom start lines := by
  simp [recordsFrom, List.zipIdx_append]

theorem ofLines?_eq (content : String) :
    ofLines? content = recordsFrom 1 (linesOf content.toList) := by
  rcases List.eq_nil_or_concat (cut '\n' content.toList) with hnil | ⟨front, last, hcut⟩
  · exact absurd hnil (cut_ne_nil _ _)
  rw [List.concat_eq_append] at hcut
  have hpieces : ofLines? content = recordsFrom 1 (front ++ [last]) := by
    rw [ofLines?, numberedLines, hcut]
    rfl
  rw [hpieces, linesOf, hcut, List.dropLast_concat, List.getLast?_concat, Option.toList_some,
    recordsFrom_map_withoutReturn]
  cases last with
  | nil =>
    rw [recordsFrom_concat_nil]
    simp
  | cons c last => rfl

theorem exists_recordsFrom_eq_ok
    (h : ∀ line ∈ lines, Text.trim line ≠ [] → ∃ r, HasRecord line r) (start : ℕ) :
    ∃ records, recordsFrom start lines = .ok records ∧
      List.Forall₂ HasRecord (lines.filter fun line => Text.trim line ≠ []) records := by
  induction lines generalizing start with
  | nil => exact ⟨[], rfl, .nil⟩
  | cons line lines ih =>
    obtain ⟨hline, hrest⟩ := List.forall_mem_cons.1 h
    obtain ⟨records, hrecords, hhas⟩ := ih hrest (start + 1)
    by_cases hblank : Text.trim line = []
    · refine ⟨records, ?_, ?_⟩
      · rw [recordsFrom_cons_of_blank (all_isBlank_iff.2 hblank), hrecords]
      · rwa [List.filter_cons_of_neg (by simpa using hblank)]
    · obtain ⟨r, hr⟩ := hline hblank
      refine ⟨r :: records, ?_, ?_⟩
      · rw [recordsFrom_cons_of_not_blank (Bool.eq_false_iff.2 (hblank ∘ all_isBlank_iff.1)),
          recordOfLine_of_hasRecord hr, hrecords]
        rfl
      · rw [List.filter_cons_of_pos (by simpa using hblank)]
        exact .cons hr hhas

/-- The first line that holds no record is refused, and the lines behind it are not read. -/
theorem recordsFrom_eq_error (h : ∀ line ∈ before, Text.trim line ≠ [] → ∃ r, HasRecord line r)
    (hline : Text.trim line ≠ []) (hrefusal : Refusal line (start + before.length) failure)
    (after : List (List Char)) :
    recordsFrom start (before ++ line :: after) = .error failure := by
  obtain ⟨records, hrecords, -⟩ := exists_recordsFrom_eq_ok h start
  have hnot : line.all Text.isBlank = false := Bool.eq_false_iff.2 (hline ∘ all_isBlank_iff.1)
  have hrest : recordsFrom (start + before.length) (line :: after) = .error failure := by
    rw [recordsFrom_cons_of_not_blank hnot, hrefusal.recordOfLine]
    rfl
  -- the lines in front and the lines behind are read one after the other
  unfold recordsFrom at hrecords hrest ⊢
  rw [List.zipIdx_append, List.filter_append, List.mapM_append, hrecords, hrest]
  rfl

/-- Lines up to the first one, if there is any, that is neither blank nor a record. -/
theorem hasRecords_or_exists_refusal (start : ℕ) (lines : List (List Char)) :
    (∀ line ∈ lines, Text.trim line ≠ [] → ∃ r, HasRecord line r) ∨
      ∃ before line after failure, lines = before ++ line :: after ∧
        (∀ line ∈ before, Text.trim line ≠ [] → ∃ r, HasRecord line r) ∧
        Text.trim line ≠ [] ∧ Refusal line (start + before.length) failure := by
  induction lines generalizing start with
  | nil => exact .inl (List.forall_mem_nil _)
  | cons line lines ih =>
    by_cases hline : Text.trim line ≠ [] → ∃ r, HasRecord line r
    · rcases ih (start + 1) with hall | ⟨before, bad, after, failure, rfl, hbefore, hbad, hrefusal⟩
      · exact .inl (List.forall_mem_cons.2 ⟨hline, hall⟩)
      · refine .inr ⟨line :: before, bad, after, failure, rfl,
          List.forall_mem_cons.2 ⟨hline, hbefore⟩, hbad, ?_⟩
        rwa [List.length_cons, Nat.add_comm before.length, ← Nat.add_assoc]
    · push Not at hline
      obtain ⟨hblank, hnone⟩ := hline
      rcases hasRecord_or_refusal line start with ⟨r, hr⟩ | ⟨failure, hfailure⟩
      · exact absurd hr (hnone r)
      · exact .inr ⟨[], line, lines, failure, rfl, List.forall_mem_nil _, hblank, hfailure⟩

end Lines

theorem ofPath_of_extension {path : String} {extension : List Char}
    (hpath : extension? path.toList = some extension)
    (hext : extension.map Char.toLower = "jsonl".toList) : Format.ofPath path = .lines := by
  rw [Format.ofPath, hpath, Option.map_some, hext, if_pos rfl]

/-- A file with a record on each line: it is read if and only if every line that is not blank is the
text of an object, and else the first line that is not is refused, whatever follows it. -/
theorem load?_lines {path : String} {extension : List Char}
    (hpath : extension? path.toList = some extension)
    (hext : extension.map Char.toLower = "jsonl".toList) (content : String) :
    ((∃ records, load? path (some content) = .ok records) ↔
      ∀ line ∈ linesOf content.toList, Text.trim line ≠ [] → ∃ r, HasRecord line r) ∧
    (∀ records, load? path (some content) = .ok records →
      List.Forall₂ HasRecord ((linesOf content.toList).filter fun line => Text.trim line ≠ [])
        records) ∧
    ∀ failure, load? path (some content) = .error failure →
      ∃ before line after, linesOf content.toList = before ++ line :: after ∧
        (∀ line ∈ before, Text.trim line ≠ [] → ∃ r, HasRecord line r) ∧
        Text.trim line ≠ [] ∧ Refusal line (before.length + 1) failure ∧
        ∀ (content' : String) (after' : List (List Char)),
          linesOf content'.toList = before ++ line :: after' →
          load? path (some content') = .error failure := by
  have hload : ∀ content : String, load? path (some content) =
      recordsFrom 1 (linesOf content.toList) := by
    intro content
    rw [load?, ofPath_of_extension hpath hext]
    exact ofLines?_eq content
  simp only [hload]
  rcases hasRecords_or_exists_refusal 1 (linesOf content.toList) with
    hall | ⟨before, line, after, failure, hlines, hbefore, hline, hrefusal⟩
  · obtain ⟨records, hrecords, hhas⟩ := exists_recordsFrom_eq_ok hall 1
    refine ⟨⟨fun _ => hall, fun _ => ⟨records, hrecords⟩⟩, ?_, ?_⟩
    · intro records' h
      rw [hrecords] at h
      rwa [← Except.ok.inj h]
    · intro failure h
      rw [hrecords] at h
      cases h
  · have herror : ∀ (content' : String) (after' : List (List Char)),
        linesOf content'.toList = before ++ line :: after' →
        recordsFrom 1 (linesOf content'.toList) = .error failure := by
      intro content' after' hlines'
      rw [hlines']
      exact recordsFrom_eq_error hbefore hline hrefusal after'
    have hfails := herror content after hlines
    have hnone : ∀ records, recordsFrom 1 (linesOf content.toList) ≠ .ok records := by
      intro records h
      rw [hfails] at h
      cases h
    refine ⟨⟨?_, fun hall => ?_⟩, fun records h => absurd h (hnone records),
      fun failure' h => ?_⟩
    · rintro ⟨records, h⟩
      exact absurd h (hnone records)
    · obtain ⟨records, hrecords, -⟩ := exists_recordsFrom_eq_ok hall 1
      exact absurd hrecords (hnone records)
    · rw [hfails] at h
      obtain rfl := Except.error.inj h
      exact ⟨before, line, after, hlines, hbefore, hline, by rwa [Nat.add_comm], herror⟩

/-- Two empty objects with a blank line between them. -/
theorem load?_lines_pair : ∃ records : List Record,
    load? "day.JsonL" (some "\x7b\x7d\r\n \t\n\x7b\x7d") = .ok records ∧ records.length = 2 := by
  have hlines : linesOf "\x7b\x7d\r\n \t\n\x7b\x7d".toList =
      [['\x7b', '\x7d'], [' ', '\t'], ['\x7b', '\x7d']] := by decide
  have hobject : HasRecord ['\x7b', '\x7d'] ⟨[]⟩ := rfl
  have hpath : extension? "day.JsonL".toList = some "JsonL".toList := by decide
  obtain ⟨hiff, hrecords, -⟩ := load?_lines hpath (by decide) "\x7b\x7d\r\n \t\n\x7b\x7d"
  have hall : ∀ line ∈ linesOf "\x7b\x7d\r\n \t\n\x7b\x7d".toList,
      Text.trim line ≠ [] → ∃ r, HasRecord line r := by
    rw [hlines]
    simp only [List.forall_mem_cons, List.not_mem_nil, false_implies, implies_true, and_true]
    exact ⟨fun _ => ⟨_, hobject⟩, fun h => absurd (by decide) h, fun _ => ⟨_, hobject⟩⟩
  obtain ⟨records, hload⟩ := hiff.2 hall
  refine ⟨records, hload, ?_⟩
  have hlength := (hrecords records hload).length_eq
  rw [hlines] at hlength
  exact hlength.symm.trans (by decide)

end LedgerWatch.Batch
