import LedgerWatch.Batch
import LedgerWatch.Proofs.Json.Spelling

namespace LedgerWatch.Batch

/-- A text of one line that spells a value, with room for the bracket of an array around it. -/
structure IsItem (text : String) : Prop where
  single_line : '\n' ∉ text.toList
  value : ((Json.Draft.read? text).bind (Json.Draft.select? .whole (Json.maxDepth - 1))).isSome

/-- Lines that hold some texts in order, each on a line of its own; all other lines are blank. A
line may end in a carriage return. -/
inductive Laid : List String → List String → Prop
  | nil : Laid [] []
  | blank {line : String} {texts lines : List String} (single_line : '\n' ∉ line.toList)
      (blank : line.toList.all Text.isBlank) (rest : Laid texts lines) : Laid texts (line :: lines)
  | text (text : String) {texts lines : List String} (rest : Laid texts lines) :
      Laid (text :: texts) (text :: lines)
  | carriage (text : String) {texts lines : List String} (rest : Laid texts lines) :
      Laid (text :: texts) ((text ++ "\r") :: lines)

/-- The content of a file with these lines. -/
def linesText (lines : List String) : String := "\n".intercalate lines

/-- The text of the array whose items have these texts. -/
def arrayText (texts : List String) : String := "[" ++ ",".intercalate texts ++ "]"

section Cut

variable {mark : Char} {piece : List Char}

theorem cut_of_not_mem (h : mark ∉ piece) : cut mark piece = [piece] := by
  induction piece with
  | nil => rfl
  | cons c piece ih =>
    obtain ⟨hc, hpiece⟩ := List.ne_and_not_mem_of_not_mem_cons h
    rw [cut_cons, if_neg hc.symm, ih hpiece]
    rfl

theorem cut_append_cons (h : mark ∉ piece) (s : List Char) :
    cut mark (piece ++ mark :: s) = piece :: cut mark s := by
  induction piece with
  | nil => rw [List.nil_append, cut_cons, if_pos rfl]
  | cons c piece ih =>
    obtain ⟨hc, hpiece⟩ := List.ne_and_not_mem_of_not_mem_cons h
    rw [List.cons_append, cut_cons, if_neg hc.symm, ih hpiece]
    rfl

theorem cut_intercalate {pieces : List (List Char)} (hne : pieces ≠ [])
    (h : ∀ piece ∈ pieces, mark ∉ piece) : cut mark ([mark].intercalate pieces) = pieces := by
  induction pieces with
  | nil => exact absurd rfl hne
  | cons piece pieces ih =>
    obtain ⟨hpiece, hpieces⟩ := List.forall_mem_cons.1 h
    cases pieces with
    | nil => rw [List.intercalate_singleton, cut_of_not_mem hpiece]
    | cons next pieces =>
      rw [List.intercalate_cons_cons, List.append_assoc, List.singleton_append,
        cut_append_cons hpiece, ih (List.cons_ne_nil _ _) hpieces]

end Cut

section Lines

variable {texts lines : List String} {js : List Json}

/-- The value of an item, in the three steps of reading it. -/
def Reads (text : String) (j : Json) : Prop :=
  ∃ ts d, Json.Spells (Json.maxDepth - 1) text.toList ts d j

theorem IsItem.exists_reads {text : String} (h : IsItem text) : ∃ j, Reads text j := by
  obtain ⟨j, hj⟩ := Option.isSome_iff_exists.1 h.value
  obtain ⟨d, hd, hselected⟩ := Option.bind_eq_some_iff.1 hj
  obtain ⟨ts, hlexed, hspelled⟩ := Option.bind_eq_some_iff.1 hd
  exact ⟨j, ts, d, hlexed, hspelled, hselected⟩

theorem exists_forall₂_reads (h : ∀ text ∈ texts, IsItem text) :
    ∃ js, List.Forall₂ Reads texts js := by
  induction texts with
  | nil => exact ⟨[], .nil⟩
  | cons text texts ih =>
    obtain ⟨htext, hrest⟩ := List.forall_mem_cons.1 h
    obtain ⟨j, hj⟩ := htext.exists_reads
    obtain ⟨js, hjs⟩ := ih hrest
    exact ⟨j :: js, .cons hj hjs⟩

theorem Reads.readMerged? {text : String} {j : Json} (h : Reads text j) :
    Json.readMerged? text = some j.merged := by
  obtain ⟨ts, d, hspells⟩ := h
  simpa using hspells.succ.readMerged?

theorem map_readMerged? (h : List.Forall₂ Reads texts js) :
    texts.map Json.readMerged? = (js.map Json.merged).map some := by
  induction h with
  | nil => rfl
  | cons hfirst _ ih => rw [List.map_cons, List.map_cons, List.map_cons, ih, hfirst.readMerged?]

theorem Reads.append_carriage {text : String} {j : Json} (h : Reads text j) :
    Reads (text ++ "\r") j := by
  obtain ⟨ts, d, hspells⟩ := h
  have hspace : Json.isSpace '\r' = true := rfl
  exact ⟨ts, d, by simpa using hspells.append_space hspace⟩

theorem Reads.not_blank {text : String} {j : Json} (h : Reads text j) :
    text.toList.all Text.isBlank = false := by
  obtain ⟨ts, d, hspells⟩ := h
  simpa using hspells.exists_not_isBlank

theorem Laid.single_line (hlaid : Laid texts lines) (htexts : ∀ text ∈ texts, '\n' ∉ text.toList) :
    ∀ line ∈ lines, '\n' ∉ line.toList := by
  induction hlaid with
  | nil => exact List.forall_mem_nil _
  | blank hline _ _ ih => exact List.forall_mem_cons.2 ⟨hline, ih htexts⟩
  | text text _ ih =>
    obtain ⟨htext, hrest⟩ := List.forall_mem_cons.1 htexts
    exact List.forall_mem_cons.2 ⟨htext, ih hrest⟩
  | carriage text _ ih =>
    obtain ⟨htext, hrest⟩ := List.forall_mem_cons.1 htexts
    exact List.forall_mem_cons.2 ⟨by simpa using htext, ih hrest⟩

/-- What is read from numbered lines, blank ones passed over. -/
def LinesRead (numbered : List (List Char × Nat)) (js : List Json) : Prop :=
  List.Forall₂ (fun line j => Json.readMerged? (String.ofList line.1) = some j.merged)
    (numbered.filter fun line => !line.1.all Text.isBlank) js

theorem LinesRead.cons {line : String} {j : Json} {numbered : List (List Char × Nat)}
    (hline : Reads line j) (hrest : LinesRead numbered js) (number : Nat) :
    LinesRead ((line.toList, number) :: numbered) (j :: js) := by
  have hread : Json.readMerged? (String.ofList line.toList) = some j.merged := by
    rw [String.ofList_toList]
    exact hline.readMerged?
  rw [LinesRead, List.filter_cons_of_pos (by simp [hline.not_blank])]
  exact .cons hread hrest

theorem Laid.linesRead (hlaid : Laid texts lines) (hreads : List.Forall₂ Reads texts js)
    (start : Nat) : LinesRead ((lines.map String.toList).zipIdx start) js := by
  induction hlaid generalizing js start with
  | nil =>
    cases hreads
    exact .nil
  | blank _ hblank _ ih =>
    rw [List.map_cons, List.zipIdx_cons, LinesRead, List.filter_cons_of_neg (by simp [hblank])]
    exact ih hreads (start + 1)
  | text text _ ih =>
    cases hreads with
    | cons hread hrest => exact .cons hread (ih hrest (start + 1)) start
  | carriage text _ ih =>
    cases hreads with
    | cons hread hrest => exact .cons hread.append_carriage (ih hrest (start + 1)) start

theorem linesRead_linesText (hlaid : Laid texts lines) (htexts : ∀ text ∈ texts, IsItem text)
    (hreads : List.Forall₂ Reads texts js) :
    List.Forall₂ (fun line j => Json.readMerged? (String.ofList line.1) = some j.merged)
      (numberedLines (linesText lines).toList) js := by
  have hcontent : (linesText lines).toList = ['\n'].intercalate (lines.map String.toList) := by
    simp [linesText, String.toList_intercalate]
  cases lines with
  | nil =>
    -- the empty text is one blank line
    cases hlaid
    cases hreads
    exact .nil
  | cons line lines =>
    have hcut : cut '\n' (linesText (line :: lines)).toList =
        (line :: lines).map String.toList := by
      rw [hcontent]
      apply cut_intercalate (by simp)
      simpa using hlaid.single_line fun text htext => (htexts text htext).single_line
    rw [numberedLines, hcut]
    exact hlaid.linesRead hreads 1

end Lines

section Records

variable {α β γ ε δ : Type}

theorem mapM_mapError {f : α → Except ε β} {g : ε → δ} (xs : List α) :
    xs.mapM (fun x => (f x).mapError g) = (xs.mapM f).mapError g := by
  induction xs with
  | nil => rfl
  | cons x xs ih =>
    rw [List.mapM_cons, List.mapM_cons, ih]
    cases f x with
    | error e => rfl
    | ok y => cases xs.mapM f <;> rfl

theorem mapM_eq_of_forall₂ {f : α → Except ε γ} {g : β → Except ε γ} {xs : List α} {ys : List β}
    (h : List.Forall₂ (fun x y => f x = g y) xs ys) : xs.mapM f = ys.mapM g := by
  induction h with
  | nil => rfl
  | cons hfirst _ ih => rw [List.mapM_cons, List.mapM_cons, hfirst, ih]

/-- Either every value is an object, or the first one that is not is refused for its kind. -/
theorem listOfJson?_cases (js : List Json) :
    (∃ records : List Record, js = records.map Record.toJson ∧
        js.mapM Record.ofJson? = .ok records) ∨
      ∃ (records : List Record) (j : Json) (rest : List Json),
        js = records.map Record.toJson ++ j :: rest ∧
        (∀ r : Record, j ≠ r.toJson) ∧ js.mapM Record.ofJson? =
          .error (.invalidInput ("record must be a JSON object, got " ++ j.kind)) := by
  induction js with
  | nil => exact .inl ⟨[], rfl, rfl⟩
  | cons j js ih =>
    by_cases hobject : ∃ members, j = .object members
    · obtain ⟨members, rfl⟩ := hobject
      have hfirst : Record.ofJson? (.object members) = .ok ⟨members⟩ := rfl
      rcases ih with ⟨records, rfl, hmapM⟩ | ⟨records, bad, rest, rfl, hbad, hmapM⟩
      · refine .inl ⟨⟨members⟩ :: records, rfl, ?_⟩
        rw [List.mapM_cons, hfirst, hmapM]
        rfl
      · refine .inr ⟨⟨members⟩ :: records, bad, rest, rfl, hbad, ?_⟩
        rw [List.mapM_cons, hfirst, hmapM]
        rfl
    · refine .inr ⟨[], j, js, rfl, fun r hr => hobject ⟨r.fields, hr⟩, ?_⟩
      have hfirst : Record.ofJson? j =
          .error (.invalidInput ("record must be a JSON object, got " ++ j.kind)) := by
        cases j with
        | object members => exact absurd ⟨members, rfl⟩ hobject
        | _ => rfl
      rw [List.mapM_cons, hfirst]
      rfl

end Records

section Layouts

variable {texts lines : List String} {js : List Json}

theorem ofLines?_linesText (hlaid : Laid texts lines) (htexts : ∀ text ∈ texts, IsItem text)
    (hreads : List.Forall₂ Reads texts js) :
    ofLines? (linesText lines) =
      ((js.map Json.merged).mapM Record.ofJson?).mapError .refused := by
  rw [ofLines?, ← mapM_mapError]
  apply mapM_eq_of_forall₂
  rw [List.forall₂_map_right_iff]
  refine (linesRead_linesText hlaid htexts hreads).imp ?_
  intro line j hline
  simp [recordOfLine, hline, recordOfJson]

theorem ofArray?_arrayText (hreads : List.Forall₂ Reads texts js) :
    ofArray? (arrayText texts) = ((js.map Json.merged).mapM Record.ofJson?).mapError .refused := by
  have hcontent : arrayText texts =
      String.ofList ('[' :: ([','].intercalate (texts.map String.toList) ++ [']'])) := by
    rw [← String.toList_inj]
    simp [arrayText, String.toList_intercalate]
  obtain ⟨ts, d, hspells⟩ := Json.spells_array (List.forall₂_map_left_iff.2 hreads)
  have hread : Json.readMerged? (arrayText texts) = some (.array (js.map Json.merged)) := by
    rw [hcontent, hspells.readMerged?, Json.merged, Json.mergedItems_eq_map]
  simp [ofArray?, hread, Record.listOfJson?]

end Layouts

section Paths

variable {mark : Char}

theorem cut_append_mark (s t : List Char) :
    cut mark (s ++ mark :: t) = cut mark s ++ cut mark t := by
  induction s with
  | nil => rw [List.nil_append, cut_cons, if_pos rfl]; rfl
  | cons c s ih =>
    obtain ⟨piece, rest, hs⟩ := List.exists_cons_of_ne_nil (cut_ne_nil mark s)
    rw [List.cons_append, cut_cons, cut_cons, ih, hs]
    split <;> rfl

/-- What holds no mark belongs to the last piece. -/
theorem exists_cut_append (s : List Char) {t : List Char} (h : mark ∉ t) :
    ∃ front last, cut mark (s ++ t) = front ++ [last ++ t] := by
  induction s with
  | nil => exact ⟨[], [], by simp [cut_of_not_mem h]⟩
  | cons c s ih =>
    obtain ⟨front, last, hcut⟩ := ih
    rw [List.cons_append, cut_cons, hcut]
    split
    · exact ⟨[] :: front, last, rfl⟩
    · cases front with
      | nil => exact ⟨[], c :: last, rfl⟩
      | cons piece front => exact ⟨(c :: piece) :: front, last, rfl⟩

/-- Ends in the name of a file, or in the beginning of one. -/
def EndsInName (stem : String) : Prop := ∃ s c, stem.toList = s ++ [c] ∧ c ≠ '/'

theorem fileName?_eq (s : List Char) {c d : Char} {t : List Char} (h : '/' ∉ c :: '.' :: d :: t) :
    ∃ last, fileName? (s ++ c :: '.' :: d :: t) = some (last ++ c :: '.' :: d :: t) := by
  obtain ⟨front, last, hcut⟩ := exists_cut_append s h
  refine ⟨last, ?_⟩
  have hlength : 3 ≤ (last ++ c :: '.' :: d :: t).length := by
    simp
    omega
  generalize last ++ c :: '.' :: d :: t = name at hcut hlength
  have hnames : name ≠ [] ∧ name ≠ ['.'] ∧ name ≠ ['.', '.'] := by
    refine ⟨?_, ?_, ?_⟩ <;> rintro rfl <;> simp at hlength
  simp [fileName?, hcut, hnames]

theorem extension?_eq {stem extension : String} (hstem : EndsInName stem)
    (hne : extension.toList ≠ []) (hslash : '/' ∉ extension.toList)
    (hpoint : '.' ∉ extension.toList) :
    extension? (stem ++ "." ++ extension).toList = some extension.toList := by
  obtain ⟨s, c, hs, hc⟩ := hstem
  obtain ⟨d, t, ht⟩ := List.exists_cons_of_ne_nil hne
  rw [ht] at hslash hpoint
  have hpath : (stem ++ "." ++ extension).toList = s ++ c :: '.' :: d :: t := by
    simp [hs, ht]
  have hfree : '/' ∉ c :: '.' :: d :: t := by
    simp only [List.mem_cons, not_or] at hslash ⊢
    exact ⟨hc.symm, by decide, hslash⟩
  obtain ⟨last, hname⟩ := fileName?_eq s hfree
  have hpieces : cut '.' (last ++ c :: '.' :: d :: t) = cut '.' (last ++ [c]) ++ [d :: t] := by
    rw [List.append_cons, cut_append_mark, cut_of_not_mem hpoint]
  have hfront : cut '.' (last ++ [c]) ≠ [[]] := by
    intro heq
    have hempty := intercalate_cut '.' (last ++ [c])
    rw [heq] at hempty
    simp at hempty
  have hlength : ¬(cut '.' (last ++ [c]) ++ [d :: t]).length < 2 := by
    have hpos : 0 < (cut '.' (last ++ [c])).length := List.length_pos_of_ne_nil (cut_ne_nil _ _)
    rw [List.length_append, List.length_singleton]
    omega
  rw [hpath, extension?, hname, ht]
  simp only [Option.bind_eq_bind, Option.bind_some, hpieces, List.dropLast_concat, hlength, hfront,
    or_self, if_false, List.getLast?_concat]

theorem ofPath_lines {stem extension : String} (hstem : EndsInName stem)
    (hext : extension.toList.map Char.toLower = "jsonl".toList) :
    Format.ofPath (stem ++ "." ++ extension) = .lines := by
  have hfree : ∀ c : Char, c.toLower = c → c ∉ "jsonl".toList → c ∉ extension.toList := by
    intro c hlower hout hin
    exact hout (hext ▸ hlower ▸ List.mem_map_of_mem hin)
  have hne : extension.toList ≠ [] := by
    intro heq
    rw [heq] at hext
    cases hext
  rw [Format.ofPath, extension?_eq hstem hne (hfree '/' rfl (by decide)) (hfree '.' rfl (by decide)),
    Option.map_some, hext, if_pos rfl]

theorem ofPath_array {stem : String} (hstem : EndsInName stem) :
    Format.ofPath (stem ++ "." ++ "json") = .array := by
  rw [Format.ofPath, extension?_eq hstem (by decide) (by decide) (by decide)]
  rfl

end Paths

/-- The two files are read alike: all their records in order if all values are objects, else the
refusal of the first value that is not one. -/
theorem load?_linesText_eq_arrayText {texts lines : List String} {stem stem' extension : String}
    (htexts : ∀ text ∈ texts, IsItem text) (hlaid : Laid texts lines) (hstem : EndsInName stem)
    (hstem' : EndsInName stem') (hext : extension.toList.map Char.toLower = "jsonl".toList) :
    ∃ answer values, load? (stem ++ "." ++ extension) (some (linesText lines)) = answer ∧
      load? (stem' ++ "." ++ "json") (some (arrayText texts)) = answer ∧
      texts.map Json.readMerged? = values.map some ∧
      ((∃ records : List Record, values = records.map Record.toJson ∧ answer = .ok records) ∨
        ∃ (records : List Record) (j : Json) (rest : List Json),
          values = records.map Record.toJson ++ j :: rest ∧ (∀ r : Record, j ≠ r.toJson) ∧
          answer = .error (.refused
            (.invalidInput ("record must be a JSON object, got " ++ j.kind)))) := by
  obtain ⟨js, hreads⟩ := exists_forall₂_reads htexts
  refine ⟨((js.map Json.merged).mapM Record.ofJson?).mapError .refused, js.map Json.merged,
    ?_, ?_, ?_, ?_⟩
  · rw [load?, ofPath_lines hstem hext]
    exact ofLines?_linesText hlaid htexts hreads
  · rw [load?, ofPath_array hstem']
    exact ofArray?_arrayText hreads
  · exact map_readMerged? hreads
  · rcases listOfJson?_cases (js.map Json.merged) with
      ⟨records, hvalues, hmapM⟩ | ⟨records, j, rest, hvalues, hbad, hmapM⟩
    · exact .inl ⟨records, hvalues, by rw [hmapM]; rfl⟩
    · exact .inr ⟨records, j, rest, hvalues, hbad, by rw [hmapM]; rfl⟩

/-- Blank lines in front of, between and behind two texts; the second is not an object. -/
theorem load?_linesText_eq_arrayText_mixed :
    ∃ answer values,
      load? ("day" ++ "." ++ "JsonL")
        (some (linesText ["", "\x7b\"amount\": 5\x7d\r", " \t", "[1, \x7b\x7d]", ""])) = answer ∧
      load? ("day" ++ "." ++ "json")
        (some (arrayText ["\x7b\"amount\": 5\x7d", "[1, \x7b\x7d]"])) = answer ∧
      ["\x7b\"amount\": 5\x7d", "[1, \x7b\x7d]"].map Json.readMerged? = values.map some ∧
      ((∃ records : List Record, values = records.map Record.toJson ∧ answer = .ok records) ∨
        ∃ (records : List Record) (j : Json) (rest : List Json),
          values = records.map Record.toJson ++ j :: rest ∧ (∀ r : Record, j ≠ r.toJson) ∧
          answer = .error (.refused
            (.invalidInput ("record must be a JSON object, got " ++ j.kind)))) := by
  have hobject : IsItem "\x7b\"amount\": 5\x7d" := ⟨by decide, by decide +kernel⟩
  have harray : IsItem "[1, \x7b\x7d]" := ⟨by decide, by decide +kernel⟩
  have hlaid : Laid ["\x7b\"amount\": 5\x7d", "[1, \x7b\x7d]"]
      ["", "\x7b\"amount\": 5\x7d" ++ "\r", " \t", "[1, \x7b\x7d]", ""] :=
    .blank (by decide) (by decide) (.carriage _ (.blank (by decide) (by decide)
      (.text _ (.blank (by decide) (by decide) .nil))))
  have hstem : EndsInName "day" := ⟨['d', 'a'], 'y', by decide, by decide⟩
  exact load?_linesText_eq_arrayText (List.forall_mem_cons.2 ⟨hobject, List.forall_mem_cons.2
    ⟨harray, List.forall_mem_nil _⟩⟩) hlaid hstem hstem (by decide)

end LedgerWatch.Batch
