import LedgerWatch.Json.Printer
import LedgerWatch.Proofs.Json.Lexing
import LedgerWatch.Proofs.Json.Rereading

namespace LedgerWatch.Json

namespace Scan

variable {s next : Scan} {c : Char} {cs : List Char}

theorem feed_cons_of_step (h : s.step c = some (next, [])) : s.feed (c :: cs) = next.feed cs := by
  rw [feed, h]
  cases hrest : next.feed cs <;> simp [hrest]

theorem hexValue?_hexDigit : ∀ n < 16, hexValue? (hexDigit n) = some n := by decide

theorem step_unicode (read : Option (List Char)) (left : ℕ) (code : ℕ) {n : ℕ} (hn : n < 16) :
    (Scan.unicode read none left code).step (hexDigit n) =
      some (if left ≤ 1 then afterUnit read none (16 * code + n)
        else .unicode read none (left - 1) (16 * code + n), []) := by
  simp only [step, hexValue?_hexDigit n hn, Option.map_some]
  split <;> rfl

theorem feed_escape (read : List Char) (c : Char) :
    (Scan.quoted (some read)).feed (escape c) = some (.quoted (some (c :: read)), []) := by
  unfold escape
  iterate 7
    split
    · rename_i h
      subst h
      rfl
  split
  · -- a control character, by its code in four digits
    rename_i hcontrol
    have hzero : '0' = hexDigit 0 := rfl
    have hcode : 16 * (16 * (16 * (16 * 0 + 0) + 0) + c.toNat / 16) + c.toNat % 16 = c.toNat := by
      omega
    have hunit : afterUnit (some read) none c.toNat = .quoted (some (c :: read)) := by
      have hlow : ¬(0xD800 ≤ c.toNat ∧ c.toNat < 0xDC00) := by omega
      have hhigh : ¬(0xDC00 ≤ c.toNat ∧ c.toNat < 0xE000) := by omega
      simp [afterUnit, hlow, hhigh, add]
    have hbackslash : (Scan.quoted (some read)).step '\\' = some (.escaped (some read), []) := rfl
    have hletter : (Scan.escaped (some read)).step 'u' =
        some (.unicode (some read) none 4 0, []) := rfl
    rw [hzero, feed_cons_of_step hbackslash, feed_cons_of_step hletter,
      feed_cons_of_step (step_unicode _ 4 _ (by norm_num)), if_neg (by norm_num),
      feed_cons_of_step (step_unicode _ 3 _ (by norm_num)), if_neg (by norm_num),
      feed_cons_of_step (step_unicode _ 2 _ (by omega)), if_neg (by norm_num),
      feed_cons_of_step (step_unicode _ 1 _ (by omega)), if_pos le_rfl, hcode, hunit]
    rfl
  · rename_i hquote hbackslash _ _ _ _ _ hcontrol
    have hstep : (Scan.quoted (some read)).step c = some (.quoted (some (c :: read)), []) := by
      simp [step, inQuotes, add, hquote, hbackslash, hcontrol]
    rw [feed_cons_of_step hstep]
    rfl

theorem feed_flatMap_escape (cs read : List Char) :
    (Scan.quoted (some read)).feed (cs.flatMap escape) =
      some (.quoted (some (cs.reverse ++ read)), []) := by
  induction cs generalizing read with
  | nil => rfl
  | cons c cs ih =>
    rw [List.flatMap_cons, feed_append, feed_escape, Option.bind_some, ih]
    simp

theorem feed_quoted (s : String) :
    blank.feed (Json.quoted s) = some (.blank, [.text (some s)]) := by
  have hopen : blank.step '"' = some (.quoted (some []), []) := rfl
  rw [Json.quoted, List.cons_append, feed_cons_of_step hopen, feed_append, feed_flatMap_escape]
  have hclose : (Scan.quoted (some (s.toList.reverse ++ []))).feed ['"'] =
      some (.blank, [.text (some s)]) := by
    simp [feed, step, inQuotes]
  rw [Option.bind_some, hclose]
  rfl

theorem fresh_of_isDigit (h : c.isDigit = true) : fresh c = some (.literal [c], []) := by
  have hdigits : ∀ n < 10, (isSpace (Char.ofNat (48 + n)) = false ∧
      Char.ofNat (48 + n) ∉ ['[', ']', '\x7b', '\x7d', ',', ':', '"']) ∧
      (Char.ofNat (48 + n)).isLower = false := by
    decide
  have hrange : 48 ≤ c.toNat ∧ c.toNat ≤ 57 := by
    simp only [Char.isDigit, Bool.and_eq_true, decide_eq_true_eq, UInt32.le_iff_toNat_le] at h
    exact h
  have hc : Char.ofNat (48 + (c.toNat - 48)) = c := by
    rw [Nat.add_sub_cancel' hrange.1, Char.ofNat_toNat]
  obtain ⟨⟨hspace, hpunctuation⟩, hlower⟩ := hdigits (c.toNat - 48) (by omega)
  rw [hc] at hspace hpunctuation hlower
  simp only [List.mem_cons, List.not_mem_nil, or_false, not_or] at hpunctuation
  simp [fresh, hspace, hpunctuation, hlower, h]

theorem feed_literal (read : List Char) (h : ∀ c ∈ cs, isLiteralChar c = true) :
    (Scan.literal read).feed cs = some (.literal (cs.reverse ++ read), []) := by
  induction cs generalizing read with
  | nil => rfl
  | cons c cs ih =>
    obtain ⟨hc, hcs⟩ := List.forall_mem_cons.1 h
    have hstep : (Scan.literal read).step c = some (.literal (c :: read), []) := if_pos hc
    rw [feed_cons_of_step hstep, ih (c :: read) hcs]
    simp

end Scan

namespace Literal

variable {l : Literal}

theorem isLiteralChar_of_mem_digits {ds : List Char} (h : ds.all Char.isDigit) :
    ∀ c ∈ ds, isLiteralChar c = true := by
  intro c hc
  simp [isLiteralChar, List.all_eq_true.1 h c hc]

theorem isLiteralChar_of_mem_spell (h : l.WellFormed) : ∀ c ∈ l.spell, isLiteralChar c = true := by
  have hsign : ∀ c ∈ (if l.negative then ['-'] else []), isLiteralChar c = true := by
    split
    · exact List.forall_mem_singleton.2 rfl
    · exact List.forall_mem_nil _
  have hfraction : ∀ c ∈ spellFraction l.fraction, isLiteralChar c = true := by
    cases hds : l.fraction with
    | none => simp [spellFraction]
    | some ds =>
      have hall := isLiteralChar_of_mem_digits (h.fraction ds hds).2
      exact List.forall_mem_cons.2 ⟨by decide, hall⟩
  have hexponent : ∀ c ∈ spellExponent l.exponent, isLiteralChar c = true := by
    cases l.exponent with
    | none => simp [spellExponent]
    | some e =>
      have hall := isLiteralChar_of_mem_digits (Decimal.all_isDigit_toDigits e.natAbs)
      refine List.forall_mem_cons.2 ⟨by decide, List.forall_mem_cons.2 ⟨?_, hall⟩⟩
      split <;> decide
  intro c hc
  simp only [spell, List.mem_append] at hc
  rcases hc with hc | hc | hc | hc
  · exact hsign c hc
  · exact isLiteralChar_of_mem_digits h.whole c hc
  · exact hfraction c hc
  · exact hexponent c hc

theorem lex?_spell (h : l.WellFormed) : lex? l.spell = some [.number l.number?] := by
  have hall := isLiteralChar_of_mem_spell h
  obtain ⟨c, cs, hcs, hfresh⟩ : ∃ c cs, l.spell = c :: cs ∧
      Scan.fresh c = some (.literal [c], []) := by
    obtain ⟨d, r, hdr, hd⟩ := isDigit_head
      (s := spellFraction l.fraction ++ spellExponent l.exponent) h.whole_ne_nil h.whole
    cases hnegative : l.negative with
    | true => exact ⟨'-', d :: r, by simp [spell, hnegative, hdr], rfl⟩
    | false => exact ⟨d, r, by simp [spell, hnegative, hdr], Scan.fresh_of_isDigit hd⟩
  have hfirst : Scan.blank.step c = some (.literal [c], []) := hfresh
  have hfeed : Scan.blank.feed l.spell = some (.literal l.spell.reverse, []) := by
    rw [hcs] at hall ⊢
    rw [Scan.feed_cons_of_step hfirst, Scan.feed_literal [c] (List.forall_mem_cons.1 hall).2]
    simp
  rw [lex?_eq_feed, hfeed, Option.bind_some, Scan.finish, literalToken?, List.reverse_reverse,
    ofChars?_spell h]
  rfl

end Literal

theorem Number.lex?_write (n : Number) : lex? n.write.toList = some [.number n.reread?] := by
  rw [toList_write]
  exact Literal.lex?_spell n.wellFormed_literal

namespace Token

def reread : Token → Token
  | .number (some n) => .number n.reread?
  | t => t

/-- Every number and text has a value. -/
def IsWritten : Token → Prop
  | .number none => False
  | .text none => False
  | _ => True

/-- Words and numbers, which only the next character ends. -/
def isOpenEnded : Token → Bool
  | .null => true
  | .bool _ => true
  | .number _ => true
  | _ => false

/-- What may stand behind a word or a number. -/
def endsValue : Token → Bool
  | .comma => true
  | t => t.closes

def MayFollow (t u : Token) : Prop := t.isOpenEnded = true → u.endsValue = true

variable {t u : Token} {ds : List Char}

theorem feed_write (ht : t.IsWritten) (hclosed : t.isOpenEnded = false) :
    Scan.blank.feed t.write = some (.blank, [t.reread]) := by
  cases t with
  | text s =>
    cases s with
    | none => exact ht.elim
    | some s => exact Scan.feed_quoted s
  | null => cases hclosed
  | bool b => cases hclosed
  | number n => cases hclosed
  | _ => rfl

theorem lex?_write (ht : t.IsWritten) (hopen : t.isOpenEnded = true) :
    lex? t.write = some [t.reread] := by
  cases t with
  | null => rfl
  | bool b => cases b <;> rfl
  | number n =>
    cases n with
    | none => exact ht.elim
    | some n => exact n.lex?_write
  | _ => cases hopen

theorem lex?_write_append (ht : t.IsWritten)
    (hds : t.isOpenEnded = true → ∀ d ∈ ds.head?, Separates d) :
    lex? (t.write ++ ds) = (lex? ds).map (t.reread :: ·) := by
  cases hopen : t.isOpenEnded with
  | true => exact lex?_append (lex?_write ht hopen) (hds hopen)
  | false => exact lex?_append_of_feed (feed_write ht hopen)

theorem separates_of_endsValue (h : u.endsValue = true) :
    ∀ d ∈ (u.write ++ ds).head?, Separates d := by
  cases u <;> simp [endsValue, closes] at h <;> simp [write] <;> decide

end Token

theorem isSpace_of_mem_gap (depth : ℕ) (last : Option Token) (t : Token) :
    ∀ c ∈ gap depth last t, isSpace c = true := by
  have hnewline : ∀ c ∈ newline depth, isSpace c = true := by
    intro c hc
    rcases List.mem_cons.1 hc with rfl | hc
    · rfl
    · rw [List.eq_of_mem_replicate hc]
      rfl
  unfold gap
  split
  · simp
  · simp
  · simp [isSpace]
  · split
    · exact hnewline
    · simp

/-- The text of some tokens behind those already written. -/
def laidOut (depth : ℕ) (last : Option Token) : List Token → List Char
  | [] => []
  | t :: ts =>
    let depth := if t.closes then depth - 1 else depth
    gap depth last t ++ (t.write ++ laidOut (if t.opens then depth + 1 else depth) (some t) ts)

theorem flatten_foldl_add (l : Layout) (ts : List Token) :
    (ts.foldl Layout.add l).pieces.reverse.flatten =
      l.pieces.reverse.flatten ++ laidOut l.depth l.last ts := by
  induction ts generalizing l with
  | nil => simp [laidOut]
  | cons t ts ih =>
    rw [List.foldl_cons, ih, laidOut]
    simp [Layout.add]

theorem toList_pretty (j : Json) : j.pretty.toList = laidOut 0 none (tokens j) := by
  rw [pretty, String.toList_ofList, flatten_foldl_add]
  rfl

theorem separates_head_laidOut (depth : ℕ) (last : Option Token) {u : Token} (us : List Token)
    (h : u.endsValue = true) : ∀ d ∈ (laidOut depth last (u :: us)).head?, Separates d := by
  rw [laidOut]
  cases hgap : gap (if u.closes then depth - 1 else depth) last u with
  | nil => exact Token.separates_of_endsValue h
  | cons c cs =>
    have hc : isSpace c = true := by
      apply isSpace_of_mem_gap (if u.closes then depth - 1 else depth) last u
      rw [hgap]
      exact List.mem_cons_self
    rintro d ⟨⟩
    exact separates_of_isSpace hc

/-- Tokens with values, and behind a word or a number only what ends it. -/
structure Readable (ts : List Token) : Prop where
  written : ∀ t ∈ ts, t.IsWritten
  chain : ts.IsChain Token.MayFollow

namespace Readable

variable {t : Token} {ts us : List Token}

theorem singleton (ht : t.IsWritten) : Readable [t] :=
  ⟨List.forall_mem_singleton.2 ht, .singleton t⟩

theorem cons (ht : t.IsWritten) (hclosed : t.isOpenEnded = false) (h : Readable ts) :
    Readable (t :: ts) := by
  refine ⟨List.forall_mem_cons.2 ⟨ht, h.written⟩,
    List.isChain_cons.2 ⟨fun u _ hopen => ?_, h.chain⟩⟩
  rw [hclosed] at hopen
  cases hopen

theorem append (hts : Readable ts) (hus : Readable us)
    (hhead : ∀ u ∈ us.head?, u.endsValue = true) : Readable (ts ++ us) :=
  ⟨List.forall_mem_append.2 ⟨hts.written, hus.written⟩,
    List.isChain_append.2 ⟨hts.chain, hus.chain, fun _ _ u hu _ => hhead u hu⟩⟩

theorem tail (h : Readable (t :: ts)) : Readable ts :=
  ⟨(List.forall_mem_cons.1 h.written).2, h.chain.tail⟩

theorem separates_behind (h : Readable (t :: ts)) (hopen : t.isOpenEnded = true) (depth : ℕ)
    (last : Option Token) : ∀ c ∈ (laidOut depth last ts).head?, Separates c := by
  cases ts with
  | nil => simp [laidOut]
  | cons u us => exact separates_head_laidOut _ _ us ((List.isChain_cons_cons.1 h.chain).1 hopen)

theorem lex?_laidOut (h : Readable ts) (depth : ℕ) (last : Option Token) :
    lex? (laidOut depth last ts) = some (ts.map Token.reread) := by
  induction ts generalizing depth last with
  | nil => rfl
  | cons t ts ih =>
    rw [laidOut, lex?_append_of_isSpace (isSpace_of_mem_gap _ _ _),
      Token.lex?_write_append (h.written t List.mem_cons_self)
        fun hopen => h.separates_behind hopen _ _, ih h.tail]
    rfl

theorem lex?_flatMap_write (h : Readable ts) :
    lex? (ts.flatMap Token.write) = some (ts.map Token.reread) := by
  obtain ⟨hwritten, hchain⟩ := h
  induction ts with
  | nil => rfl
  | cons t ts ih =>
    obtain ⟨ht, hts⟩ := List.forall_mem_cons.1 hwritten
    rw [List.flatMap_cons, Token.lex?_write_append ht, ih hts hchain.tail]
    · rfl
    · intro hopen
      cases ts with
      | nil => simp
      | cons u us =>
        exact Token.separates_of_endsValue ((List.isChain_cons_cons.1 hchain).1 hopen)

end Readable

theorem endsValue_of_mem_head_moreItemTokens (js : List Json) :
    ∀ u ∈ (moreItemTokens js).head?, u.endsValue = true := by
  cases js <;> rintro u ⟨⟩ <;> rfl

theorem endsValue_of_mem_head_moreMemberTokens (ms : List (String × Json)) :
    ∀ u ∈ (moreMemberTokens ms).head?, u.endsValue = true := by
  cases ms <;> rintro u ⟨⟩ <;> rfl

mutual

theorem readable_tokens : ∀ j : Json, Readable (tokens j)
  | .array items => .cons trivial rfl (readable_itemTokens items)
  | .object members => .cons trivial rfl (readable_memberTokens members)
  | .string _ => .singleton trivial
  | .number _ => .singleton trivial
  | .bool _ => .singleton trivial
  | .null => .singleton trivial

theorem readable_itemTokens : ∀ js : List Json, Readable (itemTokens js)
  | [] => .singleton trivial
  | j :: js => .append (readable_tokens j) (readable_moreItemTokens js)
      (endsValue_of_mem_head_moreItemTokens js)

theorem readable_moreItemTokens : ∀ js : List Json, Readable (moreItemTokens js)
  | [] => .singleton trivial
  | j :: js => .cons trivial rfl <| .append (readable_tokens j) (readable_moreItemTokens js)
      (endsValue_of_mem_head_moreItemTokens js)

theorem readable_memberTokens : ∀ ms : List (String × Json), Readable (memberTokens ms)
  | [] => .singleton trivial
  | (_, j) :: ms => .cons trivial rfl <| .cons trivial rfl <|
      .append (readable_tokens j) (readable_moreMemberTokens ms)
        (endsValue_of_mem_head_moreMemberTokens ms)

theorem readable_moreMemberTokens : ∀ ms : List (String × Json), Readable (moreMemberTokens ms)
  | [] => .singleton trivial
  | (_, j) :: ms => .cons trivial rfl <| .cons trivial rfl <| .cons trivial rfl <|
      .append (readable_tokens j) (readable_moreMemberTokens ms)
        (endsValue_of_mem_head_moreMemberTokens ms)

end

/-- The tokens of an indented text are those of its value, with all numbers read again. -/
theorem lex?_pretty (j : Json) : lex? j.pretty.toList = some ((tokens j).map Token.reread) := by
  rw [toList_pretty]
  exact (readable_tokens j).lex?_laidOut 0 none

theorem lex?_compact (j : Json) : lex? j.compact.toList = some ((tokens j).map Token.reread) := by
  rw [compact, String.toList_ofList]
  exact (readable_tokens j).lex?_flatMap_write

end LedgerWatch.Json
