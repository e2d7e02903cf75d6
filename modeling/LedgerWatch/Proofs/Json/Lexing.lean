import LedgerWatch.Json.Lexer
import LedgerWatch.Proofs.Text.Blanks

namespace LedgerWatch.Json

/-- What some characters do to the token under way, and the tokens they finish. -/
def Scan.feed : Scan → List Char → Option (Scan × List Token)
  | s, [] => some (s, [])
  | s, c :: cs => do
    let (next, ts) ← s.step c
    let (last, us) ← next.feed cs
    return (last, ts ++ us)

/-- Ends the word or number before it. -/
def Separates (c : Char) : Prop := c.isLower = false ∧ isLiteralChar c = false

instance (c : Char) : Decidable (Separates c) :=
  inferInstanceAs (Decidable (c.isLower = false ∧ isLiteralChar c = false))

namespace Scan

variable {s : Scan} {cs ds : List Char} {c : Char} {ts us : List Token}

theorem run_eq_feed (s : Scan) (done : List Token) (cs : List Char) :
    s.run done cs = (s.feed cs).bind fun p => p.1.finish.map ((done.reverse ++ p.2) ++ ·) := by
  induction cs generalizing s done with
  | nil => simp [run, feed]
  | cons c cs ih =>
    rw [run, feed]
    cases s.step c with
    | none => rfl
    | some p =>
      obtain ⟨next, ts⟩ := p
      simp only [Option.bind_eq_bind, Option.bind_some, ih]
      cases next.feed cs with
      | none => rfl
      | some q => simp

theorem feed_append (s : Scan) (cs ds : List Char) :
    s.feed (cs ++ ds) =
      (s.feed cs).bind fun p => (p.1.feed ds).map fun q => (q.1, p.2 ++ q.2) := by
  induction cs generalizing s with
  | nil => cases h : s.feed ds <;> simp [feed, h]
  | cons c cs ih =>
    rw [List.cons_append, feed, feed]
    cases s.step c with
    | none => rfl
    | some p =>
      obtain ⟨next, ts⟩ := p
      simp only [Option.bind_eq_bind, Option.bind_some, ih]
      cases next.feed cs with
      | none => rfl
      | some q =>
        simp only [Option.bind_some, Option.pure_def]
        cases q.1.feed ds <;> simp

/-- A state in which a text may end gives way to a character that separates. -/
theorem step_of_finish (hfinish : s.finish = some ts) (hc : Separates c) :
    s.step c = (fresh c).map fun p => (p.1, ts ++ p.2) := by
  have hemit : ∀ t : Option Token, t.map ([·]) = some ts →
      emit t (fresh c) = (fresh c).map fun p => (p.1, ts ++ p.2) := by
    intro t ht
    obtain ⟨u, rfl, rfl⟩ := Option.map_eq_some_iff.1 ht
    cases fresh c <;> rfl
  cases s with
  | blank =>
    obtain rfl : [] = ts := Option.some.inj hfinish
    cases h : fresh c <;> simp [step, h]
  | word read =>
    rw [step, if_neg (by simp [hc.1])]
    exact hemit _ hfinish
  | literal read =>
    rw [step, if_neg (by simp [hc.2])]
    exact hemit _ hfinish
  | _ => cases hfinish

theorem feed_of_finish (hfinish : s.finish = some ts) (hc : Separates c) :
    s.feed (c :: cs) = (blank.feed (c :: cs)).map fun p => (p.1, ts ++ p.2) := by
  rw [feed, feed, step_of_finish hfinish hc, step]
  cases fresh c with
  | none => rfl
  | some p =>
    simp only [Option.map_some, Option.bind_eq_bind, Option.bind_some]
    cases p.1.feed cs <;> simp

end Scan

variable {cs ds : List Char} {c : Char} {ts us : List Token}

theorem lex?_eq_feed (cs : List Char) :
    lex? cs = (Scan.blank.feed cs).bind fun p => p.1.finish.map (p.2 ++ ·) := by
  rw [lex?, Scan.run_eq_feed]
  simp

/-- A first part that leaves no token under way. -/
theorem lex?_append_of_feed (h : Scan.blank.feed cs = some (.blank, ts)) :
    lex? (cs ++ ds) = (lex? ds).map (ts ++ ·) := by
  rw [lex?_eq_feed, Scan.feed_append, h, lex?_eq_feed]
  simp only [Option.bind_some]
  cases Scan.blank.feed ds with
  | none => rfl
  | some p => simp only [Option.map_some, Option.bind_some]; cases p.1.finish <;> simp

/-- A character that is a token by itself, or none. -/
theorem lex?_cons (h : Scan.fresh c = some (.blank, ts)) :
    lex? (c :: ds) = (lex? ds).map (ts ++ ·) := by
  have hfeed : Scan.blank.feed [c] = some (.blank, ts) := by
    simp [Scan.feed, Scan.step, h]
  exact lex?_append_of_feed hfeed

/-- A second part that ends the token under way. -/
theorem lex?_append (hcs : lex? cs = some ts) (hds : ∀ d ∈ ds.head?, Separates d) :
    lex? (cs ++ ds) = (lex? ds).map (ts ++ ·) := by
  cases ds with
  | nil =>
    rw [List.append_nil, hcs]
    simp [lex?, Scan.run, Scan.finish]
  | cons d ds =>
    rw [lex?_eq_feed] at hcs
    obtain ⟨⟨s, before⟩, hfeed, hfinish⟩ := Option.bind_eq_some_iff.1 hcs
    obtain ⟨last, hlast, rfl⟩ := Option.map_eq_some_iff.1 hfinish
    rw [lex?_eq_feed, Scan.feed_append, hfeed, Option.bind_some,
      Scan.feed_of_finish hlast (hds d rfl), lex?_eq_feed]
    cases Scan.blank.feed (d :: ds) with
    | none => rfl
    | some p => simp only [Option.map_some, Option.bind_some]; cases p.1.finish <;> simp

theorem fresh_of_isSpace (h : isSpace c = true) : Scan.fresh c = some (.blank, []) := by
  simp [Scan.fresh, h]

theorem separates_of_isSpace (h : isSpace c = true) : Separates c := by
  simp only [isSpace, Bool.or_eq_true, decide_eq_true_eq] at h
  rcases h with ((rfl | rfl) | rfl) | rfl <;> decide

theorem lex?_append_of_isSpace (h : ∀ c ∈ cs, isSpace c = true) : lex? (cs ++ ds) = lex? ds := by
  induction cs with
  | nil => rfl
  | cons c cs ih =>
    obtain ⟨hc, hcs⟩ := List.forall_mem_cons.1 h
    rw [List.cons_append, lex?_cons (fresh_of_isSpace hc), ih hcs]
    simp

/-- A space gives no end to a text that has none. -/
theorem Scan.finish_of_isSpace {s next : Scan} (hc : isSpace c = true) (hfinish : s.finish = none)
    (hstep : s.step c = some (next, ts)) : next.finish = none := by
  have hseparates := separates_of_isSpace hc
  have hbackslash : ∀ {read : Option (List Char)} {next : Scan} {ts : List Token},
      Scan.afterBackslash read c ≠ some (next, ts) := by
    simp only [isSpace, Bool.or_eq_true, decide_eq_true_eq] at hc
    rintro read next ts h
    rcases hc with ((rfl | rfl) | rfl) | rfl <;> cases h
  have hquotes : ∀ {read : Option (List Char)}, Scan.inQuotes read c = some (next, ts) →
      next.finish = none := by
    intro read h
    simp only [isSpace, Bool.or_eq_true, decide_eq_true_eq] at hc
    rcases hc with ((rfl | rfl) | rfl) | rfl <;> cases h
    rfl
  have hemit : ∀ {t : Option Token}, t.map ([·]) = none →
      Scan.emit t (Scan.fresh c) ≠ some (next, ts) := by
    rintro t ht
    rw [Option.map_eq_none_iff.1 ht]
    exact fun h => by cases h
  cases s with
  | blank => cases hfinish
  | word read =>
    rw [Scan.step, if_neg (by simp [hseparates.1])] at hstep
    exact absurd hstep (hemit hfinish)
  | literal read =>
    rw [Scan.step, if_neg (by simp [hseparates.2])] at hstep
    exact absurd hstep (hemit hfinish)
  | quoted read => exact hquotes hstep
  | escaped read => exact absurd hstep hbackslash
  | unicode read high left code =>
    have hhex : hexValue? c = none := by
      simp only [isSpace, Bool.or_eq_true, decide_eq_true_eq] at hc
      rcases hc with ((rfl | rfl) | rfl) | rfl <;> rfl
    rw [Scan.step, hhex] at hstep
    cases hstep
  | pairBackslash read high =>
    rw [Scan.step, if_neg (by rintro rfl; cases hc)] at hstep
    exact hquotes hstep
  | pairLetter read high =>
    rw [Scan.step, if_neg (by rintro rfl; cases hc)] at hstep
    exact absurd hstep hbackslash

/-- A space behind a text does not matter, whether the text can be read or not. -/
theorem lex?_append_space (cs : List Char) (hc : isSpace c = true) :
    lex? (cs ++ [c]) = lex? cs := by
  rw [lex?_eq_feed, lex?_eq_feed, Scan.feed_append]
  cases Scan.blank.feed cs with
  | none => rfl
  | some p =>
    obtain ⟨s, ts⟩ := p
    simp only [Option.bind_some]
    cases hfinish : s.finish with
    | some us =>
      rw [Scan.feed, Scan.step_of_finish hfinish (separates_of_isSpace hc), fresh_of_isSpace hc]
      simp [Scan.feed, Scan.finish]
    | none =>
      rw [Scan.feed]
      cases hstep : s.step c with
      | none => rfl
      | some q => simp [Scan.feed, Scan.finish_of_isSpace hc hfinish hstep]

/-- No blank stands for a token or begins one. -/
theorem fresh_of_isBlank (h : Text.isBlank c) :
    Scan.fresh c = some (.blank, []) ∨ Scan.fresh c = none := by
  have hcode := Text.code_of_isBlank h
  have hne : ∀ d : Char, 0x20 < d.toNat → d.toNat < 0x85 → c ≠ d := by
    rintro d hlow hhigh rfl
    omega
  have hlower : c.isLower = false := by
    have h97 : 'a'.toNat = 97 := rfl
    have h122 : 'z'.toNat = 122 := rfl
    rw [Bool.eq_false_iff]
    intro h
    have hlow : 'a'.toNat ≤ c.toNat :=
      UInt32.le_iff_toNat_le.1 (of_decide_eq_true (Bool.and_eq_true_iff.1 h).1)
    have hhigh : c.toNat ≤ 'z'.toNat :=
      UInt32.le_iff_toNat_le.1 (of_decide_eq_true (Bool.and_eq_true_iff.1 h).2)
    omega
  have hdigit : c.isDigit = false := by
    have h48 : '0'.toNat = 48 := rfl
    have h57 : '9'.toNat = 57 := rfl
    rw [Bool.eq_false_iff, Char.isDigit]
    simp only [UInt32.le_iff_toNat_le, Char.toNat_val, ne_eq, Bool.and_eq_true, decide_eq_true_eq]
    omega
  unfold Scan.fresh
  split
  · exact .inl rfl
  · right
    rw [if_neg (hne '[' (by decide) (by decide)), if_neg (hne ']' (by decide) (by decide)),
      if_neg (hne '\x7b' (by decide) (by decide)), if_neg (hne '\x7d' (by decide) (by decide)),
      if_neg (hne ',' (by decide) (by decide)), if_neg (hne ':' (by decide) (by decide)),
      if_neg (hne '"' (by decide) (by decide)), hlower, hdigit]
    simp [hne '-' (by decide) (by decide)]

theorem lex?_of_isBlank (h : ∀ c ∈ cs, Text.isBlank c) : lex? cs = some [] ∨ lex? cs = none := by
  induction cs with
  | nil => exact .inl rfl
  | cons c cs ih =>
    obtain ⟨hc, hcs⟩ := List.forall_mem_cons.1 h
    rcases fresh_of_isBlank hc with hfresh | hfresh
    · rw [lex?_cons hfresh]
      rcases ih hcs with ih | ih <;> simp [ih]
    · right
      simp [lex?_eq_feed, Scan.feed, Scan.step, hfresh]

end LedgerWatch.Json
