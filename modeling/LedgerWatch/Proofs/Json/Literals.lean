import LedgerWatch.Json.Number
import LedgerWatch.Proofs.Number.Decimals
import LedgerWatch.Proofs.Number.Values

namespace LedgerWatch

namespace Decimal

theorem spanDigits_append {ds s : List Char} (hds : ds.all Char.isDigit)
    (hs : ∀ c ∈ s.head?, c.isDigit = false) : spanDigits (ds ++ s) = (ds, s) := by
  have hall : ∀ c ∈ ds, c.isDigit = true := List.all_eq_true.1 hds
  have hstop : s.takeWhile Char.isDigit = [] ∧ s.dropWhile Char.isDigit = s := by
    cases s with
    | nil => exact ⟨rfl, rfl⟩
    | cons c s =>
      have hc := hs c rfl
      simp [hc]
  rw [spanDigits, List.takeWhile_append_of_pos hall, List.dropWhile_append_of_pos hall, hstop.1,
    hstop.2, List.append_nil]

theorem ne_sign_of_isDigit {c : Char} (h : c.isDigit = true) : c ≠ '-' ∧ c ≠ '+' := by
  constructor <;> rintro rfl <;> exact absurd h (by decide)

theorem natOfDigits_toDigits (n : ℕ) : natOfDigits (Nat.toDigits 10 n) = n :=
  Nat.ofDigitChars_ten_toDigits

theorem all_isDigit_toDigits (n : ℕ) : (Nat.toDigits 10 n).all Char.isDigit :=
  List.all_eq_true.2 fun _ hc => Nat.isDigit_of_mem_toDigits (by norm_num) (by norm_num) hc

theorem eq_zero_of_head_toDigits {n : ℕ} (h : (Nat.toDigits 10 n).head? = some '0') : n = 0 := by
  induction n using Nat.strong_induction_on with
  | _ n ih =>
    rcases lt_or_ge n 10 with hlt | hge
    · rw [Nat.toDigits_of_lt_base hlt] at h
      have hdigit : ∀ k < 10, Nat.digitChar k = '0' → k = 0 := by decide
      exact hdigit n hlt (Option.some.inj h)
    · rw [Nat.toDigits_of_base_le (by norm_num) hge] at h
      have hhead : (Nat.toDigits 10 (n / 10)).head? = some '0' := by
        cases hds : Nat.toDigits 10 (n / 10) with
        | nil => exact absurd hds Nat.toDigits_ne_nil
        | cons c ds =>
          rw [hds] at h
          exact h
      have hzero := ih (n / 10) (by omega) hhead
      omega

theorem all_isDigit_zeros (n : ℕ) : (zeros n).all Char.isDigit := by
  rw [zeros, List.all_replicate]
  simp

theorem exponent?_spelled (e : ℤ) :
    exponent? ('e' :: (if e < 0 then '-' else '+') :: Nat.toDigits 10 e.natAbs) = some e := by
  have hall := all_isDigit_toDigits e.natAbs
  have hne : Nat.toDigits 10 e.natAbs ≠ [] := Nat.toDigits_ne_nil
  by_cases he : e < 0
  · simp [exponent?, he, spanSign, hne, hall, natOfDigits_toDigits, abs_of_neg he]
  · simp [exponent?, he, spanSign, hne, hall, natOfDigits_toDigits, abs_of_nonneg (not_lt.1 he)]

end Decimal

namespace Json.Literal

/-- The exponent part of a text; an exponent that is not negative has a plus sign. -/
def spellExponent : Option ℤ → List Char
  | none => []
  | some e => 'e' :: (if e < 0 then '-' else '+') :: Nat.toDigits 10 e.natAbs

def spellFraction : Option (List Char) → List Char
  | none => []
  | some ds => '.' :: ds

def spell (l : Literal) : List Char :=
  (if l.negative then ['-'] else []) ++
    (l.whole ++ (spellFraction l.fraction ++ spellExponent l.exponent))

/-- Digits where there have to be some, and no zero in front of others. -/
structure WellFormed (l : Literal) : Prop where
  whole_ne_nil : l.whole ≠ []
  whole : l.whole.all Char.isDigit
  whole_of_zero : l.whole.head? = some '0' → l.whole = ['0']
  fraction : ∀ ds ∈ l.fraction, ds ≠ [] ∧ ds.all Char.isDigit

section Spelling

variable {l : Literal}

theorem isDigit_head {ds s : List Char} (hne : ds ≠ []) (hall : ds.all Char.isDigit) :
    ∃ c r, ds ++ s = c :: r ∧ c.isDigit = true := by
  cases ds with
  | nil => exact absurd rfl hne
  | cons c ds => exact ⟨c, ds ++ s, rfl, List.all_eq_true.1 hall c List.mem_cons_self⟩

theorem isDigit_of_head_spellExponent (e : Option ℤ) :
    ∀ c ∈ (spellExponent e).head?, c.isDigit = false := by
  cases e <;> simp [spellExponent]

theorem spanDigits_whole (h : l.WellFormed) :
    Decimal.spanDigits (l.whole ++ (spellFraction l.fraction ++ spellExponent l.exponent)) =
      (l.whole, spellFraction l.fraction ++ spellExponent l.exponent) := by
  apply Decimal.spanDigits_append h.whole
  cases l.fraction with
  | none => exact isDigit_of_head_spellExponent l.exponent
  | some ds => simp [spellFraction]

def unsigned? (negative : Bool) (s : List Char) : Option Literal :=
  let whole := (Decimal.spanDigits s).1
  let rest : Option (List Char) × List Char := match (Decimal.spanDigits s).2 with
    | '.' :: r => (some (Decimal.spanDigits r).1, (Decimal.spanDigits r).2)
    | r => (none, r)
  if whole = [] ∨ (whole.head? = some '0' ∧ whole ≠ ['0']) ∨ rest.1 = some [] then none
  else (Decimal.exponent? rest.2).map fun e =>
    ⟨negative, whole, rest.1, if rest.2 = [] then none else some e⟩

theorem ofChars?_minus (s : List Char) : ofChars? ('-' :: s) = unsigned? true s := rfl

theorem ofChars?_of_ne_minus {c : Char} (hc : c ≠ '-') (s : List Char) :
    ofChars? (c :: s) = unsigned? false (c :: s) := by
  unfold ofChars?
  simp [hc]
  rfl

theorem unsigned?_spell (h : l.WellFormed) :
    unsigned? l.negative (l.whole ++ (spellFraction l.fraction ++ spellExponent l.exponent)) =
      some l := by
  have hspan := spanDigits_whole h
  obtain ⟨negative, whole, fraction, exponent⟩ := l
  obtain ⟨hne, hwhole, hzero, hfraction⟩ := h
  simp only at hne hwhole hzero hfraction hspan ⊢
  have hhead := isDigit_of_head_spellExponent exponent
  have hrest : (match spellFraction fraction ++ spellExponent exponent with
      | '.' :: r => (some (Decimal.spanDigits r).1, (Decimal.spanDigits r).2)
      | r => (none, r)) = (fraction, spellExponent exponent) := by
    cases fraction with
    | none => cases exponent <;> rfl
    | some ds =>
      have hds := Decimal.spanDigits_append (hfraction ds rfl).2 hhead
      simp only [spellFraction, List.cons_append, hds]
  have haccepted : ¬(whole = [] ∨ (whole.head? = some '0' ∧ whole ≠ ['0']) ∨
      fraction = some []) := by
    rintro (hnil | ⟨hhead, hother⟩ | hempty)
    · exact hne hnil
    · exact hother (hzero hhead)
    · exact (hfraction [] hempty).1 rfl
  simp only [unsigned?, hspan, hrest, if_neg haccepted]
  cases exponent with
  | none => rfl
  | some e =>
    rw [spellExponent, Decimal.exponent?_spelled]
    rfl

theorem ofChars?_spell (h : l.WellFormed) : ofChars? l.spell = some l := by
  have hunsigned := unsigned?_spell h
  unfold spell
  cases hnegative : l.negative with
  | true =>
    rw [hnegative] at hunsigned
    exact (ofChars?_minus _).trans hunsigned
  | false =>
    rw [hnegative] at hunsigned
    rw [if_neg Bool.false_ne_true, List.nil_append]
    obtain ⟨c, r, hcr, hc⟩ := isDigit_head
      (s := spellFraction l.fraction ++ spellExponent l.exponent) h.whole_ne_nil h.whole
    rw [hcr] at hunsigned ⊢
    rw [ofChars?_of_ne_minus (Decimal.ne_sign_of_isDigit hc).1, hunsigned]

end Spelling

def ofNat (negative : Bool) (n : ℕ) : Literal := ⟨negative, Nat.toDigits 10 n, none, none⟩

theorem wellFormed_ofNat (negative : Bool) (n : ℕ) : (ofNat negative n).WellFormed := by
  refine ⟨Nat.toDigits_ne_nil, Decimal.all_isDigit_toDigits n, ?_, by simp [ofNat]⟩
  intro hzero
  rw [ofNat, Decimal.eq_zero_of_head_toDigits hzero]
  rfl

/-- The literal of `digits * 10 ^ exponent`, with a point behind the first `p` digits or with an
exponent. -/
def ofScientific (negative : Bool) (digits : List Char) (p : ℤ) : Literal :=
  if -4 ≤ p ∧ p ≤ 16 then
    if p ≤ 0 then ⟨negative, ['0'], some (Decimal.zeros (-p).toNat ++ digits), none⟩
    else if p.toNat < digits.length then
      ⟨negative, digits.take p.toNat, some (digits.drop p.toNat), none⟩
    else ⟨negative, digits ++ Decimal.zeros (p.toNat - digits.length), some ['0'], none⟩
  else
    ⟨negative, digits.take 1, if digits.length ≤ 1 then none else some (digits.drop 1),
      some (p - 1)⟩

section Scientific

variable {negative : Bool} {digits : List Char} {p : ℤ}

theorem spell_ofScientific (negative : Bool) (digits : List Char) (p : ℤ) :
    (ofScientific negative digits p).spell =
      (if negative then ['-'] else []) ++
        (if realStyle.positional p then Decimal.withPoint realStyle digits p
         else Decimal.withExponent realStyle digits p) := by
  have hpositional : realStyle.positional p = decide (-4 ≤ p ∧ p ≤ 16) := by
    simp [realStyle]
  rw [hpositional, ofScientific]
  simp only [decide_eq_true_eq]
  split
  · unfold Decimal.withPoint
    split
    · simp [spell, spellFraction, spellExponent]
    · split
      · simp [spell, spellFraction, spellExponent]
      · simp [spell, spellFraction, spellExponent, realStyle]
  · rename_i hout
    unfold Decimal.withExponent
    have hsign : (if p - 1 < 0 then ['-'] else realStyle.exponentPlus.toList) =
        [if p - 1 < 0 then '-' else '+'] := by
      split <;> rfl
    simp only [hsign]
    split <;> simp [spell, spellFraction, spellExponent]

theorem wellFormed_ofScientific (hne : digits ≠ []) (hall : digits.all Char.isDigit)
    (hzero : digits.head? = some '0' → digits = ['0'] ∧ p = 1) :
    (ofScientific negative digits p).WellFormed := by
  have htake : ∀ {n : ℕ}, 0 < n → digits.take n ≠ [] ∧ (digits.take n).head? = digits.head? := by
    intro n hn
    cases digits with
    | nil => exact absurd rfl hne
    | cons c ds =>
      obtain ⟨k, rfl⟩ := Nat.exists_eq_succ_of_ne_zero hn.ne'
      exact ⟨List.cons_ne_nil _ _, rfl⟩
  have hall_take : ∀ n, (digits.take n).all Char.isDigit := fun n =>
    List.all_eq_true.2 fun c hc => List.all_eq_true.1 hall c (List.mem_of_mem_take hc)
  have hall_drop : ∀ n, (digits.drop n).all Char.isDigit := fun n =>
    List.all_eq_true.2 fun c hc => List.all_eq_true.1 hall c (List.mem_of_mem_drop hc)
  have hlength : digits.head? = some '0' → digits.length = 1 := fun h => by rw [(hzero h).1]; rfl
  unfold ofScientific
  split
  · split
    · -- behind a zero and the point
      refine ⟨by simp, rfl, fun _ => rfl, ?_⟩
      rintro ds ⟨⟩
      refine ⟨by simp [hne], ?_⟩
      rw [List.all_append, Decimal.all_isDigit_zeros, hall]
      rfl
    · split
      · -- on both sides of the point
        rename_i hpos hlt
        obtain ⟨hne', hhead⟩ := htake (show 0 < p.toNat by omega)
        refine ⟨hne', hall_take _, ?_, ?_⟩
        · intro h
          have hone := hlength (hhead ▸ h)
          omega
        · rintro ds ⟨⟩
          exact ⟨fun h => absurd (List.drop_eq_nil_iff.1 h) (by omega), hall_drop _⟩
      · -- in front of the point, with zeros behind them
        refine ⟨by simp [hne], ?_, ?_, ?_⟩
        · rw [List.all_append, Decimal.all_isDigit_zeros, hall]
          rfl
        · intro h
          have hhead : digits.head? = some '0' := by
            cases digits with
            | nil => exact absurd rfl hne
            | cons c ds => exact h
          obtain ⟨rfl, rfl⟩ := hzero hhead
          rfl
        · rintro ds ⟨⟩
          exact ⟨by simp, by decide⟩
  · -- one digit in front of the point, and an exponent
    obtain ⟨hne', hhead⟩ := htake one_pos
    refine ⟨hne', hall_take 1, ?_, ?_⟩
    · intro h
      rw [(hzero (hhead ▸ h)).1]
      rfl
    · intro ds hds
      simp only at hds
      split at hds
      · cases hds
      · rename_i hmany
        obtain rfl := Option.some.inj hds
        exact ⟨fun h => hmany (List.drop_eq_nil_iff.1 h), hall_drop 1⟩

end Scientific

end Json.Literal

namespace Json.Number

def literal : Number → Literal
  | .whole (.ofNat n) _ => .ofNat false n
  | .whole (.negSucc n) _ => .ofNat true (n + 1)
  | .real x _ =>
    let d := Binary64.parts x
    let s := Decimal.shortest .even d.significand d.exponent
    let digits := Nat.toDigits 10 s.digits
    .ofScientific d.negative digits (digits.length + s.exponent)

theorem wellFormed_literal (n : Number) : n.literal.WellFormed := by
  cases n with
  | whole i h =>
    cases i with
    | ofNat n => exact Literal.wellFormed_ofNat false n
    | negSucc n => exact Literal.wellFormed_ofNat true (n + 1)
  | real x h =>
    apply Literal.wellFormed_ofScientific Nat.toDigits_ne_nil (Decimal.all_isDigit_toDigits _)
    intro hhead
    have hzero := Decimal.shortest_of_digits_eq_zero (Decimal.eq_zero_of_head_toDigits hhead)
    rw [hzero]
    exact ⟨rfl, rfl⟩

theorem toList_write (n : Number) : n.write.toList = n.literal.spell := by
  cases n with
  | whole i h =>
    cases i with
    | ofNat n =>
      simp [write, literal, Literal.ofNat, Literal.spell, Literal.spellFraction,
        Literal.spellExponent]
    | negSucc n =>
      simp [write, literal, Literal.ofNat, Literal.spell, Literal.spellFraction,
        Literal.spellExponent]
  | real x h =>
    have hspecial : Decimal.special? x = none := by
      rw [Decimal.special?, Binary64.not_isNaN_of_isFinite h, h]
      rfl
    have htie : realStyle.tie = .even := rfl
    rw [literal, Literal.spell_ofScientific, write, Decimal.Style.write, hspecial]
    simp only [Option.getD_none, Decimal.signed, String.toList_ofList, htie]
    split <;> simp

theorem number?_of_whole {l : Literal} {i : ℤ} (hfraction : l.fraction = none)
    (hexponent : l.exponent = none) (h : InRange i)
    (hi : (if l.negative then -(Decimal.natOfDigits l.whole : ℤ)
      else Decimal.natOfDigits l.whole) = i)
    (hzero : ¬(l.negative = true ∧ (Decimal.natOfDigits l.whole : ℤ) = 0)) :
    l.number? = some (whole i h) := by
  subst hi
  unfold Literal.number?
  rw [if_neg (by simp [hfraction, hexponent]), if_neg hzero, dif_pos h]

theorem number?_literal_whole {i : ℤ} (h : InRange i) :
    (whole i h).literal.number? = some (whole i h) := by
  cases i with
  | ofNat n =>
    apply number?_of_whole rfl rfl h
    · exact congrArg Int.ofNat (Decimal.natOfDigits_toDigits n)
    · rintro ⟨hfalse, -⟩
      cases hfalse
  | negSucc n =>
    have hvalue := Decimal.natOfDigits_toDigits (n + 1)
    apply number?_of_whole rfl rfl h
    · exact congrArg (fun k : ℕ => -(k : ℤ)) hvalue
    · rintro ⟨-, hnone⟩
      have hnone' : Decimal.natOfDigits (Nat.toDigits 10 (n + 1)) = 0 := Int.ofNat_eq_zero.1 hnone
      omega

end Json.Number

end LedgerWatch
