import LedgerWatch.Proofs.Json.Rereading

namespace LedgerWatch

open Binary64

namespace Decimal

/-- What begins with a digit is no word. -/
theorem word?_of_digit {c : Char} (hc : c.isDigit = true) (s : List Char) :
    word? (c :: s) = none := by
  have hlower : c.toLower = c := by
    rw [Char.toLower, dif_neg]
    simp only [Char.isDigit, Bool.and_eq_true, decide_eq_true_eq] at hc
    rintro ⟨hge, -⟩
    exact absurd (UInt32.le_trans hge hc.2) (by decide)
  have hother : ∀ w : List Char, (∀ d ∈ w.head?, d.isDigit = false) →
      String.ofList ((c :: s).map Char.toLower) ≠ String.ofList w := by
    intro w hw heq
    rw [String.ofList_inj, List.map_cons, hlower] at heq
    have hdigit := hw c (by rw [← heq]; rfl)
    rw [hc] at hdigit
    cases hdigit
  have hinf : String.ofList ((c :: s).map Char.toLower) ≠ "inf" :=
    hother ['i', 'n', 'f'] (by simp)
  have hinfinity : String.ofList ((c :: s).map Char.toLower) ≠ "infinity" :=
    hother ['i', 'n', 'f', 'i', 'n', 'i', 't', 'y'] (by simp)
  have hnan : String.ofList ((c :: s).map Char.toLower) ≠ "nan" :=
    hother ['n', 'a', 'n'] (by simp)
  simp only [word?, hinf, hinfinity, hnan, or_self, if_false]

end Decimal

namespace Json.Literal

variable {l : Literal}

theorem unsigned?_decimal (h : l.WellFormed) :
    Decimal.unsigned? (l.whole ++ (spellFraction l.fraction ++ spellExponent l.exponent)) =
      some (Decimal.nearest l.significand l.power) := by
  have hspan := spanDigits_whole h
  obtain ⟨negative, whole, fraction, exponent⟩ := l
  obtain ⟨hne, -, -, hfraction⟩ := h
  simp only at hne hfraction hspan ⊢
  have hhead := isDigit_of_head_spellExponent exponent
  have hexponent : Decimal.exponent? (spellExponent exponent) = some (exponent.getD 0) := by
    cases exponent with
    | none => rfl
    | some e => exact Decimal.exponent?_spelled e
  unfold Decimal.unsigned?
  rw [hspan]
  cases fraction with
  | none =>
    cases exponent with
    | none => simp [spellFraction, spellExponent, hne, Decimal.exponent?, significand, power]
    | some e =>
      simp only [hne, false_and, if_false]
      show Option.map _ (Decimal.exponent? (spellExponent (some e))) = _
      rw [hexponent]
      rfl
  | some ds =>
    have hds := Decimal.spanDigits_append (hfraction ds rfl).2 hhead
    simp only [spellFraction, List.cons_append, hds, hne, false_and, if_false, hexponent]
    rfl

/-- A literal as a decimal: its significand times its power of ten, rounded once. -/
theorem number?_decimal (h : l.WellFormed) :
    Decimal.number? l.spell = some (if l.negative then -Decimal.nearest l.significand l.power
      else Decimal.nearest l.significand l.power) := by
  have hunsigned := unsigned?_decimal h
  obtain ⟨c, r, hcr, hc⟩ := isDigit_head
    (s := spellFraction l.fraction ++ spellExponent l.exponent) h.whole_ne_nil h.whole
  have hword : Decimal.word?
      (l.whole ++ (spellFraction l.fraction ++ spellExponent l.exponent)) = none := by
    rw [hcr]
    exact Decimal.word?_of_digit hc r
  have hread : Decimal.spanSign l.spell =
      (l.negative, l.whole ++ (spellFraction l.fraction ++ spellExponent l.exponent)) := by
    unfold spell
    cases l.negative with
    | true => rfl
    | false =>
      obtain ⟨hminus, hplus⟩ := Decimal.ne_sign_of_isDigit hc
      rw [if_neg Bool.false_ne_true, List.nil_append, hcr]
      simp [Decimal.spanSign, hminus, hplus]
  simp only [Decimal.number?, hread, hword, hunsigned]
  rfl

end Json.Literal

namespace Json.Number

theorem number?_write (n : Number) : Decimal.number? n.write.toList = some n.toFloat := by
  rw [toList_write, Literal.number?_decimal n.wellFormed_literal]
  congr 1
  cases n with
  | whole i h =>
    have hsignificand : ∀ (negative : Bool) (k : ℕ),
        Decimal.nearest (Literal.ofNat negative k).significand (Literal.ofNat negative k).power =
          Float.ofNat k := by
      intro negative k
      have hdigits : (Literal.ofNat negative k).significand = k := by
        rw [Literal.significand, Literal.ofNat, Option.getD_none, List.append_nil,
          Decimal.natOfDigits_toDigits]
      rw [hdigits]
      rfl
    cases i with
    | ofNat k =>
      rw [literal, hsignificand]
      rfl
    | negSucc k =>
      rw [literal, hsignificand]
      rfl
  | real x hx =>
    apply eq_of_rounds_literal hx _ (Decimal.rounds_nearest _ _)
    -- both zeros are written, the sign apart, as 0.0
    intro hzero
    rw [literal_of_zero hx hzero]
    show Decimal.nearest 0 (-1) = 0
    apply eq_of_parts <;> decide +kernel

end Json.Number

end LedgerWatch
