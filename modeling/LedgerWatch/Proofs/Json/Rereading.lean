import LedgerWatch.Proofs.Json.Literals
import LedgerWatch.Proofs.Number.Magnitude
import LedgerWatch.Proofs.Number.Reading

namespace LedgerWatch.Json

open Binary64

def Number.reread? (n : Number) : Option Number := n.literal.number?

namespace Literal

def significand (l : Literal) : ℕ := Decimal.natOfDigits (l.whole ++ l.fraction.getD [])

def power (l : Literal) : ℤ := l.exponent.getD 0 - (l.fraction.getD []).length

/-- A significand and a power of ten that are doubles. -/
def IsShort (l : Literal) : Prop := l.significand < 2 ^ 53 ∧ l.power.natAbs ≤ 22

instance (l : Literal) : Decidable l.IsShort := inferInstanceAs (Decidable (_ ∧ _))

section Digits

variable {ds es : List Char} {n : ℕ}

theorem natOfDigits_append (ds es : List Char) :
    Decimal.natOfDigits (ds ++ es) =
      Decimal.natOfDigits ds * 10 ^ es.length + Decimal.natOfDigits es := by
  show Nat.ofDigitChars 10 (ds ++ es) 0 = _
  rw [Nat.ofDigitChars_append, Nat.ofDigitChars_eq_ofDigitChars_zero, mul_comm]
  rfl

theorem natOfDigits_zeros (n : ℕ) : Decimal.natOfDigits (Decimal.zeros n) = 0 := by
  show Nat.ofDigitChars 10 (List.replicate n '0') 0 = 0
  rw [Nat.ofDigitChars_replicate_zero, mul_zero]

theorem le_ofDigitChars (ds : List Char) (n : ℕ) : n ≤ Nat.ofDigitChars 10 ds n := by
  rw [Nat.ofDigitChars_eq_ofDigitChars_zero]
  exact (Nat.le_mul_of_pos_left n (by positivity)).trans (Nat.le_add_right _ _)

theorem takeDigits_of_lt (h : Nat.ofDigitChars 10 ds n < UInt64.size) :
    takeDigits n ds = (Nat.ofDigitChars 10 ds n, ds.length) := by
  induction ds generalizing n with
  | nil => rfl
  | cons c ds ih =>
    have hrest : Nat.ofDigitChars 10 ds (10 * n + Decimal.digitValue c) < UInt64.size := h
    have hnext : 10 * n + Decimal.digitValue c < UInt64.size :=
      (le_ofDigitChars ds _).trans_lt hrest
    simp only [takeDigits, if_pos hnext, ih hrest]
    rfl

end Digits

section Reading

variable {l : Literal} {m k : ℕ} {e p : ℤ}

theorem real?_of_lt (h : l.significand < UInt64.size) :
    l.real? = (scaled? l.significand l.power).bind l.signed := by
  have hsplit : l.significand =
      Nat.ofDigitChars 10 (l.fraction.getD []) (Decimal.natOfDigits l.whole) :=
    Nat.ofDigitChars_append 0
  have hwhole : takeDigits 0 l.whole = (Decimal.natOfDigits l.whole, l.whole.length) := by
    apply takeDigits_of_lt
    refine lt_of_le_of_lt ?_ h
    rw [hsplit]
    exact le_ofDigitChars _ _
  have hfraction := takeDigits_of_lt (hsplit ▸ h)
  unfold real?
  simp only [hwhole, hfraction, ← hsplit]
  congr 2
  rw [power]
  omega

theorem value_powerOfTen (hk : k ≤ 22) :
    (powerOfTen k).isFinite = true ∧ value (powerOfTen k) = 10 ^ k := by
  have hround := Decimal.rounds_nearest 1 k
  rw [Nat.cast_one, one_mul, zpow_natCast] at hround
  apply hround.eq_of_representable (representable_ten_pow hk)
  calc |(10 : ℝ) ^ k| = 10 ^ k := abs_of_nonneg (by positivity)
    _ ≤ 10 ^ 22 := pow_le_pow_right₀ (by norm_num) hk
    _ ≤ 2 ^ (74 : ℤ) := by norm_num
    _ < limit := two_zpow_lt_limit (by norm_num)

/-- A whole number and a power of ten that are doubles are put together with one rounding. -/
theorem scaled?_of_short (hm : m < 2 ^ 53) (he : e.natAbs ≤ 22) :
    ∃ y, scaled? m e = some y ∧ y.isFinite = true ∧ Nearest (m * 10 ^ e) (value y) := by
  obtain ⟨hwhole, hm'⟩ := (rounds_ofNat m).eq_of_representable (representable_natCast hm.le)
    (abs_natCast_lt_limit hm.le)
  have hfinite : ∀ {y : Float}, Rounds (m * 10 ^ e) y → y.isFinite = true := by
    intro y hy
    refine (hy.isFinite_of_abs_le (representable_two_zpow (by norm_num)) (two_zpow_lt_limit
      (show (127 : ℤ) < 1024 by norm_num)) ?_).1
    have hten : (10 : ℝ) ^ e ≤ 2 ^ (74 : ℤ) :=
      calc (10 : ℝ) ^ e ≤ 10 ^ (22 : ℤ) := zpow_le_zpow_right₀ (by norm_num) (by omega)
        _ ≤ 2 ^ (74 : ℤ) := by norm_num
    have hcast : (m : ℝ) ≤ 2 ^ (53 : ℤ) := by exact_mod_cast hm.le
    rw [abs_of_nonneg (by positivity)]
    calc (m : ℝ) * 10 ^ e ≤ 2 ^ (53 : ℤ) * 2 ^ (74 : ℤ) :=
          mul_le_mul hcast hten (by positivity) (by positivity)
      _ = 2 ^ (127 : ℤ) := by norm_num
  unfold scaled?
  by_cases hsign : 0 ≤ e
  · obtain ⟨k, rfl⟩ := Int.eq_ofNat_of_zero_le hsign
    obtain ⟨hpower, hten⟩ := value_powerOfTen (show k ≤ 22 by omega)
    have hround := rounds_mul hwhole hpower
    rw [hm', hten, ← zpow_natCast] at hround
    have hy := hfinite hround
    refine ⟨_, ?_, hy, hround.nearest_of_isFinite hy⟩
    simp only [Int.toNat_natCast, if_pos hsign, if_pos (show (k : ℤ) ≤ 308 by omega), if_pos hy]
  · obtain ⟨k, rfl⟩ : ∃ k : ℕ, e = -k := ⟨(-e).toNat, by omega⟩
    obtain ⟨hpower, hten⟩ := value_powerOfTen (show k ≤ 22 by omega)
    have hround := rounds_div hwhole hpower (by rw [hten]; positivity)
    rw [hm', hten, div_eq_mul_inv, ← zpow_natCast, ← zpow_neg] at hround
    have hy := hfinite hround
    refine ⟨_, ?_, hy, hround.nearest_of_isFinite hy⟩
    simp only [neg_neg, Int.toNat_natCast, if_neg hsign, if_pos (show k ≤ 308 by omega)]

/-- Where the point stands does not matter to the value of a literal. -/
theorem value_ofScientific (negative : Bool) {digits : List Char} (hne : digits ≠ []) (p : ℤ) :
    ((ofScientific negative digits p).significand : ℝ) *
        10 ^ (ofScientific negative digits p).power =
      Decimal.natOfDigits digits * 10 ^ (p - digits.length) := by
  have hten : (10 : ℝ) ≠ 0 := by norm_num
  unfold ofScientific
  split
  · split
    · rename_i hp
      have hzeros : ['0'] ++ (Decimal.zeros (-p).toNat ++ digits) =
          Decimal.zeros ((-p).toNat + 1) ++ digits := rfl
      simp only [significand, power, Option.getD_some, Option.getD_none, hzeros,
        natOfDigits_append, natOfDigits_zeros, zero_mul, zero_add]
      congr 2
      simp [Decimal.zeros]
      omega
    · split
      · rename_i hp hlt
        simp only [significand, power, Option.getD_some, Option.getD_none,
          List.take_append_drop, List.length_drop]
        congr 2
        omega
      · rename_i hp hge
        have hzeros : (digits ++ Decimal.zeros (p.toNat - digits.length)) ++ ['0'] =
            digits ++ Decimal.zeros (p.toNat - digits.length + 1) := by
          simp [Decimal.zeros, List.replicate_succ']
        simp only [significand, power, Option.getD_some, Option.getD_none, hzeros,
          natOfDigits_append, natOfDigits_zeros, add_zero, zero_sub, List.length_singleton]
        have hexponent : p - digits.length =
            ((Decimal.zeros (p.toNat - digits.length + 1)).length : ℤ) + -1 := by
          rw [Decimal.zeros, List.length_replicate]
          omega
        rw [hexponent, zpow_add₀ hten, zpow_natCast]
        push_cast
        ring
  · have hpos : 0 < digits.length := List.length_pos_iff.2 hne
    have hdigits : digits.take 1 ++
        (if digits.length ≤ 1 then none else some (digits.drop 1)).getD [] = digits := by
      split
      · rename_i hone
        simp [List.take_of_length_le hone]
      · exact List.take_append_drop 1 digits
    have hplaces : ((if digits.length ≤ 1 then none else some (digits.drop 1)).getD []).length =
        digits.length - 1 := by
      split
      · simp only [Option.getD_none, List.length_nil]
        omega
      · simp
    simp only [significand, power, Option.getD_some, hdigits, hplaces]
    congr 2
    omega

theorem negative_ofScientific (negative : Bool) (digits : List Char) (p : ℤ) :
    (ofScientific negative digits p).negative = negative := by
  unfold ofScientific
  split
  · split
    · rfl
    · split <;> rfl
  · rfl

/-- A point or an exponent makes a double of a literal. -/
theorem number?_ofScientific (negative : Bool) (digits : List Char) (p : ℤ) :
    (ofScientific negative digits p).number? = (ofScientific negative digits p).real? := by
  have hmark : (ofScientific negative digits p).fraction.isSome ∨
      (ofScientific negative digits p).exponent.isSome := by
    unfold ofScientific
    split
    · left
      split
      · rfl
      · split <;> rfl
    · exact .inr rfl
  rw [number?, if_pos hmark]

end Reading

end Literal

namespace Number

variable {x : Float}

theorem signed_eq {l : Literal} {y : Float} (hx : x.isFinite = true)
    (hy : (if l.negative then -y else y) = x) : l.signed y = some (real x hx) := by
  subst hy
  exact dif_pos hx

/-- The literal of the two zeros. -/
theorem literal_of_zero (hx : x.isFinite = true) (hzero : (parts x).significand = 0) :
    (real x hx).literal = ⟨(parts x).negative, ['0'], some ['0'], none⟩ := by
  have hshortest : Decimal.shortest .even (parts x).significand (parts x).exponent = ⟨0, 0⟩ := by
    rw [hzero]
    rfl
  simp only [literal, hshortest]
  rfl

/-- A written literal that is rounded once, with the sign of the literal. -/
theorem eq_of_rounds_literal {y : Float} (hx : x.isFinite = true)
    (hzero : (parts x).significand = 0 → y = 0)
    (hround : Rounds ((real x hx).literal.significand * 10 ^ (real x hx).literal.power) y) :
    (if (real x hx).literal.negative then -y else y) = x := by
  obtain ⟨s, hs⟩ : ∃ s, s = Decimal.shortest .even (parts x).significand (parts x).exponent :=
    ⟨_, rfl⟩
  have hliteral : (real x hx).literal = .ofScientific (parts x).negative
      (Nat.toDigits 10 s.digits) ((Nat.toDigits 10 s.digits).length + s.exponent) := by
    rw [hs]
    rfl
  have hvalue : ((real x hx).literal.significand : ℝ) * 10 ^ (real x hx).literal.power =
      s.real := by
    rw [hliteral, Literal.value_ofScientific _ Nat.toDigits_ne_nil, add_sub_cancel_left,
      Decimal.natOfDigits_toDigits]
    rfl
  have hnegative : (real x hx).literal.negative = (parts x).negative := by
    rw [hliteral, Literal.negative_ofScientific]
  rw [hvalue] at hround
  rw [hnegative]
  rcases Nat.eq_zero_or_pos (parts x).significand with hnone | hpos
  · -- one of the two zeros
    have hleast : (parts x).exponent = -1074 :=
      (parts_canonical x).2.2.resolve_right (by omega)
    rw [hzero hnone]
    cases hsign : (parts x).negative with
    | true => apply eq_of_parts <;> simp only [hsign, hnone, hleast] <;> decide +kernel
    | false => apply eq_of_parts <;> simp only [hsign, hnone, hleast] <;> decide +kernel
  · obtain ⟨hlt, hleast, hfull⟩ := parts_canonical x
    have hx' := Decimal.nearest_shortest .even hpos hlt hleast hfull
    rw [← hs] at hx'
    have hpos' : (0 : ℝ) < (parts x).significand * 2 ^ (parts x).exponent := by positivity
    have habs : |value x| = (parts x).significand * 2 ^ (parts x).exponent := by
      rw [value_eq_parts hx, abs_signed, abs_of_pos hpos']
    have hne : value x ≠ 0 := by
      rw [← abs_ne_zero, habs]
      exact hpos'.ne'
    cases hround with
    | finite hy hnearest =>
      have hmag : value y = (parts x).significand * 2 ^ (parts x).exponent := hnearest.unique hx'
      apply eq_of_value hx _ hne
      · rw [value_eq_parts hx, Parts.sign, ← hmag]
        cases (parts x).negative with
        | true => exact value_neg y
        | false => rfl
      · cases (parts x).negative with
        | true => exact (isFinite_neg y).trans hy
        | false => exact hy
    | infinite sign r _ hlarge hnearest =>
      have hsize := abs_signed sign r
      rw [hnearest.unique hx', abs_of_pos hpos', ← habs] at hsize
      linarith [abs_value_lt x, le_abs_self r]

theorem reread?_of_isShort (hx : x.isFinite = true) (h : (real x hx).literal.IsShort) :
    (real x hx).reread? = some (real x hx) := by
  obtain ⟨y, hscaled, hy, hnearest⟩ := Literal.scaled?_of_short h.1 h.2
  have hdouble : (real x hx).literal.number? = (real x hx).literal.real? :=
    Literal.number?_ofScientific _ _ _
  have hread : (real x hx).reread? = (real x hx).literal.signed y := by
    rw [reread?, hdouble, Literal.real?_of_lt (h.1.trans (by decide)), hscaled]
    rfl
  rw [hread]
  apply signed_eq hx
  apply eq_of_rounds_literal hx _ (.finite hy hnearest)
  intro hzero
  have hsame : scaled? 0 (-1) = some y := by
    rw [literal_of_zero hx hzero] at hscaled
    exact hscaled
  have hy' : parts y = ⟨false, 0, -1074⟩ := by
    have hparts : (scaled? 0 (-1)).map parts = some ⟨false, 0, -1074⟩ := by decide +kernel
    rw [hsame] at hparts
    exact Option.some.inj hparts
  apply eq_of_parts <;> rw [hy'] <;> decide +kernel

end Number

end LedgerWatch.Json
