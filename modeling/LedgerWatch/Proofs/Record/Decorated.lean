import LedgerWatch.Proofs.Json.Decimals
import LedgerWatch.Proofs.Json.Pretty
import LedgerWatch.Proofs.Text.Blanks
import LedgerWatch.Record.Basic

namespace LedgerWatch

namespace Text

/-- Commas put into a text, at any places. -/
inductive Commas : List Char → List Char → Prop
  | nil : Commas [] []
  | comma {s t : List Char} (rest : Commas s t) : Commas (',' :: s) t
  | keep (c : Char) {s t : List Char} (rest : Commas s t) : Commas (c :: s) (c :: t)

/-- A text without commas, dollar signs and blanks. -/
def Plain (t : List Char) : Prop := ∀ c ∈ t, c ≠ ',' ∧ c ≠ '$' ∧ isBlank c = false

/-- A text with dollar signs in front, commas behind them and blanks around the whole. -/
inductive Decorated (t : List Char) : List Char → Prop
  | intro {before body after : List Char} (dollars : ℕ)
      (hbefore : ∀ c ∈ before, isBlank c = true) (hbody : Commas body t)
      (hafter : ∀ c ∈ after, isBlank c = true) :
      Decorated t (before ++ (List.replicate dollars '$' ++ body) ++ after)

section Decorations

variable {s t : List Char}

theorem Commas.refl : ∀ t : List Char, Commas t t
  | [] => .nil
  | c :: t => .keep c (refl t)

theorem Commas.mem (h : Commas s t) : ∀ c ∈ s, c = ',' ∨ c ∈ t := by
  induction h with
  | nil => exact List.forall_mem_nil _
  | comma _ ih => exact List.forall_mem_cons.2 ⟨.inl rfl, ih⟩
  | keep c _ ih =>
    exact List.forall_mem_cons.2 ⟨.inr List.mem_cons_self,
      fun d hd => (ih d hd).imp id (List.mem_cons_of_mem c)⟩

theorem Commas.filter (h : Commas s t) (ht : Plain t) : s.filter (· ≠ ',') = t := by
  induction h with
  | nil => rfl
  | comma _ ih => exact ih ht
  | keep c _ ih =>
    obtain ⟨⟨hc, -⟩, hrest⟩ := List.forall_mem_cons.1 ht
    rw [List.filter_cons_of_pos (by simpa using hc), ih hrest]

theorem Decorated.refl (t : List Char) : Decorated t t := by
  have h := Decorated.intro 0 (List.forall_mem_nil _) (Commas.refl t) (List.forall_mem_nil _)
  rwa [List.replicate_zero, List.nil_append, List.nil_append, List.append_nil] at h

end Decorations

end Text

namespace Record

open Text

section Reading

variable {s t : List Char}

/-- What is left of a decorated text is the text. -/
theorem numberInText?_of_decorated (ht : Plain t) (h : Decorated t s) :
    numberInText? s = Decimal.number? t := by
  cases h with
  | @intro before body after dollars hbefore hbody hafter =>
    have hmem : ∀ c ∈ body, c ≠ '$' ∧ isBlank c = false := by
      intro c hc
      rcases hbody.mem c hc with rfl | hc
      · decide
      · exact (ht c hc).2
    have htrim : trim (before ++ (List.replicate dollars '$' ++ body) ++ after) =
        List.replicate dollars '$' ++ body := by
      apply trim_of_not_blank hbefore hafter
      intro c hc
      rcases List.mem_append.1 hc with hc | hc
      · rw [List.eq_of_mem_replicate hc]
        decide
      · exact (hmem c hc).2
    have hdollars : (List.replicate dollars '$' ++ body).dropWhile (· = '$') = body := by
      rw [List.dropWhile_append_of_pos fun c hc => decide_eq_true (List.eq_of_mem_replicate hc)]
      cases body with
      | nil => rfl
      | cons c body =>
        exact List.dropWhile_cons_of_neg (by simpa using (hmem c List.mem_cons_self).1)
    rw [numberInText?, htrim, hdollars, hbody.filter ht]

theorem numeric?_of_get? {r : Record} {name : String} {j : Json} (h : r.get? name = some j) :
    r.numeric? name = (numberOf? j).filter Float.isFinite := by
  rw [numeric?, h, Option.bind_some]

end Reading

end Record

namespace Json

theorem Number.isFinite_toFloat (n : Number) : n.toFloat.isFinite = true := by
  have hwhole : ∀ k : ℕ, k ≤ 2 ^ 64 → (Float.ofNat k).isFinite = true := by
    intro k hk
    refine ((Binary64.rounds_ofNat k).isFinite_of_abs_le
      (Binary64.representable_two_zpow (show -1074 ≤ (64 : ℤ) by norm_num))
      (Binary64.two_zpow_lt_limit (by norm_num)) ?_).1
    rw [Nat.abs_cast]
    exact_mod_cast hk
  cases n with
  | whole i h =>
    cases i with
    | ofNat k => exact hwhole k (by have := h.2; simp only [Int.ofNat_eq_natCast] at this; omega)
    | negSucc k =>
      rw [toFloat, Binary64.isFinite_neg]
      exact hwhole (k + 1) (by have := h.1; omega)
  | real x h => exact h

theorem plain_of_isLiteralChar {c : Char} (h : isLiteralChar c = true) :
    c ≠ ',' ∧ c ≠ '$' ∧ Text.isBlank c = false := by
  simp only [isLiteralChar, Bool.or_eq_true, decide_eq_true_eq] at h
  rcases h with ((((hdigit | rfl) | rfl) | rfl) | rfl) | rfl
  · refine ⟨?_, ?_, Text.isBlank_of_isDigit hdigit⟩ <;> rintro rfl <;>
      exact absurd hdigit (by decide)
  all_goals decide

theorem Number.plain_write (n : Number) : Text.Plain n.write.toList := by
  intro c hc
  rw [toList_write] at hc
  exact plain_of_isLiteralChar (Literal.isLiteralChar_of_mem_spell n.wellFormed_literal c hc)

end Json

namespace Record

open Text

/-- A field with a decorated text reads as one with the plain text, and as one with the number whose
text it is; what is read is finite. -/
theorem numeric?_of_decorated {r r' : Record} {name name' s : String}
    (hs : r.get? name = some (.string s)) :
    (∀ n : Json.Number, Decorated n.write.toList s.toList → r'.get? name' = some (.number n) →
      r.numeric? name = r'.numeric? name' ∧ r.numeric? name = some n.toFloat) ∧
    (∀ t : String, Plain t.toList → Decorated t.toList s.toList →
      r'.get? name' = some (.string t) → r.numeric? name = r'.numeric? name') ∧
    ∀ x, r'.numeric? name' = some x → x.isFinite = true := by
  refine ⟨fun n hn hr' => ?_, fun t ht hd hr' => ?_, fun x hx => ?_⟩
  · have hread : numberOf? (.string s) = some n.toFloat := by
      rw [numberOf?, numberInText?_of_decorated n.plain_write hn, n.number?_write]
    have hsame : r.numeric? name = some n.toFloat := by
      rw [numeric?_of_get? hs, hread, Option.filter_some, if_pos n.isFinite_toFloat]
    refine ⟨?_, hsame⟩
    rw [hsame, numeric?_of_get? hr', numberOf?, Option.filter_some, if_pos n.isFinite_toFloat]
  · rw [numeric?_of_get? hs, numeric?_of_get? hr', numberOf?, numberOf?,
      numberInText?_of_decorated ht hd, numberInText?_of_decorated ht (.refl _)]
  · exact (Option.filter_eq_some_iff.1 hx).2

theorem numeric?_of_decorated_exponent :
    (⟨[("amount", .string " $$,1,e+2,1\t")]⟩ : Record).numeric? "amount" = some 1e21 := by
  have hfinite : (1e21 : Float).isFinite = true := by decide +kernel
  have hwritten : (Json.realStyle.write 1e21).toList = ['1', 'e', '+', '2', '1'] := by
    decide +kernel
  have hcommas : Commas [',', '1', ',', 'e', '+', '2', ',', '1'] ['1', 'e', '+', '2', '1'] :=
    .comma (.keep '1' (.comma (.keep 'e' (.keep '+' (.keep '2' (.comma (.keep '1' .nil)))))))
  have hsplit : " $$,1,e+2,1\t".toList =
      [' '] ++ (List.replicate 2 '$' ++ [',', '1', ',', 'e', '+', '2', ',', '1']) ++ ['\t'] := by
    decide +kernel
  have hdecorated : Decorated (Json.Number.real 1e21 hfinite).write.toList
      " $$,1,e+2,1\t".toList := by
    rw [Json.Number.write, hwritten, hsplit]
    exact .intro 2 (List.forall_mem_singleton.2 rfl) hcommas (List.forall_mem_singleton.2 rfl)
  have htext : (⟨[("amount", .string " $$,1,e+2,1\t")]⟩ : Record).get? "amount" =
      some (.string " $$,1,e+2,1\t") := rfl
  have hnumber : (⟨[("amount", .number (.real 1e21 hfinite))]⟩ : Record).get? "amount" =
      some (.number (.real 1e21 hfinite)) := rfl
  exact ((numeric?_of_decorated htext).1 _ hdecorated hnumber).2

end Record

end LedgerWatch
