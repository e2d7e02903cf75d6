import LedgerWatch.Text.Blank
import Mathlib.Data.List.TakeWhile

namespace LedgerWatch.Text

variable {c : Char} {before core after s : List Char}

theorem code_of_isBlank (h : isBlank c = true) : c.toNat ≤ 0x20 ∨ 0x85 ≤ c.toNat := by
  simp only [isBlank, blankRuns, List.any_cons, List.any_nil, Bool.or_eq_true,
    Bool.and_eq_true, decide_eq_true_eq, Bool.false_eq_true, or_false] at h
  omega

theorem isBlank_of_isDigit (h : c.isDigit = true) : isBlank c = false := by
  have hrange : 48 ≤ c.toNat ∧ c.toNat ≤ 57 := by
    simp only [Char.isDigit, Bool.and_eq_true, decide_eq_true_eq, UInt32.le_iff_toNat_le] at h
    exact h
  rw [Bool.eq_false_iff]
  intro hblank
  have hcode := code_of_isBlank hblank
  omega

theorem dropWhile_blanks (hbefore : ∀ c ∈ before, isBlank c = true)
    (hhead : ∀ c ∈ core.head?, isBlank c = false) :
    (before ++ core).dropWhile isBlank = core := by
  rw [List.dropWhile_append_of_pos hbefore]
  cases core with
  | nil => rfl
  | cons c core => exact List.dropWhile_cons_of_neg (by simp [hhead c rfl])

theorem trim_of_blank (h : ∀ c ∈ s, isBlank c = true) : trim s = [] := by
  rw [trim, trimStart, List.dropWhile_eq_nil_iff.2 h]
  rfl

theorem trim_surrounded (hbefore : ∀ c ∈ before, isBlank c = true)
    (hafter : ∀ c ∈ after, isBlank c = true) (hhead : ∀ c ∈ core.head?, isBlank c = false)
    (hlast : ∀ c ∈ core.getLast?, isBlank c = false) : trim (before ++ core ++ after) = core := by
  cases core with
  | nil =>
    apply trim_of_blank
    simpa [or_imp, forall_and] using And.intro hbefore hafter
  | cons c core =>
    have hstart : trimStart (before ++ (c :: core) ++ after) = c :: core ++ after := by
      rw [trimStart, List.append_assoc]
      exact dropWhile_blanks hbefore hhead
    have hend : (after.reverse ++ (c :: core).reverse).dropWhile isBlank = (c :: core).reverse := by
      apply dropWhile_blanks
      · simpa using hafter
      · rwa [List.head?_reverse]
    rw [trim, hstart, trimEnd, List.reverse_append, hend, List.reverse_reverse]

/-- A text without blanks between two runs of them. -/
theorem trim_of_not_blank (hbefore : ∀ c ∈ before, isBlank c = true)
    (hafter : ∀ c ∈ after, isBlank c = true) (hcore : ∀ c ∈ core, isBlank c = false) :
    trim (before ++ core ++ after) = core :=
  trim_surrounded hbefore hafter (fun c hc => hcore c (List.mem_of_mem_head? hc))
    (fun c hc => hcore c (List.mem_of_mem_getLast? hc))

theorem trim_eq_nil_iff : trim s = [] ↔ ∀ c ∈ s, isBlank c = true := by
  refine ⟨fun h c hc => ?_, trim_of_blank⟩
  have hrest : ∀ c ∈ s.dropWhile isBlank, isBlank c = true := by
    rw [trim, trimEnd, List.reverse_eq_nil_iff, List.dropWhile_eq_nil_iff] at h
    exact fun c hc => h c (List.mem_reverse.2 hc)
  rw [← List.takeWhile_append_dropWhile (p := isBlank) (l := s), List.mem_append] at hc
  exact hc.elim List.mem_takeWhile_imp (hrest c)

end LedgerWatch.Text
