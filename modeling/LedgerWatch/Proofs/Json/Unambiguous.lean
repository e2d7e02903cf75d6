import LedgerWatch.Proofs.Json.Decimals
import LedgerWatch.Proofs.Json.Kept
import LedgerWatch.Proofs.Json.Pretty

namespace LedgerWatch.Json

theorem Literal.spell_injOn : Set.InjOn spell {l | l.WellFormed} := by
  intro l hl l' hl' h
  have hread := ofChars?_spell hl
  rw [h, ofChars?_spell hl'] at hread
  exact (Option.some.inj hread).symm

namespace Number

/-- A double is written with a point or an exponent. -/
theorem fraction_or_exponent_of_real {x : Float} (hx : x.isFinite = true) :
    (real x hx).literal.fraction.isSome ∨ (real x hx).literal.exponent.isSome := by
  simp only [literal, Literal.ofScientific]
  split_ifs <;> simp

theorem literal_whole_ne_literal_real {i : ℤ} (hi : InRange i) {x : Float}
    (hx : x.isFinite = true) : (whole i hi).literal ≠ (real x hx).literal := by
  intro h
  have hsome := fraction_or_exponent_of_real hx
  rw [← h] at hsome
  cases i <;> simp [literal, Literal.ofNat] at hsome

theorem literal_injective : Function.Injective literal := by
  intro n n' h
  cases n with
  | whole i hi =>
    cases n' with
    | whole i' hi' =>
      have hread := number?_literal_whole hi
      rw [h, number?_literal_whole hi'] at hread
      exact (Option.some.inj hread).symm
    | real x hx => exact absurd h (literal_whole_ne_literal_real hi hx)
  | real x hx =>
    cases n' with
    | whole i hi => exact absurd h.symm (literal_whole_ne_literal_real hi hx)
    | real x' hx' =>
      have hread := number?_write (real x hx)
      have hsame : (real x hx).write = (real x' hx').write := by
        rw [← String.toList_inj, toList_write, toList_write, h]
      rw [hsame, number?_write] at hread
      obtain rfl : x' = x := Option.some.inj hread
      rfl

theorem write_injective : Function.Injective write := by
  intro n m h
  apply literal_injective
  apply Literal.spell_injOn n.wellFormed_literal m.wellFormed_literal
  rw [← toList_write, ← toList_write, h]

theorem isLiteralChar_of_mem_write (n : Number) : ∀ c ∈ n.write.toList, isLiteralChar c = true := by
  rw [toList_write]
  exact Literal.isLiteralChar_of_mem_spell n.wellFormed_literal

end Number

/-- A run of characters of one kind ends where the next character is of another. -/
theorem eq_of_append_of_forall {p : Char → Bool} {xs ys us vs : List Char}
    (hxs : ∀ c ∈ xs, p c = true) (hys : ∀ c ∈ ys, p c = true) (hus : ∀ c ∈ us.head?, p c = false)
    (hvs : ∀ c ∈ vs.head?, p c = false) (h : xs ++ us = ys ++ vs) : xs = ys ∧ us = vs := by
  have hnone : ∀ zs : List Char, (∀ c ∈ zs.head?, p c = false) → zs.takeWhile p = [] := by
    intro zs hzs
    cases zs with
    | nil => rfl
    | cons c zs => simp [hzs c rfl]
  have htake : ∀ zs ws : List Char, (∀ c ∈ zs, p c = true) → (∀ c ∈ ws.head?, p c = false) →
      (zs ++ ws).takeWhile p = zs := by
    intro zs ws hzs hws
    rw [List.takeWhile_append_of_pos hzs, hnone ws hws, List.append_nil]
  have hsame : xs = ys := by rw [← htake xs us hxs hus, h, htake ys vs hys hvs]
  subst hsame
  exact ⟨rfl, List.append_cancel_left h⟩

namespace Token

variable {t u : Token}

/-- Only a number may be read as another token than the one that was written. -/
theorem eq_or_number_of_reread_eq (h : t.reread = u.reread) (ht : t.IsWritten)
    (hu : u.IsWritten) : t = u ∨ ∃ n m, t = .number (some n) ∧ u = .number (some m) := by
  have hrest : ∀ v : Token, v.IsWritten → (∃ n, v = .number (some n)) ∨
      v.reread = v ∧ ∀ n, v ≠ .number n := by
    intro v hv
    cases v with
    | number n =>
      cases n with
      | none => exact hv.elim
      | some n => exact .inl ⟨n, rfl⟩
    | _ => exact .inr ⟨rfl, fun n => nofun⟩
  obtain ⟨n, rfl⟩ | ⟨hsame, hnone⟩ := hrest t ht <;>
    obtain ⟨m, rfl⟩ | ⟨hsame', hnone'⟩ := hrest u hu
  · exact .inr ⟨n, m, rfl, rfl⟩
  · exact absurd (hsame'.symm.trans h.symm) (hnone' _)
  · exact absurd (hsame.symm.trans h) (hnone _)
  · exact .inl (hsame.symm.trans (h.trans hsame'))

end Token

theorem gap_number (depth : ℕ) (last : Option Token) (n m : Number) :
    gap depth last (.number n) = gap depth last (.number m) := by
  cases last with
  | none => rfl
  | some u => cases u <;> rfl

/-- Tokens that are laid out alike are the same: those that are read are the same but for their
numbers, and the text of a number ends in front of the next token. -/
theorem Readable.eq_of_laidOut {ts us : List Token} (hts : Readable ts) (hus : Readable us)
    {depth : ℕ} {last : Option Token} (h : laidOut depth last ts = laidOut depth last us) :
    ts = us := by
  have hread : ts.map Token.reread = us.map Token.reread := by
    have hlex := hts.lex?_laidOut depth last
    rw [h, hus.lex?_laidOut depth last] at hlex
    exact (Option.some.inj hlex).symm
  induction ts generalizing us depth last with
  | nil => exact (List.map_eq_nil_iff.1 hread.symm).symm
  | cons t ts ih =>
    obtain ⟨u, us, rfl, htu, hread⟩ := List.map_eq_cons_iff.1 hread.symm
    have ht := hts.written t List.mem_cons_self
    have hu := hus.written u List.mem_cons_self
    have hrest : ∀ {depth last}, laidOut depth last ts = laidOut depth last us → ts = us :=
      fun h => ih hts.tail hus.tail h hread.symm
    rw [laidOut, laidOut] at h
    obtain rfl | ⟨n, m, rfl, rfl⟩ := Token.eq_or_number_of_reread_eq htu.symm ht hu
    · rw [hrest (List.append_cancel_left (List.append_cancel_left h))]
    · rw [gap_number _ _ n m] at h
      obtain ⟨hnumber, htail⟩ := eq_of_append_of_forall
        n.isLiteralChar_of_mem_write m.isLiteralChar_of_mem_write
        (fun c hc => (hts.separates_behind rfl _ _ c hc).2)
        (fun c hc => (hus.separates_behind rfl _ _ c hc).2) (List.append_cancel_left h)
      obtain rfl := Number.write_injective (String.toList_inj.1 hnumber)
      rw [hrest htail]

mutual

theorem eq_of_tokens_append : ∀ (j k : Json) {ts us : List Token},
    tokens j ++ ts = tokens k ++ us → j = k ∧ ts = us
  | .array js, k, _, _, h => by
    cases k with
    | array ks =>
      obtain ⟨rfl, rfl⟩ := eq_of_itemTokens_append js ks (List.cons.inj h).2
      exact ⟨rfl, rfl⟩
    | _ => cases h
  | .object ms, k, _, _, h => by
    cases k with
    | object ns =>
      obtain ⟨rfl, rfl⟩ := eq_of_memberTokens_append ms ns (List.cons.inj h).2
      exact ⟨rfl, rfl⟩
    | _ => cases h
  | .string _, k, _, _, h => by
    cases k <;> cases h
    exact ⟨rfl, rfl⟩
  | .number _, k, _, _, h => by
    cases k <;> cases h
    exact ⟨rfl, rfl⟩
  | .bool _, k, _, _, h => by
    cases k <;> cases h
    exact ⟨rfl, rfl⟩
  | .null, k, _, _, h => by
    cases k <;> cases h
    exact ⟨rfl, rfl⟩

theorem eq_of_itemTokens_append : ∀ (js ks : List Json) {ts us : List Token},
    itemTokens js ++ ts = itemTokens ks ++ us → js = ks ∧ ts = us
  | [], [], _, _, h => ⟨rfl, (List.cons.inj h).2⟩
  | [], k :: _, _, _, h => by cases k <;> cases h
  | j :: _, [], _, _, h => by cases j <;> cases h
  | j :: js, k :: ks, _, _, h => by
    rw [itemTokens, itemTokens, List.append_assoc, List.append_assoc] at h
    obtain ⟨rfl, hrest⟩ := eq_of_tokens_append j k h
    obtain ⟨rfl, rfl⟩ := eq_of_moreItemTokens_append js ks hrest
    exact ⟨rfl, rfl⟩

theorem eq_of_moreItemTokens_append : ∀ (js ks : List Json) {ts us : List Token},
    moreItemTokens js ++ ts = moreItemTokens ks ++ us → js = ks ∧ ts = us
  | [], [], _, _, h => ⟨rfl, (List.cons.inj h).2⟩
  | [], _ :: _, _, _, h => by cases h
  | _ :: _, [], _, _, h => by cases h
  | j :: js, k :: ks, _, _, h => by
    rw [moreItemTokens, moreItemTokens, List.append_assoc, List.append_assoc] at h
    obtain ⟨rfl, hrest⟩ := eq_of_tokens_append j k (List.cons.inj h).2
    obtain ⟨rfl, rfl⟩ := eq_of_moreItemTokens_append js ks hrest
    exact ⟨rfl, rfl⟩

theorem eq_of_memberTokens_append : ∀ (ms ns : List (String × Json)) {ts us : List Token},
    memberTokens ms ++ ts = memberTokens ns ++ us → ms = ns ∧ ts = us
  | [], [], _, _, h => ⟨rfl, (List.cons.inj h).2⟩
  | [], _ :: _, _, _, h => by cases h
  | _ :: _, [], _, _, h => by cases h
  | (m, j) :: ms, (n, k) :: ns, _, _, h => by
    rw [memberTokens, memberTokens, List.append_assoc, List.append_assoc] at h
    obtain ⟨hname, htail⟩ := List.cons.inj h
    cases hname
    obtain ⟨rfl, hrest⟩ := eq_of_tokens_append j k (List.cons.inj htail).2
    obtain ⟨rfl, rfl⟩ := eq_of_moreMemberTokens_append ms ns hrest
    exact ⟨rfl, rfl⟩

theorem eq_of_moreMemberTokens_append : ∀ (ms ns : List (String × Json)) {ts us : List Token},
    moreMemberTokens ms ++ ts = moreMemberTokens ns ++ us → ms = ns ∧ ts = us
  | [], [], _, _, h => ⟨rfl, (List.cons.inj h).2⟩
  | [], _ :: _, _, _, h => by cases h
  | _ :: _, [], _, _, h => by cases h
  | (m, j) :: ms, (n, k) :: ns, _, _, h => by
    rw [moreMemberTokens, moreMemberTokens, List.append_assoc, List.append_assoc] at h
    obtain ⟨hname, htail⟩ := List.cons.inj (List.cons.inj h).2
    cases hname
    obtain ⟨rfl, hrest⟩ := eq_of_tokens_append j k (List.cons.inj htail).2
    obtain ⟨rfl, rfl⟩ := eq_of_moreMemberTokens_append ms ns hrest
    exact ⟨rfl, rfl⟩

end

/-- Different values have different texts. -/
theorem pretty_injective : Function.Injective pretty := by
  intro j k h
  rw [← String.toList_inj, toList_pretty, toList_pretty] at h
  have htokens := (readable_tokens j).eq_of_laidOut (readable_tokens k) h
  have happend : tokens j ++ [] = tokens k ++ [] := by rw [htokens]
  exact (eq_of_tokens_append j k happend).1

end LedgerWatch.Json
