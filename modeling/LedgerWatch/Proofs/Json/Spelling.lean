import LedgerWatch.Proofs.Json.Lexing
import Mathlib.Data.List.Forall2

namespace LedgerWatch.Json.Draft

def Partial.under (fs : List Frame) : Partial → Partial
  | .wantsValue outer => .wantsValue (outer ++ fs)
  | .wantsItem outer => .wantsItem (outer ++ fs)
  | .wantsMember outer => .wantsMember (outer ++ fs)
  | .wantsName done outer => .wantsName done (outer ++ fs)
  | .wantsColon done name outer => .wantsColon done name (outer ++ fs)
  | .finished d outer => .finished d (outer ++ fs)

namespace Partial

variable {p q : Partial} {t : Token} {ts : List Token} {d : Draft}

theorem step_under (fs : List Frame) (h : p.step t = some q) :
    (p.under fs).step t = some (q.under fs) := by
  cases p with
  | finished d outer =>
    -- only the innermost bracket is looked at
    rcases outer with _ | ⟨⟨done⟩ | ⟨done, name⟩, outer⟩ <;> cases t <;> cases h <;> rfl
  | _ => cases t <;> cases h <;> rfl

theorem foldlM_step_under (fs : List Frame) (h : ts.foldlM step p = some q) :
    ts.foldlM step (p.under fs) = some (q.under fs) := by
  induction ts generalizing p with
  | nil => cases h; rfl
  | cons t ts ih =>
    rw [List.foldlM_cons] at h ⊢
    obtain ⟨next, hstep, hrest⟩ := Option.bind_eq_some_iff.1 h
    rw [step_under fs hstep]
    exact ih hrest

/-- A value does not begin with a closing bracket. -/
theorem foldlM_step_wantsItem {outer : List Frame}
    (h : ts.foldlM step (.wantsValue (.array [] :: outer)) =
      some (.finished d (.array [] :: outer))) :
    ts.foldlM step (.wantsItem outer) = some (.finished d (.array [] :: outer)) := by
  cases ts with
  | nil => cases h
  | cons t ts =>
    rw [List.foldlM_cons] at h ⊢
    cases t with
    | closeArray => cases h
    | _ => exact h

end Partial

variable {ts : List Token} {d : Draft}

/-- What is spelled alone is spelled inside of any open brackets. -/
theorem foldlM_step_of_ofTokens? (h : ofTokens? ts = some d) (fs : List Frame) :
    ts.foldlM Partial.step (.wantsValue fs) = some (.finished d fs) := by
  obtain ⟨last, hlast, hd⟩ := Option.bind_eq_some_iff.1 h
  have hfinished : last = .finished d [] := by
    cases last with
    | finished d' outer => cases outer <;> cases hd; rfl
    | _ => cases hd
  subst hfinished
  exact Partial.foldlM_step_under fs hlast

/-- Items behind those already done, up to the closing bracket. -/
theorem foldlM_step_items {toks : List (List Token)} {ds : List Draft}
    (h : List.Forall₂ (fun ts d => ofTokens? ts = some d) toks ds) (d : Draft) (done : List Draft)
    (outer : List Frame) :
    (toks.flatMap (Token.comma :: ·) ++ [Token.closeArray]).foldlM Partial.step
        (.finished d (.array done :: outer)) =
      some (.finished (.array (done.reverse ++ d :: ds)) outer) := by
  induction h generalizing d done with
  | nil => simp [Partial.step]
  | @cons ts next toks ds hfirst _ ih =>
    rw [List.flatMap_cons, List.cons_append, List.cons_append, List.append_assoc]
    show (ts ++ _).foldlM Partial.step (.wantsValue (.array (d :: done) :: outer)) = _
    rw [List.foldlM_append, foldlM_step_of_ofTokens? hfirst]
    simpa using ih next (d :: done)

def arrayTokens : List (List Token) → List Token
  | [] => [.openArray, .closeArray]
  | ts :: toks => .openArray :: ts ++ (toks.flatMap (.comma :: ·) ++ [.closeArray])

theorem ofTokens?_arrayTokens {toks : List (List Token)} {ds : List Draft}
    (h : List.Forall₂ (fun ts d => ofTokens? ts = some d) toks ds) :
    ofTokens? (arrayTokens toks) = some (.array ds) := by
  cases h with
  | nil => rfl
  | @cons ts d toks ds hfirst hrest =>
    have hitem := Partial.foldlM_step_wantsItem
      (foldlM_step_of_ofTokens? hfirst [.array []])
    show ((ts ++ _).foldlM Partial.step (.wantsItem [])).bind Partial.draft? = _
    rw [List.foldlM_append, hitem]
    show (List.foldlM Partial.step _ _).bind _ = _
    rw [foldlM_step_items hrest]
    rfl

mutual

/-- A value for which there is room is the same with more room. -/
theorem select?_succ {o : Outline} {room : Nat} {j : Json} :
    ∀ d : Draft, d.select? o room = some j → d.select? o (room + 1) = some j
  | .null, h => h
  | .bool _, h => h
  | .number _, h => h
  | .string _, h => h
  | .array items, h => by
    cases room with
    | zero => cases h
    | succ room =>
      obtain ⟨js, hjs, rfl⟩ := Option.map_eq_some_iff.1 h
      exact Option.map_eq_some_iff.2 ⟨js, selectItems?_succ items hjs, rfl⟩
  | .object members, h => by
    cases room with
    | zero => cases h
    | succ room =>
      obtain ⟨ms, hms, rfl⟩ := Option.map_eq_some_iff.1 h
      exact Option.map_eq_some_iff.2 ⟨ms, selectMembers?_succ members hms, rfl⟩

theorem selectItems?_succ {o : Outline} {room i : Nat} {js : List Json} :
    ∀ ds : List Draft, selectItems? o room i ds = some js →
      selectItems? o (room + 1) i ds = some js
  | [], h => h
  | d :: ds, h => by
    simp only [selectItems?, Option.bind_eq_bind, Option.bind_eq_some_iff] at h ⊢
    obtain ⟨j, hj, js, hjs, hout⟩ := h
    exact ⟨j, select?_succ d hj, js, selectItems?_succ ds hjs, hout⟩

theorem selectMembers?_succ {o : Outline} {room : Nat} {js : List (String × Json)} :
    ∀ ms : List (Option String × Draft), selectMembers? o room ms = some js →
      selectMembers? o (room + 1) ms = some js
  | [], h => h
  | (none, _) :: _, h => h
  | (some name, d) :: ms, h => by
    unfold selectMembers? at h ⊢
    cases hwanted : o.member? name with
    | none =>
      rw [hwanted] at h
      exact selectMembers?_succ ms h
    | some wanted =>
      simp only [hwanted, Option.bind_eq_bind, Option.bind_eq_some_iff] at h ⊢
      obtain ⟨j, hj, js, hjs, hout⟩ := h
      exact ⟨j, select?_succ d hj, js, selectMembers?_succ ms hjs, hout⟩

end

theorem selectItems?_whole {room i : Nat} {ds : List Draft} {js : List Json}
    (h : List.Forall₂ (fun d j => d.select? .whole room = some j) ds js) :
    selectItems? .whole room i ds = some js := by
  induction h generalizing i with
  | nil => rfl
  | @cons d j ds js hfirst _ ih =>
    simp [selectItems?, Outline.item, hfirst, ih]

end LedgerWatch.Json.Draft

namespace LedgerWatch.Json

theorem mergedItems_eq_map (js : List Json) : mergedItems js = js.map merged := by
  induction js with
  | nil => rfl
  | cons j js ih => rw [mergedItems, ih, List.map_cons]

/-- A text read in three steps: its tokens, what they spell, and the value of that, for which
there is room in so many brackets. -/
structure Spells (room : Nat) (text : List Char) (ts : List Token) (d : Draft) (j : Json) :
    Prop where
  lexed : lex? text = some ts
  spelled : Draft.ofTokens? ts = some d
  selected : d.select? .whole room = some j

namespace Spells

variable {room : Nat} {text : List Char} {ts : List Token} {d : Draft} {j : Json}

theorem succ (h : Spells room text ts d j) : Spells (room + 1) text ts d j :=
  ⟨h.lexed, h.spelled, Draft.select?_succ d h.selected⟩

theorem readMerged? (h : Spells maxDepth text ts d j) :
    Json.readMerged? (String.ofList text) = some j.merged := by
  simp [Json.readMerged?, read?, readWanted?, Draft.read?, h.lexed, h.spelled, h.selected]

/-- A blank behind a text does not matter. -/
theorem append_space (h : Spells room text ts d j) {c : Char} (hc : isSpace c) :
    Spells room (text ++ [c]) ts d j := by
  refine ⟨?_, h.spelled, h.selected⟩
  have hspace : lex? [c] = some [] := by
    rw [lex?_cons (fresh_of_isSpace hc)]
    rfl
  rw [lex?_append h.lexed (by simpa using separates_of_isSpace hc), hspace]
  simp

theorem exists_not_isBlank (h : Spells room text ts d j) : ∃ c ∈ text, Text.isBlank c = false := by
  by_contra hblank
  push Not at hblank
  have hlex := lex?_of_isBlank fun c hc => by simpa using hblank c hc
  rw [h.lexed] at hlex
  obtain rfl : ts = [] := by simpa using hlex
  exact absurd h.spelled (by simp [Draft.ofTokens?, Draft.Partial.draft?])

end Spells

theorem separates_head_items (texts : List (List Char)) :
    ∀ c ∈ (texts.flatMap (',' :: ·) ++ [']']).head?, Separates c := by
  cases texts <;> simp <;> decide

theorem lex?_items {texts : List (List Char)} {toks : List (List Token)}
    (h : List.Forall₂ (fun text ts => lex? text = some ts) texts toks) :
    lex? (texts.flatMap (',' :: ·) ++ [']']) =
      some (toks.flatMap (Token.comma :: ·) ++ [Token.closeArray]) := by
  induction h with
  | nil => rfl
  | @cons text ts texts toks hfirst _ ih =>
    have hcomma : Scan.fresh ',' = some (.blank, [.comma]) := rfl
    rw [List.flatMap_cons, List.cons_append, List.cons_append, lex?_cons hcomma,
      List.append_assoc, lex?_append hfirst (separates_head_items texts), ih]
    simp

theorem intercalate_cons_eq_flatMap {α : Type} (x : α) (ys : List α) (yss : List (List α)) :
    [x].intercalate (ys :: yss) = ys ++ yss.flatMap (x :: ·) := by
  induction yss generalizing ys with
  | nil => simp
  | cons zs yss ih => rw [List.intercalate_cons_cons, ih]; simp

theorem lex?_array {texts : List (List Char)} {toks : List (List Token)}
    (h : List.Forall₂ (fun text ts => lex? text = some ts) texts toks) :
    lex? ('[' :: ([','].intercalate texts ++ [']'])) = some (Draft.arrayTokens toks) := by
  have hopen : Scan.fresh '[' = some (.blank, [.openArray]) := rfl
  rw [lex?_cons hopen]
  cases h with
  | nil => rfl
  | @cons text ts texts toks hfirst hrest =>
    rw [intercalate_cons_eq_flatMap, List.append_assoc,
      lex?_append hfirst (separates_head_items texts), lex?_items hrest]
    simp [Draft.arrayTokens]

/-- An array takes one bracket more than its items. -/
theorem spells_array {room : Nat} {texts : List (List Char)} {js : List Json}
    (h : List.Forall₂ (fun text j => ∃ ts d, Spells room text ts d j) texts js) :
    ∃ ts d, Spells (room + 1) ('[' :: ([','].intercalate texts ++ [']'])) ts d (.array js) := by
  have hparts : ∃ toks ds, List.Forall₂ (fun text ts => lex? text = some ts) texts toks ∧
      List.Forall₂ (fun ts d => Draft.ofTokens? ts = some d) toks ds ∧
      List.Forall₂ (fun d j => d.select? .whole room = some j) ds js := by
    induction h with
    | nil => exact ⟨[], [], .nil, .nil, .nil⟩
    | cons hfirst _ ih =>
      obtain ⟨ts, d, hspells⟩ := hfirst
      obtain ⟨toks, ds, hlexed, hspelled, hselected⟩ := ih
      exact ⟨ts :: toks, d :: ds, .cons hspells.lexed hlexed, .cons hspells.spelled hspelled,
        .cons hspells.selected hselected⟩
  obtain ⟨toks, ds, hlexed, hspelled, hselected⟩ := hparts
  refine ⟨_, _, lex?_array hlexed, Draft.ofTokens?_arrayTokens hspelled, ?_⟩
  simp [Draft.select?, Draft.selectItems?_whole hselected]

end LedgerWatch.Json
