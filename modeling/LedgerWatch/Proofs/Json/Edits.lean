import LedgerWatch.Proofs.Json.Drafts

namespace LedgerWatch.Json

/-- The members of an object, and what is found in their place: each of them is kept or deleted,
and members with other names than these are added. A kept member may have been edited itself. -/
inductive EditedMembers (names : List String) (kept : String → Bool)
    (edited : String → Json → Draft → Prop) :
    List (String × Json) → List (Option String × Draft) → Prop
  | nil : EditedMembers names kept edited [] []
  | keep {n j d ms ds} : kept n = true → edited n j d → EditedMembers names kept edited ms ds →
      EditedMembers names kept edited ((n, j) :: ms) ((some n, d) :: ds)
  | delete {n j ms ds} : kept n = false → EditedMembers names kept edited ms ds →
      EditedMembers names kept edited ((n, j) :: ms) ds
  | add {n d ms ds} : n ∉ names → EditedMembers names kept edited ms ds →
      EditedMembers names kept edited ms ((some n, d) :: ds)

/-- What may be found where a value was written. The members of an object are edited, and a value
that is wanted whole is as it was. -/
def Outline.Edited (kept : String → Bool) : Outline → Json → Draft → Prop
  | .whole, j, d => d = j.draft
  | .members known, j, d => ∃ ms ds, j = .object ms ∧ d = .object ds ∧
      EditedMembers (known.map Prod.fst) kept (fun _ k e => e = k.draft) ms ds

/-- An object without the members that are not kept; another value as it is. -/
def restrict (kept : String → Bool) : Json → Json
  | .object ms => .object (ms.filter fun m => kept m.1)
  | j => j

def HasMember (j : Json) (n : String) (k : Json) : Prop := ∃ ms, j = .object ms ∧ (n, k) ∈ ms

def IsSingle : Json → Prop
  | .array _ => False
  | .object _ => False
  | _ => True

@[simp] theorem isSingle_ofFloat (x : Float) : (ofFloat x).IsSingle := by
  unfold ofFloat
  split <;> trivial

@[simp] theorem isSingle_ofWord (n : UInt64) : (ofWord n).IsSingle := trivial

/-- A value in the form of its outline: known members, and single values wherever all is wanted. -/
def Outline.Fits : Outline → Json → Prop
  | .whole, j => j.IsSingle
  | .members known, j => ∀ n k, j.HasMember n k → known.lookup n = some .whole ∧ k.IsSingle

theorem Outline.fits_object {names : List String} {ms : List (String × Json)}
    (h : ∀ m ∈ ms, m.1 ∈ names ∧ m.2.IsSingle) : (ofNames names).Fits (.object ms) := by
  rintro n k ⟨_, hms, hmem⟩
  cases hms
  obtain ⟨hname, hsingle⟩ := h (n, k) hmem
  exact ⟨List.lookup_graph (fun _ => whole) hname, hsingle⟩

section Selection

variable {known : List (String × Outline)} {kept : String → Bool} {room : ℕ}
  {edited : String → Json → Draft → Prop} {ms : List (String × Json)}
  {ds : List (Option String × Draft)} {o : Outline} {j : Json} {d : Draft}

/-- A number is selected if it is found again as it was written, and all other single values are. -/
theorem IsSingle.select?_draft (h : j.IsSingle) (hread : ∀ x, j = .number x → x.reread? = some x) :
    j.draft.select? o room = some j := by
  cases j with
  | number x => exact congrArg (Option.map number) (hread x rfl)
  | array items => exact h.elim
  | object members => exact h.elim
  | string s => rfl
  | bool b => rfl
  | null => rfl

/-- What is selected in an edited object: all that is kept, in the form in which it is selected. -/
theorem EditedMembers.selectMembers? {f : String → Json → Json}
    (h : EditedMembers (known.map Prod.fst) kept edited ms ds)
    (hedited : ∀ n j, (n, j) ∈ ms → kept n = true → ∀ d, edited n j d →
      ∃ o, known.lookup n = some o ∧ d.select? o room = some (f n j)) :
    Draft.selectMembers? (.members known) room ds =
      some ((ms.map fun m => (m.1, f m.1 m.2)).filter fun m => kept m.1) := by
  induction h with
  | nil => rfl
  | @keep n j d ms ds hkept hd _ ih =>
    obtain ⟨o, hknown, hselect⟩ := hedited n j List.mem_cons_self hkept d hd
    have hmember : (Outline.members known).member? n = some o := hknown
    have hrest := ih fun n j hmem => hedited n j (List.mem_cons_of_mem _ hmem)
    simp [Draft.selectMembers?, hmember, hselect, hrest, hkept]
  | @delete n j ms ds hkept _ ih =>
    have hrest := ih fun n j hmem => hedited n j (List.mem_cons_of_mem _ hmem)
    simp [hrest, hkept]
  | @add n d ms ds hname _ ih =>
    have hmember : (Outline.members known).member? n = none := by
      apply List.lookup_eq_none_iff.2
      intro m hm
      have hne : n ≠ m.1 := fun heq => hname (heq ▸ List.mem_map_of_mem hm)
      simpa using hne
    rw [Draft.selectMembers?, hmember, ih hedited]

/-- What is selected in an edited value is the value without its deleted members. -/
theorem Outline.Edited.select? (h : o.Edited kept j d) (hfits : o.Fits j)
    (hwhole : o = .whole → ∀ x, j = .number x → x.reread? = some x)
    (hread : ∀ n x, j.HasMember n (.number x) → kept n = true → x.reread? = some x) :
    d.select? o (room + 1) = some (j.restrict kept) := by
  cases o with
  | whole =>
    have hsame : j.restrict kept = j := by
      cases j with
      | object ms => exact hfits.elim
      | _ => rfl
    rw [h, hsame]
    exact hfits.select?_draft (hwhole rfl)
  | members known =>
    obtain ⟨ms, ds, rfl, rfl, h⟩ := h
    have hkept : ∀ n k, (n, k) ∈ ms → kept n = true → ∀ d, d = k.draft →
        ∃ o, known.lookup n = some o ∧ d.select? o room = some k := by
      rintro n k hmem hn _ rfl
      obtain ⟨hknown, hsingle⟩ := hfits n k ⟨ms, rfl, hmem⟩
      exact ⟨.whole, hknown, hsingle.select?_draft fun x hx =>
        hread n x ⟨ms, rfl, hx ▸ hmem⟩ hn⟩
    rw [Draft.select?, h.selectMembers? hkept]
    simp [restrict]

end Selection

section Fields

variable {ms : List (String × Json)} {names : List String} {α : Type}

theorem lookup_filter (kept : String → Bool) (ms : List (String × Json)) (n : String) :
    (ms.filter fun m => kept m.1).lookup n = if kept n then ms.lookup n else none := by
  induction ms with
  | nil => simp
  | cons m ms ih =>
    obtain ⟨l, k⟩ := m
    rw [List.filter_cons, List.lookup_cons]
    cases hsame : n == l with
    | true =>
      obtain rfl := eq_of_beq hsame
      cases hkept : kept n <;> simp [hkept, ih]
    | false => cases hkept : kept l <;> simp [List.lookup_cons, hsame, ih]

theorem fields?_filter (kept : String → Bool) (hnames : ms.map Prod.fst = names)
    (hnodup : names.Nodup) :
    (object (ms.filter fun m => kept m.1)).fields? names = some (ms.filter fun m => kept m.1) :=
  fields?_of_sublist (hnames ▸ List.filter_sublist.map Prod.fst) hnodup

/-- A field that is kept is read as it was written, and one that is deleted has its default. -/
theorem Fields.withDefault_kept (kept : String → Bool) {n : String} {j : Json}
    {read : Json → Option α} {a : α} (hj : ms.lookup n = some j) (ha : read j = some a)
    (default : α) : Fields.withDefault (ms.filter fun m => kept m.1) n read default =
      some (if kept n then a else default) := by
  rw [Fields.withDefault, lookup_filter, hj]
  cases kept n with
  | true => exact ha
  | false => rfl

end Fields

end LedgerWatch.Json
