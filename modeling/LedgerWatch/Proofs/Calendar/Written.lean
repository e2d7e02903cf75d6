import LedgerWatch.Calendar.Timestamp
import LedgerWatch.Proofs.Calendar.Days
import LedgerWatch.Proofs.Json.Literals
import LedgerWatch.Proofs.Text.Blanks

namespace LedgerWatch.Calendar

/-- A number with zeros in front, in so many digits. -/
def padded : ℕ → ℕ → List Char
  | 0, _ => []
  | width + 1, n => padded width (n / 10) ++ [Nat.digitChar (n % 10)]

section Digits

variable {width n : ℕ}

theorem length_padded (width n : ℕ) : (padded width n).length = width := by
  induction width generalizing n with
  | zero => rfl
  | succ width ih => rw [padded, List.length_append, ih, List.length_singleton]

theorem isDigit_of_mem_padded (width n : ℕ) : ∀ c ∈ padded width n, c.isDigit = true := by
  induction width generalizing n with
  | zero => exact List.forall_mem_nil _
  | succ width ih =>
    rw [padded, List.forall_mem_append, List.forall_mem_singleton]
    refine ⟨ih (n / 10), ?_⟩
    have hdigits : ∀ k < 10, (Nat.digitChar k).isDigit = true := by decide
    exact hdigits _ (Nat.mod_lt _ (by norm_num))

theorem natOfDigits_padded (h : n < 10 ^ width) : Decimal.natOfDigits (padded width n) = n := by
  induction width generalizing n with
  | zero =>
    obtain rfl : n = 0 := by simpa using h
    rfl
  | succ width ih =>
    have hdigits : ∀ k < 10, Decimal.digitValue (Nat.digitChar k) = k := by decide
    have hrest : n / 10 < 10 ^ width := Nat.div_lt_of_lt_mul (by rwa [← pow_succ'])
    rw [padded, Decimal.natOfDigits, List.foldl_append, ← Decimal.natOfDigits, ih hrest]
    show 10 * (n / 10) + Decimal.digitValue (Nat.digitChar (n % 10)) = n
    rw [hdigits _ (Nat.mod_lt _ (by norm_num))]
    exact Nat.div_add_mod n 10

theorem padded_ne_nil (h : 0 < width) (n : ℕ) : padded width n ≠ [] := by
  rw [← List.length_pos_iff, length_padded]
  exact h

theorem take_padded (width n : ℕ) (s : List Char) :
    (padded width n ++ s).take width = padded width n :=
  List.take_left' (length_padded width n)

theorem drop_padded (width n : ℕ) (s : List Char) : (padded width n ++ s).drop width = s :=
  List.drop_left' (length_padded width n)

theorem isBlank_last_padded (h : 0 < width) (n : ℕ) (s : List Char) :
    ∀ c ∈ (s ++ padded width n).getLast?, Text.isBlank c = false := by
  rw [List.getLast?_append_of_ne_nil _ (padded_ne_nil h n)]
  exact fun c hc => Text.isBlank_of_isDigit
    (isDigit_of_mem_padded width n c (List.mem_of_mem_getLast? hc))

theorem spanDigitsUpTo_padded (width n : ℕ) (s : List Char) :
    spanDigitsUpTo width (padded width n ++ s) = (padded width n, s) := by
  have hall : (padded width n).takeWhile Char.isDigit = padded width n :=
    List.takeWhile_eq_self_iff.2 (isDigit_of_mem_padded width n)
  simp only [spanDigitsUpTo, take_padded, hall, length_padded, drop_padded]

theorem Part.maxDigits_pos (part : Part) : 0 < part.maxDigits := by
  cases part <;> decide

theorem isDigit_head_padded (part : Part) (n : ℕ) (s : List Char) :
    ∃ c r, padded part.maxDigits n ++ s = c :: r ∧ c.isDigit = true :=
  Json.Literal.isDigit_head (padded_ne_nil part.maxDigits_pos n)
    (List.all_eq_true.2 (isDigit_of_mem_padded _ n))

theorem read?_padded (part : Part) (h : n < 10 ^ part.maxDigits) (s : List Char) :
    part.read? (padded part.maxDigits n ++ s) = some ((n : ℤ), s) := by
  obtain ⟨c, r, hcr, hc⟩ := isDigit_head_padded part n s
  have hne := padded_ne_nil part.maxDigits_pos n
  have hunsigned : unsigned? (spanDigitsUpTo part.maxDigits (padded part.maxDigits n ++ s)) =
      some (n, s) := by
    rw [spanDigitsUpTo_padded, unsigned?, if_neg hne, natOfDigits_padded h]
  obtain ⟨hminus, hplus⟩ := Decimal.ne_sign_of_isDigit hc
  -- only a year may have a sign, and a digit is none
  have hread : part.read? (c :: r) =
      (unsigned? (spanDigitsUpTo part.maxDigits (c :: r))).map fun v => ((v.1 : ℤ), v.2) := by
    cases part <;> simp [Part.read?, hminus, hplus]
  rw [hcr] at hunsigned ⊢
  rw [hread, hunsigned]
  rfl

end Digits

/-- What a part of a moment is written as; a leap second is second 60. -/
def Part.of (t : Moment) : Part → ℕ
  | .year => t.date.year.toNat
  | .month => t.date.month
  | .day => t.date.day
  | .hour => t.hour
  | .minute => t.minute
  | .second => t.second + t.nanosecond / 1000000000

def Item.write (t : Moment) : Item → List Char
  | .number part => padded part.maxDigits (part.of t)
  | .literal c => [c]
  | .gap => [' ']

/-- The text of a moment by a layout, with one blank for a gap. -/
def Layout.write (layout : Layout) (t : Moment) : List Char := layout.flatMap (Item.write t)

def Layout.values (layout : Layout) (t : Moment) : List (Part × ℤ) :=
  layout.filterMap fun
    | .number part => some (part, (part.of t : ℤ))
    | _ => none

def Item.isNumber : Item → Bool
  | .number _ => true
  | _ => false

def Item.width : Item → ℕ
  | .number part => part.maxDigits
  | _ => 1

def Layout.spaced : Layout → Bool
  | [] => true
  | .gap :: items => items.head?.any Item.isNumber && spaced items
  | _ :: items => spaced items

section Writing

variable {t : Moment} {layout items : Layout} {part : Part} {c : Char}

theorem write_cons (item : Item) (items : Layout) (t : Moment) :
    Layout.write (item :: items) t = item.write t ++ Layout.write items t := List.flatMap_cons

theorem isBlank_head_write (h : items.head?.any Item.isNumber = true) (t : Moment) :
    ∀ c ∈ (Layout.write items t).head?, Text.isBlank c = false := by
  cases items with
  | nil => cases h
  | cons item items =>
    cases item with
    | number part =>
      obtain ⟨c, r, hcr, hc⟩ := isDigit_head_padded part (part.of t) (Layout.write items t)
      rw [write_cons, Item.write, hcr]
      rintro d ⟨⟩
      exact Text.isBlank_of_isDigit hc
    | literal c => cases h
    | gap => cases h

theorem trimStart_write (h : items.head?.any Item.isNumber = true) (t : Moment) :
    Text.trimStart (Layout.write items t) = Layout.write items t := by
  have hnone : ∀ c ∈ ([] : List Char), Text.isBlank c = true := List.forall_mem_nil _
  exact Text.dropWhile_blanks hnone (isBlank_head_write h t)

theorem read?_write (hfits : ∀ part : Part, part.of t < 10 ^ part.maxDigits)
    (h : layout.spaced = true) : layout.read? (layout.write t) = some (layout.values t) := by
  induction layout with
  | nil => rfl
  | cons item items ih =>
    cases item with
    | number part =>
      have htrim : Text.trimStart (Layout.write (.number part :: items) t) =
          Layout.write (.number part :: items) t := trimStart_write rfl t
      rw [Layout.read?, htrim, write_cons, Item.write, read?_padded part (hfits part),
        Option.bind_some, ih h]
      rfl
    | literal d =>
      rw [write_cons, Item.write, List.singleton_append, Layout.read?, if_pos rfl, ih h]
      rfl
    | gap =>
      obtain ⟨hnumber, hspaced⟩ := Bool.and_eq_true_iff.1 h
      have htrim : Text.trimStart (Layout.write (.gap :: items) t) = Layout.write items t :=
        trimStart_write hnumber t
      rw [Layout.read?, htrim, ih hspaced]
      rfl

theorem length_write (layout : Layout) (t : Moment) :
    (layout.write t).length = (layout.map Item.width).sum := by
  induction layout with
  | nil => rfl
  | cons item items ih =>
    rw [write_cons, List.length_append, ih, List.map_cons, List.sum_cons]
    cases item with
    | number part => rw [Item.write, length_padded, Item.width]
    | literal c => rfl
    | gap => rfl

theorem isBlank_last_write (h : items.getLast?.any Item.isNumber = true) (t : Moment) :
    ∀ c ∈ (Layout.write items t).getLast?, Text.isBlank c = false := by
  rcases List.eq_nil_or_concat items with rfl | ⟨init, item, rfl⟩
  · cases h
  rw [List.concat_eq_append, List.getLast?_concat] at h
  cases item with
  | number part =>
    have hwrite : Layout.write (init.concat (.number part)) t =
        Layout.write init t ++ padded part.maxDigits (part.of t) := by
      rw [List.concat_eq_append, Layout.write, List.flatMap_append, List.flatMap_singleton]
      rfl
    rw [hwrite]
    exact isBlank_last_padded part.maxDigits_pos _ _
  | literal c => cases h
  | gap => cases h

theorem lookup_values (layout : Layout) (t : Moment) (part : Part) :
    (layout.values t).lookup part =
      if layout.contains (.number part) then some (part.of t : ℤ) else none := by
  induction layout with
  | nil => rfl
  | cons item items ih =>
    cases item with
    | number part' =>
      have hvalues : Layout.values (.number part' :: items) t =
          (part', (part'.of t : ℤ)) :: Layout.values items t := rfl
      rw [hvalues, List.lookup_cons]
      by_cases hpart : part = part'
      · subst hpart
        simp
      · have hitem : (Item.number part == Item.number part') = false := by simpa using hpart
        rw [beq_false_of_ne hpart, List.contains_cons, hitem, Bool.false_or]
        exact ih
    | literal c => exact ih
    | gap => exact ih

/-- What a layout carries of a moment; missing parts of the time of day are zero. -/
def Layout.truncate (layout : Layout) (t : Moment) : Moment :=
  let kept (part : Part) (n : ℕ) : ℕ := if layout.contains (.number part) then n else 0
  ⟨t.date, kept .hour t.hour, kept .minute t.minute, kept .second t.second,
    kept .second t.nanosecond⟩

end Writing

def WholeSeconds (t : Moment) : Prop :=
  t.nanosecond = 0 ∨ t.second = 59 ∧ t.nanosecond = 1000000000

def FourDigits (t : Moment) : Prop := 0 ≤ t.date.year ∧ t.date.year ≤ 9999

section Moments

variable {t : Moment} {layout : Layout}

theorem date_of (hyear : FourDigits t) :
    (⟨((Part.year.of t : ℕ) : ℤ), Part.month.of t, Part.day.of t⟩ : Date) = t.date := by
  simp only [Part.of, Int.toNat_of_nonneg hyear.1]

theorem of_lt (ht : t.Valid) (hyear : FourDigits t) (part : Part) :
    part.of t < 10 ^ part.maxDigits := by
  obtain ⟨⟨-, hmonth, -, hday⟩, hhour, hminute, hsecond, hnanosecond⟩ := ht
  have hlength := Date.monthLength_le t.date.year t.date.month
  obtain ⟨hlow, hhigh⟩ := hyear
  cases part <;> simp only [Part.of, Part.maxDigits] <;> omega

theorem ofFields?_second (ht : t.Valid) (hwhole : WholeSeconds t) {hour minute : ℕ}
    (hhour : hour < 24) (hminute : minute < 60) :
    Moment.ofFields? t.date hour minute (Part.second.of t) 0 =
      some ⟨t.date, hour, minute, t.second, t.nanosecond⟩ := by
  obtain ⟨hdate, -, -, hsecond, -⟩ := ht
  rcases hwhole with hzero | ⟨hlast, hleap⟩
  · have hwritten : Part.second.of t = t.second := by simp [Part.of, hzero]
    have hne : t.second ≠ 60 := by omega
    have hvalid : Moment.Valid ⟨t.date, hour, minute, t.second, 0⟩ :=
      ⟨hdate, hhour, hminute, hsecond, by norm_num⟩
    simp only [hwritten, Moment.ofFields?, if_neg hne, if_pos hvalid, hzero]
  · have hwritten : Part.second.of t = 60 := by simp [Part.of, hlast, hleap]
    have hvalid : Moment.Valid ⟨t.date, hour, minute, 59, 0 + 1000000000⟩ :=
      ⟨hdate, hhour, hminute, by norm_num, by norm_num⟩
    simp only [hwritten, Moment.ofFields?, if_true, if_pos hvalid, hlast, hleap]

theorem momentOf?_values (ht : t.Valid) (hwhole : WholeSeconds t) (hyear : FourDigits t)
    (hcarries : ∀ part ∈ [Part.year, .month, .day], layout.contains (.number part) = true) :
    momentOf? (layout.values t) = some (layout.truncate t) := by
  have hdate : ∀ part ∈ [Part.year, .month, .day],
      (layout.values t).lookup part = some (part.of t : ℤ) := by
    intro part hpart
    rw [lookup_values, if_pos (hcarries part hpart)]
  have hyears : Date.firstYear ≤ ((Part.year.of t : ℕ) : ℤ) ∧
      ((Part.year.of t : ℕ) : ℤ) ≤ Date.lastYear := by
    obtain ⟨hlow, hhigh⟩ := hyear
    simp only [Part.of, Date.firstYear, Date.lastYear]
    omega
  have htime : ∀ part : Part, (((layout.values t).lookup part).getD 0).toNat =
      if layout.contains (.number part) then part.of t else 0 := by
    intro part
    rw [lookup_values]
    split <;> simp
  have hkept : ∀ (part : Part) {bound : ℕ}, part.of t < bound →
      (if layout.contains (.number part) then part.of t else 0) < bound := by
    intro part bound h
    split
    · exact h
    · exact Nat.zero_lt_of_lt h
  have hhour := hkept .hour ht.2.1
  have hminute := hkept .minute ht.2.2.1
  simp only [momentOf?, hdate, List.mem_cons, true_or, or_true, Option.bind_eq_bind,
    Option.bind_some, if_pos hyears, Int.toNat_natCast, date_of hyear, htime]
  by_cases hsecond : layout.contains (.number .second) = true
  · rw [if_pos hsecond, ofFields?_second ht hwhole hhour hminute]
    simp only [Layout.truncate, if_pos hsecond]
    rfl
  · have hnone : Moment.ofFields? t.date (if layout.contains (.number .hour) then t.hour else 0)
        (if layout.contains (.number .minute) then t.minute else 0) 0 0 =
        some ⟨t.date, if layout.contains (.number .hour) then t.hour else 0,
          if layout.contains (.number .minute) then t.minute else 0, 0, 0⟩ :=
      if_pos ⟨ht.1, hhour, hminute, by norm_num, by norm_num⟩
    simp only [Layout.truncate, if_neg hsecond]
    exact hnone

theorem moment?_write (ht : t.Valid) (hwhole : WholeSeconds t) (hyear : FourDigits t)
    (hmem : layout ∈ layouts) : layout.moment? (layout.write t) = some (layout.truncate t) := by
  have hspaced : ∀ layout ∈ layouts, layout.spaced = true := by decide
  have hcarries : ∀ layout ∈ layouts, ∀ part ∈ [Part.year, .month, .day],
      layout.contains (.number part) = true := by decide
  rw [Layout.moment?, read?_write (of_lt ht hyear) (hspaced layout hmem), Option.bind_some,
    momentOf?_values ht hwhole hyear (hcarries layout hmem)]

end Moments

/-- A character that stands in a text only where a layout has it. -/
def IsMark (c : Char) : Prop :=
  c.isDigit = false ∧ Text.isBlank c = false ∧ c ≠ '-' ∧ c ≠ '+'

section Marks

variable {t : Moment} {layout : Layout} {c : Char} {s rest : List Char}

theorem count_eq_zero (h : ∀ d ∈ s, d.isDigit = true ∨ Text.isBlank d = true) (hc : IsMark c) :
    s.count c = 0 := by
  rw [List.count_eq_zero]
  intro hmem
  rcases h c hmem with hdigit | hblank
  · rw [hc.1] at hdigit
    cases hdigit
  · rw [hc.2.1] at hblank
    cases hblank

theorem count_trimStart (hc : IsMark c) (s : List Char) :
    (Text.trimStart s).count c = s.count c := by
  conv_rhs => rw [← List.takeWhile_append_dropWhile (p := Text.isBlank) (l := s)]
  rw [List.count_append, count_eq_zero (fun d hd => .inr (List.mem_takeWhile_imp hd)) hc, zero_add]
  rfl

theorem count_unsigned? {span : List Char × List Char} {n : ℕ}
    (h : unsigned? span = some (n, rest)) (hspan : s = span.1 ++ span.2)
    (hdigits : ∀ d ∈ span.1, d.isDigit = true) (hc : IsMark c) : s.count c = rest.count c := by
  unfold unsigned? at h
  split at h
  · cases h
  · obtain ⟨-, rfl⟩ := Prod.mk.inj (Option.some.inj h)
    rw [hspan, List.count_append, count_eq_zero (fun d hd => .inl (hdigits d hd)) hc, zero_add]

theorem count_read?_part {part : Part} {v : ℤ} (h : part.read? s = some (v, rest))
    (hc : IsMark c) : s.count c = rest.count c := by
  have hall : ∀ {r : List Char} {n : ℕ}, unsigned? (Decimal.spanDigits r) = some (n, rest) →
      r.count c = rest.count c := fun h =>
    count_unsigned? h List.takeWhile_append_dropWhile.symm
      (fun d hd => List.mem_takeWhile_imp hd) hc
  unfold Part.read? at h
  split at h
  · -- a year with a minus sign
    obtain ⟨⟨n, r⟩, hread, heq⟩ := Option.map_eq_some_iff.1 h
    obtain ⟨-, rfl⟩ := Prod.mk.inj heq
    rw [List.count_cons_of_ne hc.2.2.1.symm, hall hread]
  · -- a year with a plus sign
    obtain ⟨⟨n, r⟩, hread, heq⟩ := Option.map_eq_some_iff.1 h
    obtain ⟨-, rfl⟩ := Prod.mk.inj heq
    rw [List.count_cons_of_ne hc.2.2.2.symm, hall hread]
  · obtain ⟨⟨n, r⟩, hread, heq⟩ := Option.map_eq_some_iff.1 h
    obtain ⟨-, rfl⟩ := Prod.mk.inj heq
    refine count_unsigned? hread ?_ (fun d hd => List.mem_takeWhile_imp hd) hc
    have hprefix : (s.take part.maxDigits).takeWhile Char.isDigit <+: s :=
      (List.takeWhile_prefix _).trans (List.take_prefix _ _)
    exact (List.prefix_iff_eq_append.1 hprefix).symm

/-- Numbers and gaps take no marks, so those of a text that is read are those of the layout. -/
theorem count_read? {fs : List (Part × ℤ)} (h : layout.read? s = some fs) (hc : IsMark c) :
    s.count c = layout.count (.literal c) := by
  induction layout generalizing s fs with
  | nil =>
    cases s with
    | nil => rfl
    | cons d s => cases h
  | cons item items ih =>
    cases item with
    | number part =>
      obtain ⟨⟨v, rest⟩, hpart, hrest⟩ := Option.bind_eq_some_iff.1 h
      obtain ⟨fs', hread, -⟩ := Option.map_eq_some_iff.1 hrest
      rw [← count_trimStart hc, count_read?_part hpart hc, ih hread,
        List.count_cons_of_ne (by simp)]
    | literal d =>
      cases s with
      | nil => cases h
      | cons e s =>
        rw [Layout.read?] at h
        split at h
        · rename_i heq
          subst heq
          rw [List.count_cons, List.count_cons, ih h]
          simp
        · cases h
    | gap =>
      rw [← count_trimStart hc, ih h, List.count_cons_of_ne (by simp)]

theorem count_write (layout : Layout) (t : Moment) (hc : IsMark c) :
    (layout.write t).count c = layout.count (.literal c) := by
  induction layout with
  | nil => rfl
  | cons item items ih =>
    rw [write_cons, List.count_append, ih, List.count_cons]
    cases item with
    | number part =>
      rw [Item.write, count_eq_zero (fun d hd => .inl (isDigit_of_mem_padded _ _ d hd)) hc]
      simp
    | literal d =>
      rw [Item.write, List.count_singleton, Nat.add_comm]
      simp
    | gap =>
      rw [Item.write, count_eq_zero (List.forall_mem_singleton.2 (.inr rfl)) hc]
      simp

/-- A layout with other marks does not read the text. -/
theorem read?_write_eq_none {layout' : Layout} (hc : IsMark c)
    (h : layout.count (.literal c) ≠ layout'.count (.literal c)) (t : Moment) :
    layout.read? (layout'.write t) = none := by
  cases hread : layout.read? (layout'.write t) with
  | none => rfl
  | some fs =>
    have hcount := count_read? hread hc
    rw [count_write layout' t hc] at hcount
    exact absurd hcount.symm h

end Marks

/-- How often each mark stands in a layout. -/
def Layout.marks (layout : Layout) : List ℕ :=
  [':', '/', 'T'].map fun c => layout.count (.literal c)

section Order

variable {t : Moment} {layout layout' : Layout}

theorem isMark_of_mem {c : Char} (h : c ∈ [':', '/', 'T']) : IsMark c := by
  simp only [List.mem_cons, List.not_mem_nil, or_false] at h
  rcases h with rfl | rfl | rfl <;> exact ⟨rfl, rfl, by decide, by decide⟩

theorem exists_count_ne (h : layout.marks ≠ layout'.marks) :
    ∃ c, IsMark c ∧ layout.count (.literal c) ≠ layout'.count (.literal c) := by
  by_contra hall
  push Not at hall
  exact h (List.map_congr_left fun c hc => hall c (isMark_of_mem hc))

/-- The first two digits of a year are no month in front of a slash. -/
theorem read?_monthFirstDate_slashedDate (hyear : FourDigits t) :
    monthFirstDate.read? (slashedDate.write t) = none := by
  have hyears : padded 4 t.date.year.toNat = padded 2 (t.date.year.toNat / 10 / 10) ++
      [Nat.digitChar (t.date.year.toNat / 10 % 10)] ++ [Nat.digitChar (t.date.year.toNat % 10)] :=
    rfl
  have hwrite : slashedDate.write t = padded Part.month.maxDigits (t.date.year.toNat / 10 / 10) ++
      Nat.digitChar (t.date.year.toNat / 10 % 10) :: Nat.digitChar (t.date.year.toNat % 10) ::
        Layout.write slashedDate.tail t := by
    have hsplit : slashedDate.write t =
        padded 4 t.date.year.toNat ++ Layout.write slashedDate.tail t := rfl
    rw [hsplit, hyears, List.append_assoc, List.append_assoc]
    rfl
  have hcentury : t.date.year.toNat / 10 / 10 < 10 ^ Part.month.maxDigits := by
    obtain ⟨hlow, hhigh⟩ := hyear
    simp only [Part.maxDigits]
    omega
  have hdigit : ∀ k < 10, '/' ≠ Nat.digitChar k := by decide
  have hne := hdigit (t.date.year.toNat / 10 % 10) (Nat.mod_lt _ (by norm_num))
  have hlayout : monthFirstDate =
      .number .month :: .literal '/' :: Item.sequence [.day, .year] '/' := rfl
  have htrim : Text.trimStart (slashedDate.write t) = slashedDate.write t := trimStart_write rfl t
  rw [hlayout, Layout.read?, htrim, hwrite, read?_padded .month hcentury, Option.bind_some,
    Layout.read?, if_neg hne]
  rfl

/-- Each layout has marks of its own, but for two that tell the months from the years. -/
theorem pairwise_layouts : layouts.Pairwise fun layout layout' =>
    layout.marks ≠ layout'.marks ∨ layout = monthFirstDate ∧ layout' = slashedDate := by
  decide

/-- No layout that is tried before reads the text. -/
theorem findSome?_layouts (ht : t.Valid) (hwhole : WholeSeconds t) (hyear : FourDigits t)
    (hmem : layout ∈ layouts) :
    layouts.findSome? (fun l => l.moment? (layout.write t)) = some (layout.truncate t) := by
  obtain ⟨before, after, hlayouts⟩ := List.append_of_mem hmem
  refine List.findSome?_eq_some_iff.2 ⟨before, layout, after, hlayouts,
    moment?_write ht hwhole hyear hmem, fun earlier hearlier => ?_⟩
  have hpairs := pairwise_layouts
  rw [hlayouts] at hpairs
  have hnone : earlier.read? (layout.write t) = none := by
    rcases (List.pairwise_append.1 hpairs).2.2 earlier hearlier layout List.mem_cons_self with
      hmarks | ⟨rfl, rfl⟩
    · -- some mark would have to stand in the text more often, or less often
      obtain ⟨c, hc, hcount⟩ := exists_count_ne hmarks
      exact read?_write_eq_none hc hcount t
    · exact read?_monthFirstDate_slashedDate hyear
  rw [Layout.moment?, hnone, Option.bind_none]

end Order

end LedgerWatch.Calendar
