import LedgerWatch.Proofs.Calendar.Written
import LedgerWatch.Proofs.Json.Rereading

namespace LedgerWatch.Calendar

inductive OffsetText : ℤ → List Char → Prop
  | universal {c : Char} (h : c = 'Z' ∨ c = 'z') : OffsetText 0 [c]
  | ahead {hours minutes : ℕ} (hhours : hours ≤ 23) (hminutes : minutes ≤ 59) :
      OffsetText (hours * 60 + minutes) ('+' :: (padded 2 hours ++ ':' :: padded 2 minutes))
  | behind {hours minutes : ℕ} (hhours : hours ≤ 23) (hminutes : minutes ≤ 59) :
      OffsetText (-(hours * 60 + minutes)) ('-' :: (padded 2 hours ++ ':' :: padded 2 minutes))

/-- No fraction of a second, or one that is zero. -/
inductive NoFraction : List Char → Prop
  | nil : NoFraction []
  | zeros (places : ℕ) : NoFraction ('.' :: Decimal.zeros (places + 1))

/-- A timestamp of a local time with its offset. -/
inductive Stamp (u : Moment) (offset : ℤ) : List Char → Prop
  | intro {separator : Char} {fraction text : List Char} (hseparator : separator ∈ ['T', 't', ' '])
      (hfraction : NoFraction fraction) (htext : OffsetText offset text) :
      Stamp u offset (dashedDate.write u ++ separator :: (clock.write u ++ (fraction ++ text)))

section Stamps

variable {width n : ℕ} {s rest text : List Char} {t u : Moment} {offset : ℤ}

theorem exactDigits?_padded (h : n < 10 ^ width) (s : List Char) :
    exactDigits? width (padded width n ++ s) = some (n, s) := by
  have hall : (padded width n).all Char.isDigit = true :=
    List.all_eq_true.2 (isDigit_of_mem_padded width n)
  simp only [exactDigits?, take_padded, drop_padded, length_padded, hall, and_self, if_true,
    natOfDigits_padded h]

theorem exactChar?_of_mem {accepted : List Char} {c : Char} (h : c ∈ accepted) (s : List Char) :
    exactChar? accepted (c :: s) = some s := by
  rw [exactChar?, if_pos (by simpa using h)]

theorem offset?_text (h : OffsetText offset text) : offset? text = some offset := by
  have hclock : ∀ {hours minutes : ℕ}, hours ≤ 23 → minutes ≤ 59 →
      exactDigits? 2 (padded 2 hours ++ ':' :: padded 2 minutes) =
          some (hours, ':' :: padded 2 minutes) ∧
        exactDigits? 2 (padded 2 minutes) = some (minutes, []) := by
    intro hours minutes hhours hminutes
    have hmin : exactDigits? 2 (padded 2 minutes ++ []) = some (minutes, []) :=
      exactDigits?_padded (by omega) []
    rw [List.append_nil] at hmin
    exact ⟨exactDigits?_padded (by omega) _, hmin⟩
  cases h with
  | universal h => simp [offset?, h]
  | ahead hhours hminutes =>
    obtain ⟨hhour, hminute⟩ := hclock hhours hminutes
    simp [offset?, hhour, hminute, exactChar?, hhours, hminutes]
  | behind hhours hminutes =>
    obtain ⟨hhour, hminute⟩ := hclock hhours hminutes
    simp [offset?, hhour, hminute, exactChar?, hhours, hminutes]

theorem fraction?_text {fraction : List Char} (hfraction : NoFraction fraction)
    (h : OffsetText offset text) : fraction? (fraction ++ text) = some (0, text) := by
  obtain ⟨c, r, rfl, hc, hpoint⟩ : ∃ c r, text = c :: r ∧ c.isDigit = false ∧ c ≠ '.' := by
    cases h with
    | universal h =>
      rcases h with rfl | rfl
      · exact ⟨_, _, rfl, rfl, by decide⟩
      · exact ⟨_, _, rfl, rfl, by decide⟩
    | ahead => exact ⟨_, _, rfl, rfl, by decide⟩
    | behind => exact ⟨_, _, rfl, rfl, by decide⟩
  cases hfraction with
  | nil => simp [fraction?, hpoint]
  | zeros places =>
    have hspan : Decimal.spanDigits (Decimal.zeros (places + 1) ++ c :: r) =
        (Decimal.zeros (places + 1), c :: r) :=
      Decimal.spanDigits_append (Decimal.all_isDigit_zeros _) (by simpa using hc)
    have hne : Decimal.zeros (places + 1) ≠ [] := List.cons_ne_nil _ _
    have hzero : Decimal.natOfDigits ((Decimal.zeros (places + 1)).take 9) = 0 := by
      rw [Decimal.zeros, List.take_replicate]
      exact Json.Literal.natOfDigits_zeros _
    simp only [List.cons_append, fraction?, hspan, if_neg hne, hzero, Nat.zero_mul]

theorem timestamp?_stamp (hu : u.Valid) (hwhole : WholeSeconds u) (hyear : FourDigits u)
    (h : Stamp u offset s) : timestamp? s = some (u.addMinutes (-offset)) := by
  cases h with
  | @intro separator fraction text hseparator hfraction htext =>
    have hdigits : ∀ (part : Part) (s : List Char),
        exactDigits? part.maxDigits (padded part.maxDigits (part.of u) ++ s) =
          some (part.of u, s) :=
      fun part s => exactDigits?_padded (of_lt hu hyear part) s
    have hsplit : dashedDate.write u ++ separator :: (clock.write u ++ (fraction ++ text)) =
        padded 4 (Part.year.of u) ++ '-' :: (padded 2 (Part.month.of u) ++ '-' ::
          (padded 2 (Part.day.of u) ++ separator :: (padded 2 (Part.hour.of u) ++ ':' ::
            (padded 2 (Part.minute.of u) ++ ':' :: (padded 2 (Part.second.of u) ++
              (fraction ++ text)))))) := by
      simp [dashedDate, clock, Item.sequence, Layout.write, Item.write, Part.maxDigits]
    have hfields : Moment.ofFields? ⟨(Part.year.of u : ℕ), Part.month.of u, Part.day.of u⟩
        (Part.hour.of u) (Part.minute.of u) (Part.second.of u) 0 = some u := by
      rw [date_of hyear]
      exact ofFields?_second hu hwhole hu.2.1 hu.2.2.1
    have hyears := hdigits .year
    have hmonth := hdigits .month
    have hday := hdigits .day
    have hhour := hdigits .hour
    have hminute := hdigits .minute
    have hsecond := hdigits .second
    simp only [Part.maxDigits] at hyears hmonth hday hhour hminute hsecond
    have hmark : ∀ (c : Char) (s : List Char), exactChar? [c] (c :: s) = some s :=
      fun c s => exactChar?_of_mem List.mem_cons_self s
    unfold timestamp?
    simp only [Option.bind_eq_bind]
    rw [hsplit, hyears, Option.bind_some, hmark, Option.bind_some, hmonth, Option.bind_some, hmark,
      Option.bind_some, hday, Option.bind_some, exactChar?_of_mem hseparator, Option.bind_some,
      hhour, Option.bind_some, hmark, Option.bind_some, hminute, Option.bind_some, hmark,
      Option.bind_some, hsecond, Option.bind_some, fraction?_text hfraction htext,
      Option.bind_some, offset?_text htext, Option.bind_some, hfields]
    rfl

theorem length_of_exactDigits? (h : exactDigits? width s = some (n, rest)) :
    s.length = width + rest.length := by
  simp only [exactDigits?] at h
  split at h
  · rename_i hdigits
    obtain ⟨-, rfl⟩ := Prod.mk.inj (Option.some.inj h)
    have htake := hdigits.1
    rw [List.length_take] at htake
    rw [List.length_drop]
    omega
  · cases h

theorem length_of_exactChar? {accepted : List Char} (h : exactChar? accepted s = some rest) :
    s.length = 1 + rest.length := by
  cases s with
  | nil => cases h
  | cons c s =>
    rw [exactChar?] at h
    split at h
    · rw [← Option.some.inj h, List.length_cons, Nat.add_comm]
    · cases h

theorem length_of_fraction? (h : fraction? s = some (n, rest)) : rest.length ≤ s.length := by
  unfold fraction? at h
  split at h
  · simp only at h
    split at h
    · cases h
    · obtain ⟨-, rfl⟩ := Prod.mk.inj (Option.some.inj h)
      exact (List.length_dropWhile_le _ _).trans (Nat.le_succ _)
  · obtain ⟨-, rfl⟩ := Prod.mk.inj (Option.some.inj h)
    exact le_rfl

/-- A timestamp is longer than the text of any layout. -/
theorem length_of_timestamp? (h : timestamp? s = some t) : 20 ≤ s.length := by
  unfold timestamp? at h
  obtain ⟨⟨_, _⟩, hyear, h⟩ := Option.bind_eq_some_iff.1 h
  obtain ⟨_, hdash, h⟩ := Option.bind_eq_some_iff.1 h
  obtain ⟨⟨_, _⟩, hmonth, h⟩ := Option.bind_eq_some_iff.1 h
  obtain ⟨_, hdash', h⟩ := Option.bind_eq_some_iff.1 h
  obtain ⟨⟨_, _⟩, hday, h⟩ := Option.bind_eq_some_iff.1 h
  obtain ⟨_, hseparator, h⟩ := Option.bind_eq_some_iff.1 h
  obtain ⟨⟨_, _⟩, hhour, h⟩ := Option.bind_eq_some_iff.1 h
  obtain ⟨_, hcolon, h⟩ := Option.bind_eq_some_iff.1 h
  obtain ⟨⟨_, _⟩, hminute, h⟩ := Option.bind_eq_some_iff.1 h
  obtain ⟨_, hcolon', h⟩ := Option.bind_eq_some_iff.1 h
  obtain ⟨⟨_, _⟩, hsecond, h⟩ := Option.bind_eq_some_iff.1 h
  obtain ⟨⟨_, rest⟩, hfraction, h⟩ := Option.bind_eq_some_iff.1 h
  obtain ⟨_, hoffset, -⟩ := Option.bind_eq_some_iff.1 h
  have hrest : 1 ≤ rest.length := by
    cases rest with
    | nil => cases hoffset
    | cons c rest => simp
  have hlast := length_of_fraction? hfraction
  rw [length_of_exactDigits? hyear, length_of_exactChar? hdash, length_of_exactDigits? hmonth,
    length_of_exactChar? hdash', length_of_exactDigits? hday, length_of_exactChar? hseparator,
    length_of_exactDigits? hhour, length_of_exactChar? hcolon, length_of_exactDigits? hminute,
    length_of_exactChar? hcolon', length_of_exactDigits? hsecond]
  omega

theorem timestamp?_write {layout : Layout} (hmem : layout ∈ layouts) (t : Moment) :
    timestamp? (layout.write t) = none := by
  -- no layout has an offset, so what it writes is too short for a timestamp
  have hshort : ∀ layout ∈ layouts, (layout.map Item.width).sum ≤ 19 := by decide
  cases h : timestamp? (layout.write t) with
  | none => rfl
  | some u =>
    have hlength := length_of_timestamp? h
    rw [length_write] at hlength
    have hmax := hshort layout hmem
    omega

theorem isBlank_last_offsetText (h : OffsetText offset text) :
    ∀ c ∈ text.getLast?, Text.isBlank c = false := by
  have hminutes : ∀ (c : Char) (hours minutes : ℕ),
      ∀ d ∈ (c :: (padded 2 hours ++ ':' :: padded 2 minutes)).getLast?,
        Text.isBlank d = false := by
    intro c hours minutes
    rw [List.append_cons, ← List.cons_append]
    exact isBlank_last_padded (by norm_num) minutes _
  cases h with
  | universal h =>
    rintro d ⟨⟩
    rcases h with rfl | rfl <;> rfl
  | ahead => exact hminutes _ _ _
  | behind => exact hminutes _ _ _

theorem Stamp.isBlank_head (h : Stamp u offset s) : ∀ c ∈ s.head?, Text.isBlank c = false := by
  cases h with
  | intro _ _ _ =>
    have hne : dashedDate.write u ≠ [] := by
      intro hnil
      have hlength := length_write dashedDate u
      rw [hnil] at hlength
      cases hlength
    rw [List.head?_append_of_ne_nil _ hne]
    exact isBlank_head_write rfl u

theorem Stamp.isBlank_last (h : Stamp u offset s) :
    ∀ c ∈ s.getLast?, Text.isBlank c = false := by
  cases h with
  | @intro separator fraction text _ _ htext =>
    have hne : text ≠ [] := by
      cases htext <;> exact List.cons_ne_nil _ _
    rw [List.append_cons, ← List.append_assoc, ← List.append_assoc,
      List.getLast?_append_of_ne_nil _ hne]
    exact isBlank_last_offsetText htext

theorem exists_offsetText (hlow : -1440 < offset) (hhigh : offset < 1440) :
    ∃ text, OffsetText offset text := by
  rcases le_total 0 offset with hsign | hsign
  · obtain ⟨n, rfl⟩ := Int.eq_ofNat_of_zero_le hsign
    have h := OffsetText.ahead (show n / 60 ≤ 23 by omega) (show n % 60 ≤ 59 by omega)
    have hsum : ((n / 60 : ℕ) : ℤ) * 60 + (n % 60 : ℕ) = n := by omega
    rw [hsum] at h
    exact ⟨_, h⟩
  · obtain ⟨n, rfl⟩ : ∃ n : ℕ, offset = -n := ⟨(-offset).toNat, by omega⟩
    have h := OffsetText.behind (show n / 60 ≤ 23 by omega) (show n % 60 ≤ 59 by omega)
    have hsum : -(((n / 60 : ℕ) : ℤ) * 60 + (n % 60 : ℕ)) = -n := by omega
    rw [hsum] at h
    exact ⟨_, h⟩

end Stamps

section Reading

variable {t : Moment}

theorem moment?_surrounded {before after s : List Char}
    (hbefore : ∀ c ∈ before, Text.isBlank c = true) (hafter : ∀ c ∈ after, Text.isBlank c = true)
    (hhead : ∀ c ∈ s.head?, Text.isBlank c = false)
    (hlast : ∀ c ∈ s.getLast?, Text.isBlank c = false) :
    moment? (String.ofList (before ++ s ++ after)) =
      (timestamp? s <|> layouts.findSome? fun layout => layout.moment? s) := by
  rw [moment?, String.toList_ofList, Text.trim_surrounded hbefore hafter hhead hlast]

/-- A moment in a text, by each layout and with each offset, with blanks around it. -/
theorem moment?_of_written (ht : t.Valid) (hwhole : WholeSeconds t) (hyear : FourDigits t)
    (before after : List Char) (hbefore : ∀ c ∈ before, Text.isBlank c = true)
    (hafter : ∀ c ∈ after, Text.isBlank c = true) :
    (∀ layout ∈ layouts, moment? (String.ofList (before ++ layout.write t ++ after)) =
      some (layout.truncate t)) ∧
    ∀ offset : ℤ, -1440 < offset → offset < 1440 → (∃ u, t.IsLocal offset u) ∧
      ∀ u, t.IsLocal offset u → FourDigits u → (∃ s, Stamp u offset s) ∧
        ∀ s, Stamp u offset s → moment? (String.ofList (before ++ s ++ after)) = some t := by
  refine ⟨fun layout hmem => ?_, fun offset hlow hhigh => ⟨ht.exists_isLocal hlow hhigh,
    fun u hlocal hyear' => ⟨?_, fun s hs => ?_⟩⟩⟩
  · have hends : ∀ layout ∈ layouts, layout.head?.any Item.isNumber = true ∧
        layout.getLast?.any Item.isNumber = true := by decide
    obtain ⟨hfirst, hlast⟩ := hends layout hmem
    rw [moment?_surrounded hbefore hafter (isBlank_head_write hfirst t)
      (isBlank_last_write hlast t), timestamp?_write hmem, findSome?_layouts ht hwhole hyear hmem]
    rfl
  · obtain ⟨text, htext⟩ := exists_offsetText hlow hhigh
    exact ⟨_, .intro List.mem_cons_self .nil htext⟩
  · have hwhole' : WholeSeconds u := by
      rwa [WholeSeconds, hlocal.second, hlocal.nanosecond]
    rw [moment?_surrounded hbefore hafter hs.isBlank_head hs.isBlank_last,
      timestamp?_stamp hlocal.valid hwhole' hyear' hs, hlocal.addMinutes ht]
    rfl

/-- The end of a leap day, as a date by itself and in a local time of the next month. -/
theorem moment?_of_written_leapDay :
    moment? " 2024/02/29\n" = some ⟨⟨2024, 2, 29⟩, 0, 0, 0, 0⟩ ∧
      moment? " 2024-03-01T01:00:00.0+01:30\n" = some ⟨⟨2024, 2, 29⟩, 23, 30, 0, 0⟩ := by
  obtain ⟨t, ht⟩ : ∃ t : Moment, t = ⟨⟨2024, 2, 29⟩, 23, 30, 0, 0⟩ := ⟨_, rfl⟩
  obtain ⟨u, hu⟩ : ∃ u : Moment, u = ⟨⟨2024, 3, 1⟩, 1, 0, 0, 0⟩ := ⟨_, rfl⟩
  obtain ⟨hlayouts, hstamps⟩ := moment?_of_written (t := t) (by rw [ht]; decide)
    (by rw [ht]; exact .inl rfl) (by rw [ht]; exact ⟨by decide, by decide⟩) [' '] ['\n']
    (List.forall_mem_singleton.2 rfl) (List.forall_mem_singleton.2 rfl)
  have hlocal : t.IsLocal 90 u := by
    rw [ht, hu]
    exact ⟨by decide, rfl, rfl, .inr (.inl ⟨by decide, by decide⟩)⟩
  have hoffset : OffsetText 90 ('+' :: (padded 2 1 ++ ':' :: padded 2 30)) :=
    OffsetText.ahead (show 1 ≤ 23 by norm_num) (show 30 ≤ 59 by norm_num)
  have hstamp := Stamp.intro (u := u) (List.mem_cons_self (a := 'T')) (.zeros 0) hoffset
  have hread := ((hstamps 90 (by norm_num) (by norm_num)).2 u hlocal
    (by rw [hu]; exact ⟨by decide, by decide⟩)).2 _ hstamp
  have hdate := hlayouts slashedDate (by decide)
  rw [ht] at hdate hread
  rw [hu] at hread
  constructor
  · have htext : String.ofList
        ([' '] ++ slashedDate.write ⟨⟨2024, 2, 29⟩, 23, 30, 0, 0⟩ ++ ['\n']) = " 2024/02/29\n" := by
      decide +kernel
    rw [htext] at hdate
    exact hdate
  · have htext : String.ofList ([' '] ++ (dashedDate.write ⟨⟨2024, 3, 1⟩, 1, 0, 0, 0⟩ ++
        'T' :: (clock.write ⟨⟨2024, 3, 1⟩, 1, 0, 0, 0⟩ ++ ('.' :: Decimal.zeros 1 ++
          '+' :: (padded 2 1 ++ ':' :: padded 2 30)))) ++ ['\n']) =
        " 2024-03-01T01:00:00.0+01:30\n" := by
      decide +kernel
    rw [htext] at hread
    exact hread

end Reading

end LedgerWatch.Calendar
