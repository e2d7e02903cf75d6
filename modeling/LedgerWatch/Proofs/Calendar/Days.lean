import LedgerWatch.Proofs.Calendar.Ranks
import Mathlib.Algebra.Ring.Int.Defs
import Mathlib.Tactic.IntervalCases

namespace LedgerWatch

namespace Date

/-- The day after a date. -/
def next (d : Date) : Date :=
  if d.day < monthLength d.year d.month then ⟨d.year, d.month, d.day + 1⟩
  else if d.month < 12 then ⟨d.year, d.month + 1, 1⟩
  else ⟨d.year + 1, 1, 1⟩

/-- Leap days up to the first of March of a year, counted from the year zero. -/
def leapDays (year : ℤ) : ℤ := year / 4 - year / 100 + year / 400

/-- Days of a year in front of a month; both are counted from March. -/
def monthStart (month : ℕ) : ℕ := (153 * month + 2) / 5

variable {d : Date} {month day : ℕ}

theorem monthLength_pos (year : ℤ) (month : ℕ) : 1 ≤ monthLength year month := by
  unfold monthLength
  split
  · split <;> decide
  · split <;> decide

theorem leapDays_eq (year : ℤ) :
    leapDays year = leapDays (year - 1) + if isLeap year then 1 else 0 := by
  simp only [leapDays, isLeap, ne_eq, Bool.and_eq_true, Bool.or_eq_true, decide_eq_true_eq]
  split <;> omega

theorem toDays_of_le (year : ℤ) (h : month ≤ 2) (day : ℕ) : toDays ⟨year, month, day⟩ =
    365 * (year - 1) + leapDays (year - 1) + (monthStart (month + 9) + (day - 1) : ℕ) := by
  simp only [toDays, leapDays, monthStart, if_pos h]
  omega

theorem toDays_of_gt (year : ℤ) (h : 2 < month) (day : ℕ) : toDays ⟨year, month, day⟩ =
    365 * year + leapDays year + (monthStart (month - 3) + (day - 1) : ℕ) := by
  simp only [toDays, leapDays, monthStart, if_neg (not_le.2 h)]
  omega

theorem monthStart_succ (year : ℤ) (h : 2 < month) (h' : month < 12) :
    monthStart (month + 1 - 3) = monthStart (month - 3) + monthLength year month := by
  interval_cases month <;> rfl

theorem toDays_first (year : ℤ) (h : 1 ≤ month) (h' : month < 12) :
    toDays ⟨year, month + 1, 1⟩ = toDays ⟨year, month, monthLength year month⟩ + 1 := by
  rcases le_or_gt month 2 with hle | hgt
  · obtain rfl | rfl : month = 1 ∨ month = 2 := by omega
    · have hlength : monthLength year 1 = 31 := rfl
      have hstart : monthStart (2 + 9) = 337 ∧ monthStart (1 + 9) = 306 := ⟨rfl, rfl⟩
      rw [toDays_of_le year le_rfl, toDays_of_le year hle]
      omega
    · -- the year is taken to begin behind the leap day
      have hlength : monthLength year 2 = 28 + if isLeap year then 1 else 0 := by
        simp only [monthLength, if_true]
        split <;> rfl
      have hleap := leapDays_eq year
      have hstart : monthStart (2 + 9) = 337 ∧ monthStart (2 + 1 - 3) = 0 := ⟨rfl, rfl⟩
      rw [toDays_of_gt year (by norm_num), toDays_of_le year hle, hlength, hleap]
      split <;> omega
  · have hstart := monthStart_succ year hgt h'
    rw [toDays_of_gt year (by omega), toDays_of_gt year hgt]
    have hpos := monthLength_pos year month
    omega

theorem toDays_newYear (year : ℤ) : toDays ⟨year + 1, 1, 1⟩ = toDays ⟨year, 12, 31⟩ + 1 := by
  have hstart : monthStart (1 + 9) = 306 ∧ monthStart (12 - 3) = 275 := ⟨rfl, rfl⟩
  rw [toDays_of_le _ (by norm_num), toDays_of_gt _ (by norm_num), add_sub_cancel_right]
  omega

theorem Valid.next (h : d.Valid) : d.next.Valid := by
  obtain ⟨hmonth, hmonth', hday, hday'⟩ := h
  unfold Date.next
  split
  · exact ⟨hmonth, hmonth', by simp, by simp only; omega⟩
  · split
    · exact ⟨by simp, by simp only; omega, le_rfl, monthLength_pos _ _⟩
    · exact ⟨le_rfl, by norm_num, le_rfl, monthLength_pos _ _⟩

theorem Valid.exists_next_eq (h : d.Valid) : ∃ p : Date, p.Valid ∧ p.next = d := by
  obtain ⟨year, month, day⟩ := d
  obtain ⟨hmonth, hmonth', hday, hday'⟩ := h
  simp only at hmonth hmonth' hday hday'
  rcases hday.eq_or_lt with rfl | hday
  · rcases hmonth.eq_or_lt with rfl | hmonth
    · refine ⟨⟨year - 1, 12, 31⟩, ⟨by norm_num, le_rfl, by norm_num, le_rfl⟩, ?_⟩
      have hlength : monthLength (year - 1) 12 = 31 := rfl
      simp [Date.next, hlength]
    · refine ⟨⟨year, month - 1, monthLength year (month - 1)⟩,
        ⟨by simp only; omega, by simp only; omega, monthLength_pos _ _, le_rfl⟩, ?_⟩
      have hlt : month - 1 < 12 := by omega
      have hmonth' : month - 1 + 1 = month := by omega
      simp [Date.next, hlt, hmonth']
  · refine ⟨⟨year, month, day - 1⟩, ⟨hmonth, hmonth', by simp only; omega, by simp only; omega⟩, ?_⟩
    have hlt : day - 1 < monthLength year month := by omega
    have hday' : day - 1 + 1 = day := by omega
    simp [Date.next, hlt, hday']

theorem toDays_next (h : d.Valid) : d.next.toDays = d.toDays + 1 := by
  obtain ⟨year, month, day⟩ := d
  obtain ⟨hmonth, hmonth', hday, hday'⟩ := h
  simp only at hmonth hmonth' hday hday'
  unfold next
  simp only
  split
  · simp only [toDays]
    omega
  · obtain rfl : day = monthLength year month := by omega
    split
    · exact toDays_first year hmonth (by omega)
    · obtain rfl : month = 12 := by omega
      exact toDays_newYear year

/-- The year of an era in centuries, in fours and a rest, behind a day of the era. Only the last day
of an era lies beyond its centuries, and the last day of four years beyond their years. -/
theorem yearOfEra_eq {c q r n : ℕ} (hc : c < 4) (hq : q < 25) (hr : r < 4) (hday : day ≤ 365)
    (hlast : day = 365 → r = 3 ∧ (q < 24 ∨ c = 3))
    (hn : n = 36524 * c + 1461 * q + 365 * r + day) :
    (n - n / 1460 + n / 36524 - n / 146096) / 365 = 100 * c + 4 * q + r := by
  rcases eq_or_ne n 146096 with rfl | hne
  · -- the last day of the era, a leap day behind four full centuries
    omega
  · have hera : n / 146096 = 0 := by omega
    have hcentury : n / 36524 = c := by
      have hless : 1461 * q + 365 * r + day < 36524 := by omega
      omega
    -- one on the last day of four years, whose leap day has to be taken off, and else zero
    obtain ⟨x, hx⟩ : ∃ x, x = (24 * c + q + 365 * r + day) / 1460 := ⟨_, rfl⟩
    have hfours : n / 1460 = 25 * c + q + x := by omega
    have hrest : x ≤ day ∧ day - x < 365 := by omega
    have hdays : n - n / 1460 + n / 36524 - n / 146096 =
        365 * (100 * c + 4 * q + r) + (day - x) := by
      omega
    omega

/-- The date of a day of a year; both are counted from March. -/
def ofDayOfYear (year : ℤ) (day : ℕ) : Date :=
  let month := (5 * day + 2) / 153
  if month < 10 then ⟨year, month + 3, day - monthStart month + 1⟩
  else ⟨year + 1, month - 9, day - monthStart month + 1⟩

theorem ofDays_eq {year : ℤ} (h : day < 365 + if isLeap (year + 1) then 1 else 0) :
    ofDays (365 * year + leapDays year + day) = ofDayOfYear year day := by
  obtain ⟨era, c, q, r, hc, hq, hr, rfl⟩ : ∃ (era : ℤ) (c q r : ℕ), c < 4 ∧ q < 25 ∧ r < 4 ∧
      year = 400 * era + (100 * c + 4 * q + r : ℕ) :=
    ⟨year / 400, (year % 400).toNat / 100, (year % 400).toNat % 100 / 4, (year % 400).toNat % 4,
      by omega, by omega, by omega, by omega⟩
  have hday : day ≤ 365 ∧ (day = 365 → r = 3 ∧ (q < 24 ∨ c = 3)) := by
    simp only [isLeap, ne_eq, Bool.and_eq_true, Bool.or_eq_true, decide_eq_true_eq] at h
    split at h <;> omega
  obtain ⟨n, hn⟩ : ∃ n, n = 36524 * c + 1461 * q + 365 * r + day := ⟨_, rfl⟩
  have hyear := yearOfEra_eq hc hq hr hday.1 hday.2 hn
  have hcount : 365 * (400 * era + (100 * c + 4 * q + r : ℕ)) +
      leapDays (400 * era + (100 * c + 4 * q + r : ℕ)) + day = 146097 * era + n := by
    simp only [leapDays]
    omega
  have hera : (146097 * era + (n : ℤ)) / 146097 = era := by omega
  have hrest : ((146097 * era + (n : ℤ)) % 146097).toNat = n := by omega
  have hfour : (100 * c + 4 * q + r) / 4 = 25 * c + q := by omega
  have hhundred : (100 * c + 4 * q + r) / 100 = c := by omega
  have hdayOfYear : n - (365 * (100 * c + 4 * q + r) + (25 * c + q) - c) = day := by omega
  rw [hcount]
  simp only [ofDays, hera, hrest, hyear, hfour, hhundred, hdayOfYear, mul_comm era]
  rfl

theorem ofDayOfYear_monthStart (year : ℤ) (h : monthStart month + day < monthStart (month + 1)) :
    ofDayOfYear year (monthStart month + day) =
      if month < 10 then ⟨year, month + 3, day + 1⟩ else ⟨year + 1, month - 9, day + 1⟩ := by
  have hfind : (5 * (monthStart month + day) + 2) / 153 = month := by
    simp only [monthStart] at h ⊢
    omega
  simp only [ofDayOfYear, hfind, Nat.add_sub_cancel_left]

/-- A date is found again behind its count of days. -/
theorem ofDays_toDays (h : d.Valid) : ofDays d.toDays = d := by
  obtain ⟨year, month, day⟩ := d
  obtain ⟨hmonth, hmonth', hday, hday'⟩ := h
  simp only at hmonth hmonth' hday hday'
  rcases le_or_gt month 2 with hle | hgt
  · have hbounds : monthStart (month + 9) + (day - 1) < monthStart (month + 9 + 1) ∧
        monthStart (month + 9) + (day - 1) < 365 + if isLeap (year - 1 + 1) then 1 else 0 := by
      rw [sub_add_cancel]
      obtain rfl | rfl : month = 1 ∨ month = 2 := by omega
      · have hlength : monthLength year 1 = 31 := rfl
        have hstart : monthStart (1 + 9) = 306 ∧ monthStart (1 + 9 + 1) = 337 := ⟨rfl, rfl⟩
        omega
      · have hlength : monthLength year 2 = if isLeap year then 29 else 28 := rfl
        have hstart : monthStart (2 + 9) = 337 ∧ monthStart (2 + 9 + 1) = 367 := ⟨rfl, rfl⟩
        rw [hlength] at hday'
        by_cases hleap : isLeap year = true
        · rw [if_pos hleap] at hday' ⊢
          omega
        · rw [if_neg hleap] at hday' ⊢
          omega
    rw [toDays_of_le year hle, ofDays_eq hbounds.2, ofDayOfYear_monthStart _ hbounds.1,
      if_neg (by omega), sub_add_cancel, Nat.add_sub_cancel, Nat.sub_add_cancel hday]
  · have hbounds : monthStart (month - 3) + (day - 1) < monthStart (month - 3 + 1) ∧
        monthStart (month - 3) + (day - 1) < 365 := by
      have hshort := monthLength_le year month
      rcases hmonth'.eq_or_lt with rfl | hlt
      · have hlength : monthLength year 12 = 31 := rfl
        have hstart : monthStart (12 - 3) = 275 ∧ monthStart (12 - 3 + 1) = 306 := ⟨rfl, rfl⟩
        omega
      · have hstart := monthStart_succ year hgt hlt
        have hsucc : month + 1 - 3 = month - 3 + 1 := by omega
        rw [hsucc] at hstart
        have hlast : monthStart (month - 3) ≤ 245 := by
          simp only [monthStart]
          omega
        omega
    rw [toDays_of_gt year hgt, ofDays_eq (by omega), ofDayOfYear_monthStart _ hbounds.1,
      if_pos (by omega), Nat.sub_add_cancel hgt, Nat.sub_add_cancel hday]

end Date

namespace Moment

def minuteOfDay (t : Moment) : ℕ := t.hour * 60 + t.minute

/-- `u` is the local time of `t` where clocks are `offset` minutes ahead: on the same day, the next
or the one before. -/
structure IsLocal (t : Moment) (offset : ℤ) (u : Moment) : Prop where
  valid : u.Valid
  second : u.second = t.second
  nanosecond : u.nanosecond = t.nanosecond
  day : (u.date = t.date ∧ (u.minuteOfDay : ℤ) = t.minuteOfDay + offset) ∨
    (u.date = t.date.next ∧ (u.minuteOfDay : ℤ) + 1440 = t.minuteOfDay + offset) ∨
    (u.date.next = t.date ∧ (u.minuteOfDay : ℤ) = t.minuteOfDay + offset + 1440)

variable {t u : Moment} {offset : ℤ}

theorem toMinutes_eq (t : Moment) : t.toMinutes = t.date.toDays * 1440 + t.minuteOfDay := by
  simp only [toMinutes, minuteOfDay]
  omega

theorem Valid.minuteOfDay_lt (h : t.Valid) : t.minuteOfDay < 1440 := by
  obtain ⟨-, hhour, hminute, -⟩ := h
  simp only [minuteOfDay]
  omega

theorem IsLocal.toMinutes (ht : t.Valid) (h : IsLocal t offset u) :
    u.toMinutes = t.toMinutes + offset := by
  obtain ⟨hu, -, -, hday⟩ := h
  rw [toMinutes_eq, toMinutes_eq]
  rcases hday with ⟨hdate, hminute⟩ | ⟨hdate, hminute⟩ | ⟨hdate, hminute⟩
  · rw [hdate]
    omega
  · rw [hdate, Date.toDays_next ht.1]
    omega
  · rw [← hdate, Date.toDays_next hu.1]
    omega

theorem Valid.exists_isLocal (h : t.Valid) (hlow : -1440 < offset) (hhigh : offset < 1440) :
    ∃ u, IsLocal t offset u := by
  have hlt := h.minuteOfDay_lt
  obtain ⟨hdate, -, -, hsecond, hnanosecond⟩ := h
  obtain ⟨date, minutes, hvalid, hminutes, hday⟩ : ∃ (date : Date) (minutes : ℕ), date.Valid ∧
      minutes < 1440 ∧ ((date = t.date ∧ (minutes : ℤ) = t.minuteOfDay + offset) ∨
        (date = t.date.next ∧ (minutes : ℤ) + 1440 = t.minuteOfDay + offset) ∨
        (date.next = t.date ∧ (minutes : ℤ) = t.minuteOfDay + offset + 1440)) := by
    rcases lt_or_ge (t.minuteOfDay + offset) 0 with hbefore | hsame
    · obtain ⟨date, hvalid, hnext⟩ := hdate.exists_next_eq
      exact ⟨date, (t.minuteOfDay + offset + 1440).toNat, hvalid, by omega,
        .inr (.inr ⟨hnext, by omega⟩)⟩
    · rcases lt_or_ge (t.minuteOfDay + offset) 1440 with hsame' | hafter
      · exact ⟨t.date, (t.minuteOfDay + offset).toNat, hdate, by omega, .inl ⟨rfl, by omega⟩⟩
      · exact ⟨t.date.next, (t.minuteOfDay + offset - 1440).toNat, hdate.next, by omega,
          .inr (.inl ⟨rfl, by omega⟩)⟩
  have hclock : minuteOfDay ⟨date, minutes / 60, minutes % 60, t.second, t.nanosecond⟩ =
      minutes := by
    simp only [minuteOfDay]
    omega
  refine ⟨⟨date, minutes / 60, minutes % 60, t.second, t.nanosecond⟩, ?_, rfl, rfl, ?_⟩
  · exact ⟨hvalid, by simp only; omega, by simp only; omega, hsecond, hnanosecond⟩
  · rw [hclock]
    exact hday

/-- A local time leads back to the moment that it stands for. -/
theorem IsLocal.addMinutes (ht : t.Valid) (h : IsLocal t offset u) :
    u.addMinutes (-offset) = t := by
  have htotal : u.toMinutes + -offset = t.date.toDays * 1440 + t.minuteOfDay := by
    rw [h.toMinutes ht, toMinutes_eq]
    omega
  have hlt := ht.minuteOfDay_lt
  have hdays : (t.date.toDays * 1440 + (t.minuteOfDay : ℤ)) / 1440 = t.date.toDays := by omega
  have hrest : ((t.date.toDays * 1440 + (t.minuteOfDay : ℤ)) % 1440).toNat = t.minuteOfDay := by
    omega
  have hminute := ht.2.2.1
  have hclock : t.minuteOfDay / 60 = t.hour ∧ t.minuteOfDay % 60 = t.minute := by
    simp only [minuteOfDay]
    omega
  obtain ⟨-, hsecond, hnanosecond, -⟩ := h
  simp only [Moment.addMinutes, htotal, hdays, hrest, hclock, Date.ofDays_toDays ht.1, hsecond,
    hnanosecond]

end Moment

end LedgerWatch
