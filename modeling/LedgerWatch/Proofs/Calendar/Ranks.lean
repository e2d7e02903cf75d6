import LedgerWatch.Record.Basic

namespace LedgerWatch

structure Moment.Bounded (t : Moment) : Prop where
  month : t.date.month < 13
  day : t.date.day < 32
  hour : t.hour < 24
  minute : t.minute < 60
  second : t.second < 60
  nanosecond : t.nanosecond < 2000000000

namespace Date

theorem monthLength_le (year : Int) (month : Nat) : monthLength year month ≤ 31 := by
  unfold monthLength
  split
  · split <;> decide
  · split <;> decide

theorem dayOfYear_lt {d : Nat} (hd : d < 146097) :
    let y := (d - d / 1460 + d / 36524 - d / 146096) / 365
    d - (365 * y + y / 4 - y / 100) < 366 := by
  intro y
  -- the last day of an era stands alone; any other one has a century, four years and a rest
  by_cases hlast : d = 146096
  · subst hlast
    decide
  · obtain ⟨c, r, hc, hr, rfl⟩ : ∃ c r, c < 4 ∧ r < 36524 ∧ d = 36524 * c + r :=
      ⟨d / 36524, d % 36524, by omega, by omega, by omega⟩
    obtain ⟨q, s, hq, hs, rfl⟩ : ∃ q s, q < 25 ∧ s < 1461 ∧ r = 1461 * q + s :=
      ⟨r / 1461, r % 1461, by omega, by omega, by omega⟩
    have hcentury : (36524 * c + (1461 * q + s)) / 36524 = c := by omega
    have hera : (36524 * c + (1461 * q + s)) / 146096 = 0 := by omega
    have hleap : (36524 * c + (1461 * q + s)) / 1460 = 25 * c + q + (24 * c + q + s) / 1460 := by
      omega
    have hy : y = 100 * c + 4 * q + (s - (24 * c + q + s) / 1460) / 365 := by omega
    have hrest : (s - (24 * c + q + s) / 1460) / 365 < 4 := by omega
    have hfour : y / 4 = 25 * c + q := by omega
    have hhundred : y / 100 = c := by omega
    omega

theorem monthOfYear_lt {d : Nat} (hd : d < 366) :
    let m := (5 * d + 2) / 153
    m < 12 ∧ d - (153 * m + 2) / 5 + 1 < 32 := by
  intro m
  omega

theorem ofDays_bounds (days : Int) : (ofDays days).month < 13 ∧ (ofDays days).day < 32 := by
  have hera : (days % 146097).toNat < 146097 := by omega
  obtain ⟨hmonth, hday⟩ := monthOfYear_lt (dayOfYear_lt hera)
  unfold ofDays
  simp only
  split
  · exact ⟨by simp only; omega, hday⟩
  · exact ⟨by simp only; omega, hday⟩

end Date

namespace Moment

theorem Valid.bounded {t : Moment} (h : t.Valid) : t.Bounded := by
  obtain ⟨⟨-, hmonth, -, hday⟩, hhour, hminute, hsecond, hnanosecond⟩ := h
  have hlength := Date.monthLength_le t.date.year t.date.month
  exact ⟨by omega, by omega, hhour, hminute, hsecond, hnanosecond⟩

theorem bounded_of_ofFields? {d : Date} {hour minute second nanosecond : Nat} {t : Moment}
    (h : ofFields? d hour minute second nanosecond = some t) : t.Bounded := by
  simp only [ofFields?, Option.ite_none_right_eq_some, Option.some.injEq] at h
  obtain ⟨hvalid, rfl⟩ := h
  exact hvalid.bounded

theorem Bounded.addMinutes {t : Moment} (h : t.Bounded) (minutes : Int) :
    (t.addMinutes minutes).Bounded := by
  obtain ⟨hmonth, hday⟩ := Date.ofDays_bounds ((t.toMinutes + minutes) / 1440)
  refine ⟨hmonth, hday, ?_, ?_, h.second, h.nanosecond⟩
  · simp only [Moment.addMinutes]
    omega
  · simp only [Moment.addMinutes]
    omega

theorem Bounded.eq_of_rank_eq {s t : Moment} (hs : s.Bounded) (ht : t.Bounded)
    (h : s.rank = t.rank) : s = t := by
  obtain ⟨⟨year, month, day⟩, hour, minute, second, nanosecond⟩ := s
  obtain ⟨⟨year', month', day'⟩, hour', minute', second', nanosecond'⟩ := t
  obtain ⟨h1, h2, h3, h4, h5, h6⟩ := hs
  obtain ⟨h1', h2', h3', h4', h5', h6'⟩ := ht
  simp only [rank] at *
  -- the rank gives up its parts one by one, the least first
  obtain rfl : nanosecond = nanosecond' := by omega
  obtain rfl : second = second' := by omega
  obtain rfl : minute = minute' := by omega
  obtain rfl : hour = hour' := by omega
  obtain rfl : day = day' := by omega
  obtain rfl : month = month' := by omega
  obtain rfl : year = year' := by omega
  rfl

/-- The fields from the year down to the nanosecond. -/
def fields (t : Moment) : List Int :=
  [t.date.year, t.date.month, t.date.day, t.hour, t.minute, t.second, t.nanosecond]

/-- Of two moments the earlier one has the smaller of the first fields that differ. -/
def Earlier (s t : Moment) : Prop := List.Lex (· < ·) s.fields t.fields

instance (s t : Moment) : Decidable (s.Earlier t) := List.decidableLex _ _ _

/-- A number with a last digit is below another one by what stands before the digit, or by it. -/
theorem digit_lt_iff {a b c d n : Int} (hc : 0 ≤ c ∧ c < n) (hd : 0 ≤ d ∧ d < n) :
    a * n + c < b * n + d ↔ a < b ∨ a = b ∧ c < d := by
  have hstep : ∀ {a b : Int}, a < b → a * n + n ≤ b * n := by
    intro a b hab
    have hmul := Int.mul_le_mul_of_nonneg_right (Int.add_one_le_of_lt hab) (show 0 ≤ n by omega)
    rwa [Int.add_mul, Int.one_mul] at hmul
  rcases Int.lt_trichotomy a b with hlt | rfl | hgt
  · have hless := hstep hlt
    omega
  · omega
  · have hless := hstep hgt
    omega

/-- The rank has the fields for its digits. -/
theorem rank_eq (t : Moment) :
    t.rank = t.date.year * (13 * 32 * 24 * 60 * 60 * 2000000000) +
      (t.date.month * (32 * 24 * 60 * 60 * 2000000000) +
      (t.date.day * (24 * 60 * 60 * 2000000000) + (t.hour * (60 * 60 * 2000000000) +
      (t.minute * (60 * 2000000000) + (t.second * 2000000000 + t.nanosecond))))) := by
  simp only [rank]
  omega

theorem Bounded.rank_lt_iff {s t : Moment} (hs : s.Bounded) (ht : t.Bounded) :
    s.rank < t.rank ↔ s.Earlier t := by
  obtain ⟨h1, h2, h3, h4, h5, h6⟩ := hs
  obtain ⟨h1', h2', h3', h4', h5', h6'⟩ := ht
  rw [rank_eq, rank_eq, digit_lt_iff (by omega) (by omega), digit_lt_iff (by omega) (by omega),
    digit_lt_iff (by omega) (by omega), digit_lt_iff (by omega) (by omega),
    digit_lt_iff (by omega) (by omega), digit_lt_iff (by omega) (by omega)]
  simp only [Earlier, fields, List.cons_lex_cons_iff, List.not_lex_nil, and_false, or_false]

theorem Bounded.rank_le_iff {s t : Moment} (hs : s.Bounded) (ht : t.Bounded) :
    s.rank ≤ t.rank ↔ ¬t.Earlier s := by
  rw [← ht.rank_lt_iff hs, Int.not_lt]

end Moment

namespace Calendar

theorem bounded_of_timestamp? {s : List Char} {t : Moment} (h : timestamp? s = some t) :
    t.Bounded := by
  unfold timestamp? at h
  -- five fields with what separates them from the next one, then seconds, their fraction, an offset
  iterate 5
    obtain ⟨⟨_, _⟩, -, h⟩ := Option.bind_eq_some_iff.1 h
    obtain ⟨_, -, h⟩ := Option.bind_eq_some_iff.1 h
  iterate 2
    obtain ⟨⟨_, _⟩, -, h⟩ := Option.bind_eq_some_iff.1 h
  obtain ⟨_, -, h⟩ := Option.bind_eq_some_iff.1 h
  obtain ⟨localTime, hfields, h⟩ := Option.bind_eq_some_iff.1 h
  obtain rfl := Option.some.inj h
  exact (Moment.bounded_of_ofFields? hfields).addMinutes _

theorem bounded_of_layout {layout : Layout} {s : List Char} {t : Moment}
    (h : layout.moment? s = some t) : t.Bounded := by
  obtain ⟨fs, -, h⟩ := Option.bind_eq_some_iff.1 h
  simp only [momentOf?, bind, Option.bind_eq_some_iff] at h
  obtain ⟨year, -, month, -, day, -, h⟩ := h
  split at h
  · exact Moment.bounded_of_ofFields? h
  · cases h

theorem bounded_of_moment? {text : String} {t : Moment} (h : moment? text = some t) :
    t.Bounded := by
  simp only [moment?, Option.orElse_eq_orElse, Option.orElse_eq_or, Option.or_eq_some_iff] at h
  rcases h with h | ⟨-, h⟩
  · exact bounded_of_timestamp? h
  · obtain ⟨layout, -, h⟩ := List.exists_of_findSome?_eq_some h
    exact bounded_of_layout h

end Calendar

theorem Record.bounded_of_transactionDate? {r : Record} {t : Moment}
    (h : r.transactionDate? = some t) : t.Bounded := by
  obtain ⟨text, -, h⟩ := Option.bind_eq_some_iff.1 h
  exact Calendar.bounded_of_moment? h

end LedgerWatch
