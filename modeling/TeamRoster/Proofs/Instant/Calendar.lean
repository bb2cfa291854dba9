import TeamRoster.Instant.Calendar

/-!
# Days and dates

The date of a number of days exists and has that number of days. Main statements: `toDays_ofDays` and
`isValid_ofDays`. A number of days is cut into cycles of the calendar, centuries, spans of four years,
years and days of a year (`Cut`), all of them counted from March; its date is described by these
(`ofDays_eq`), so that what the divisions in `ofDays` come to is found out once.
-/

namespace TeamRoster

namespace Date

variable {n : Int} {m : Nat}

theorem isLeapYear_iff (y : Int) :
    isLeapYear y = true ↔ 4 ∣ y ∧ (¬ 100 ∣ y ∨ 400 ∣ y) := by
  simp only [isLeapYear, Bool.and_eq_true, Bool.or_eq_true, beq_iff_eq, bne_iff_ne]
  omega

/-- A number of days since 1970, cut at the first of March of every 400th, 100th and 4th year and of every
year. The last year of a span has one day more, unless it is the last one of a century that is not the
last one of a cycle. -/
structure Cut (n : Int) where
  cycle : Int
  century : Nat
  span : Nat
  year : Nat
  day : Nat
  century_lt : century < 4
  span_lt : span < 25
  year_lt : year < 4
  day_le : day < 365 ∨ day = 365 ∧ year = 3 ∧ (span = 24 → century = 3)
  eq : n = 146097 * cycle + (36524 * century + 1461 * span + 365 * year + day : Nat) - 719468

/-- Every number of days is cut so. -/
theorem nonempty_cut (n : Int) : Nonempty (Cut n) := by
  obtain ⟨cycle, d, hn, hd⟩ : ∃ (cycle : Int) (d : Nat),
      n = 146097 * cycle + d - 719468 ∧ d < 146097 :=
    ⟨(n + 719468) / 146097, ((n + 719468) % 146097).toNat, by omega, by omega⟩
  obtain ⟨century, r, hr, hcentury, hcases⟩ : ∃ century r : Nat, d = 36524 * century + r ∧
      century < 4 ∧ (r < 36524 ∨ r = 36524 ∧ century = 3) := by
    by_cases hlast : d = 146096
    · exact ⟨3, 36524, hlast, by decide, .inr ⟨rfl, rfl⟩⟩
    · exact ⟨d / 36524, d % 36524, by omega, by omega, .inl (by omega)⟩
  obtain ⟨span, s, hs, hspan⟩ : ∃ span s : Nat, r = 1461 * span + s ∧ s < 1461 :=
    ⟨r / 1461, r % 1461, by omega, by omega⟩
  obtain ⟨year, day, hday, hyear, hlong⟩ : ∃ year day : Nat, s = 365 * year + day ∧
      year < 4 ∧ (day < 365 ∨ day = 365 ∧ year = 3) := by
    by_cases hlast : s = 1460
    · exact ⟨3, 365, hlast, by decide, .inr ⟨rfl, rfl⟩⟩
    · exact ⟨s / 365, s % 365, by omega, by omega, .inl (by omega)⟩
  exact ⟨⟨cycle, century, span, year, day, hcentury, by omega, hyear, by omega, by omega⟩⟩

namespace Cut

/-- The year of the cycle. -/
def yearOfCycle (c : Cut n) : Nat :=
  100 * c.century + 4 * c.span + c.year

/-- The days of the cycle. -/
def dayOfCycle (c : Cut n) : Nat :=
  36524 * c.century + 1461 * c.span + 365 * c.year + c.day

theorem yearOfCycle_lt (c : Cut n) : c.yearOfCycle < 400 := by
  have hcentury := c.century_lt
  have hspan := c.span_lt
  have hyear := c.year_lt
  unfold yearOfCycle
  omega

theorem dayOfCycle_lt (c : Cut n) : c.dayOfCycle < 146097 := by
  have hcentury := c.century_lt
  have hspan := c.span_lt
  have hyear := c.year_lt
  have hday := c.day_le
  unfold dayOfCycle
  omega

/-- Years of 365 days and what leap years add make up the days before a year of the cycle. -/
theorem dayOfCycle_eq (c : Cut n) : c.dayOfCycle =
    365 * c.yearOfCycle + c.yearOfCycle / 4 - c.yearOfCycle / 100 + c.day := by
  have hcentury := c.century_lt
  have hspan := c.span_lt
  have hyear := c.year_lt
  unfold dayOfCycle yearOfCycle
  omega

/-- The rule by which `ofDays` finds the year of the cycle. -/
theorem yearOfCycle_eq (c : Cut n) :
    (c.dayOfCycle - c.dayOfCycle / 1460 + c.dayOfCycle / 36524 - c.dayOfCycle / 146096) / 365 =
      c.yearOfCycle := by
  have hcentury := c.century_lt
  have hspan := c.span_lt
  have hyear := c.year_lt
  have hday := c.day_le
  obtain ⟨d, hd⟩ : ∃ d, c.dayOfCycle = d := ⟨_, rfl⟩
  rw [hd, yearOfCycle]
  unfold dayOfCycle at hd
  by_cases hlast : d = 146096
  · rw [hlast]
    omega
  · have hcycle : d / 146096 = 0 := by omega
    have hdiv : d / 36524 = c.century := by omega
    -- A span is longer than four times 365 days, so that the quotient runs ahead once in a span.
    obtain ⟨ahead, hahead⟩ : ∃ ahead, d / 1460 = 25 * c.century + c.span + ahead :=
      ⟨d / 1460 - (25 * c.century + c.span), by omega⟩
    have hin : ahead ≤ c.day ∧ c.day < 365 + ahead := by omega
    rw [hcycle, hdiv, hahead]
    omega

/-- A year of 366 days ends with the February of a leap year. -/
theorem isLeapYear (c : Cut n) (h : c.day = 365) :
    isLeapYear (c.yearOfCycle + 400 * c.cycle + 1) = true := by
  have hcentury := c.century_lt
  have hspan := c.span_lt
  have hday := c.day_le
  rw [isLeapYear_iff]
  unfold yearOfCycle
  omega

end Cut

/-- The date of a number of days. Months are counted from March, too, by the days before them. -/
theorem ofDays_eq (c : Cut n) (hm : (5 * c.day + 2) / 153 = m) :
    ofDays n =
      if m < 10 then ⟨c.yearOfCycle + 400 * c.cycle, m + 3, c.day - (153 * m + 2) / 5 + 1⟩
      else ⟨c.yearOfCycle + 400 * c.cycle + 1, m - 9, c.day - (153 * m + 2) / 5 + 1⟩ := by
  have hcycle := c.dayOfCycle_lt
  have hn : n = 146097 * c.cycle + c.dayOfCycle - 719468 := c.eq
  have hquotient : (n + 719468) / 146097 = c.cycle := by omega
  have hremainder : ((n + 719468) % 146097).toNat = c.dayOfCycle := by omega
  have hday : c.dayOfCycle - (365 * c.yearOfCycle + c.yearOfCycle / 4 - c.yearOfCycle / 100) =
      c.day := by
    have heq := c.dayOfCycle_eq
    omega
  simp only [ofDays, hquotient, hremainder, c.yearOfCycle_eq, hday, hm]
  have hdays := c.day_le
  by_cases hspring : m < 10
  · have hmonth : ¬ m + 3 ≤ 2 := by omega
    simp [hspring, hmonth]
  · have hmonth : m - 9 ≤ 2 := by omega
    simp [hspring, hmonth]

/-- The date of a number of days has that number of days. -/
@[simp] theorem toDays_ofDays (n : Int) : (ofDays n).toDays = n := by
  obtain ⟨c⟩ := nonempty_cut n
  have hn : n = 146097 * c.cycle + c.dayOfCycle - 719468 := c.eq
  have hday := c.dayOfCycle_eq
  have hyear := c.yearOfCycle_lt
  have hdays := c.day_le
  obtain ⟨m, hm⟩ : ∃ m, (5 * c.day + 2) / 153 = m := ⟨_, rfl⟩
  rw [ofDays_eq c hm]
  by_cases hspring : m < 10
  · have hmonth : ¬ m + 3 ≤ 2 := by omega
    have hback : (m + 3 + 9) % 12 = m := by omega
    simp only [hspring, if_true, toDays, hmonth, if_false, hback]
    omega
  · have hmonth : m - 9 ≤ 2 := by omega
    have hback : (m - 9 + 9) % 12 = m := by omega
    simp only [hspring, if_false, toDays, hmonth, if_true, hback]
    omega

/-- The date of a number of days exists. -/
@[simp] theorem isValid_ofDays (n : Int) : (ofDays n).isValid = true := by
  obtain ⟨c⟩ := nonempty_cut n
  have hdays := c.day_le
  obtain ⟨m, hm⟩ : ∃ m, (5 * c.day + 2) / 153 = m := ⟨_, rfl⟩
  rw [ofDays_eq c hm, isValid]
  by_cases hspring : m < 10
  · simp only [hspring, if_true, decide_eq_true_eq]
    refine ⟨by omega, by omega, by omega, ?_⟩
    rw [daysInMonth, if_neg (show ¬ m + 3 = 2 by omega)]
    split <;> omega
  · simp only [hspring, if_false, decide_eq_true_eq]
    refine ⟨by omega, by omega, by omega, ?_⟩
    by_cases hjanuary : m = 10
    · rw [hjanuary, daysInMonth, if_neg (by decide), if_neg (by decide)]
      omega
    · have hfebruary : m - 9 = 2 := by omega
      rw [hfebruary, daysInMonth, if_pos rfl]
      rcases hdays with hshort | ⟨hlong, -⟩
      · split <;> omega
      · rw [c.isLeapYear hlong, if_pos rfl]
        omega

end Date

end TeamRoster
