import Mathlib.Algebra.Group.Nat.Defs
import TeamRoster.Instant.Stamp
import TeamRoster.Proofs.Instant.Calendar

/-!
# Time stamps that were written

Reading a written instant gives it back: the date, the time of day and the part of a second, leap seconds
included. Main statements: `Stamp.read?_write`, and `Stamp.isYear_of_read?`, by which every instant that
was read is one that `read?_write` is about. A field is read up to a given number of digits, so that its
digits have to be that many or be followed by something else (`Text.readDigits?_append`).
-/

namespace TeamRoster

namespace Text

variable {c : Char} {ds rest : List Char} {most width n : Nat}

/-- A digit is not white space. -/
theorem isBlank_of_isDigit (h : c.isDigit = true) : isBlank c = false := by
  simp only [Char.isDigit, Bool.and_eq_true, decide_eq_true_eq] at h
  have hlow : 0x30 ≤ c.toNat := h.1
  have hhigh : c.toNat ≤ 0x39 := h.2
  simp only [isBlank, Bool.or_eq_false_iff, Bool.and_eq_false_iff, decide_eq_false_iff_not,
    beq_eq_false_iff_ne]
  omega

theorem trimStart_digits (hdigits : ∀ c ∈ ds, c.isDigit = true) (hne : ds ≠ []) :
    trimStart (ds ++ rest) = ds ++ rest := by
  cases ds with
  | nil => exact absurd rfl hne
  | cons d ds => exact trimStart_of_head (isBlank_of_isDigit (hdigits d List.mem_cons_self))

/-- Digits are read that are as many as are looked for, or that something else follows. -/
theorem readDigits?_append (hdigits : ∀ c ∈ ds, c.isDigit = true) (hne : ds ≠ [])
    (hlength : ds.length ≤ most)
    (hend : ds.length = most ∨ ∀ c ∈ rest.head?, c.isDigit = false) :
    readDigits? most (ds ++ rest) = some (digitsValue ds, rest) := by
  have hnone : (rest.take (most - ds.length)).takeWhile Char.isDigit = [] := by
    rcases hend with heq | hrest
    · simp [heq]
    · cases rest with
      | nil => simp
      | cons d rest => cases most - ds.length <;> simp [hrest d rfl]
  have htake : ((ds ++ rest).take most).takeWhile Char.isDigit = ds := by
    rw [List.take_append, List.take_of_length_le hlength, List.takeWhile_append_of_pos hdigits,
      hnone, List.append_nil]
  simp [readDigits?, htake, hne]

theorem isDigit_of_mem_padded (h : c ∈ padded width n) : c.isDigit = true := by
  rcases List.mem_append.1 h with hzero | hdigit
  · rw [List.eq_of_mem_replicate hzero]
    decide
  · exact isDigit_of_mem_digits hdigit

theorem padded_ne_nil (width n : Nat) : padded width n ≠ [] := by
  simp [padded, digits_ne_nil]

/-- Zeros in front do not change the number. -/
theorem digitsValue_padded (width n : Nat) : digitsValue (padded width n) = n := by
  have hzeros (k : Nat) : digitsValue (List.replicate k '0' ++ digits n) = digitsValue (digits n) := by
    induction k with
    | zero => rfl
    | succ k ih => exact ih
  exact (hzeros _).trans (digitsValue_digits n)

/-- A number that fits is written with as many digits as asked for. -/
theorem length_padded (hwidth : 0 < width) (h : n < 10 ^ width) : (padded width n).length = width := by
  have hle : (digits n).length ≤ width := (Nat.length_toDigits_le_iff (by decide) hwidth).2 h
  rw [padded, List.length_append, List.length_replicate]
  omega

theorem readDigits?_padded (hwidth : 0 < width) (h : n < 10 ^ width) (hle : width ≤ most)
    (hend : width = most ∨ ∀ c ∈ rest.head?, c.isDigit = false) :
    readDigits? most (padded width n ++ rest) = some (n, rest) := by
  have hlength := length_padded hwidth h
  rw [readDigits?_append (fun c hc => isDigit_of_mem_padded hc) (padded_ne_nil width n)
    (by omega) (by rwa [hlength]), digitsValue_padded]

end Text

namespace Stamp

open Text

variable {c : Char} {rest : List Char}

theorem mark?_cons (h : isBlank c = false) : mark? c (c :: rest) = some rest := by
  rw [mark?, trimStart_of_head h]
  exact if_pos rfl

/-- Two digits within the bounds of a field. -/
theorem field?_padded {low high n : Nat} (hlow : low ≤ n) (hhigh : n ≤ high) (h : n < 100) :
    field? low high (padded 2 n ++ rest) = some (n, rest) := by
  rw [field?, trimStart_digits (fun c hc => isDigit_of_mem_padded hc) (padded_ne_nil 2 n),
    readDigits?_padded (by decide) h (Nat.le_refl 2) (.inl rfl)]
  simp [hlow, hhigh]

/-- A year is read back: four digits, or a sign and all the digits that follow. -/
theorem year?_yearText (y : Int) (hrest : ∀ c ∈ rest.head?, c.isDigit = false) :
    year? (yearText y ++ rest) = some (y, rest) := by
  have hdigits (n : Nat) : ∀ c ∈ padded 4 n, c.isDigit = true := fun c hc => isDigit_of_mem_padded hc
  have hsigned (n : Nat) : readDigits? (padded 4 n ++ rest).length (padded 4 n ++ rest) =
      some (n, rest) := by
    rw [readDigits?_append (hdigits n) (padded_ne_nil 4 n) (by simp) (.inr hrest),
      digitsValue_padded]
  by_cases hshort : 0 ≤ y ∧ y ≤ 9999
  · have hread : readDigits? 4 (padded 4 y.toNat ++ rest) = some (y.toNat, rest) :=
      readDigits?_padded (by decide) (by omega) (Nat.le_refl 4) (.inl rfl)
    rw [yearText, if_pos hshort, year?, trimStart_digits (hdigits _) (padded_ne_nil 4 _)]
    -- The text starts with a digit, and not with a sign.
    cases hpadded : padded 4 y.toNat with
    | nil => exact absurd hpadded (padded_ne_nil 4 _)
    | cons d ds =>
      have hd : d.isDigit = true := hdigits y.toNat d (hpadded ▸ List.mem_cons_self)
      rw [hpadded] at hread
      split
      · rename_i heq
        rw [(List.cons.inj heq).1] at hd
        exact absurd hd (by decide)
      · rename_i heq
        rw [(List.cons.inj heq).1] at hd
        exact absurd hd (by decide)
      · simp only [hread, Option.map_some, Option.some.injEq, Prod.mk.injEq, and_true]
        omega
  · rw [yearText, if_neg hshort, year?]
    by_cases hnegative : y < 0
    · rw [if_pos hnegative, List.cons_append, trimStart_of_head (by decide)]
      simp only [hsigned, Option.map_some, Option.some.injEq, Prod.mk.injEq, and_true]
      omega
    · rw [if_neg hnegative, List.cons_append, trimStart_of_head (by decide)]
      simp only [hsigned, Option.map_some, Option.some.injEq, Prod.mk.injEq, and_true]
      omega

/-- A part of a second that was written with some of its digits. -/
theorem fraction?_padded {width part : Nat} (hwidth : 0 < width) (hle : width ≤ 9)
    (hpart : part < 10 ^ width) (hrest : ∀ c ∈ rest.head?, c.isDigit = false) :
    fraction? ('.' :: (padded width part ++ rest)) = some (part * 10 ^ (9 - width), rest) := by
  have hdrop : rest.dropWhile Char.isDigit = rest := by
    cases rest with
    | nil => rfl
    | cons c rest => simp [hrest c rfl]
  have hlength : (padded width part ++ rest).length - rest.length = width := by
    rw [List.length_append, length_padded hwidth hpart, Nat.add_sub_cancel_right]
  simp only [fraction?, readDigits?_padded hwidth hpart hle (.inr hrest), Option.map_some, hdrop,
    hlength]
  rfl

theorem fraction?_fractionText {f : Nat} (hf : f < 1000000000)
    (hrest : ∀ c ∈ rest.head?, c.isDigit = false ∧ c ≠ '.') :
    fraction? (fractionText f ++ rest) = some (f, rest) := by
  have hdigit : ∀ c ∈ rest.head?, c.isDigit = false := fun c hc => (hrest c hc).1
  unfold fractionText
  split
  · rename_i hzero
    rw [List.nil_append, fraction?, hzero]
    rintro cs rfl
    exact (hrest '.' rfl).2 rfl
  split
  · rw [List.cons_append, fraction?_padded (by decide) (by decide) (by omega) hdigit]
    simp only [Option.some.injEq, Prod.mk.injEq, and_true]
    omega
  split
  · rw [List.cons_append, fraction?_padded (by decide) (by decide) (by omega) hdigit]
    simp only [Option.some.injEq, Prod.mk.injEq, and_true]
    omega
  · rw [List.cons_append, fraction?_padded (by decide) (by decide) hf hdigit]
    simp only [Option.some.injEq, Prod.mk.injEq, and_true]
    omega

/-- The date of a written instant. -/
theorem date?_written {date : Date} (hvalid : date.isValid = true) (hyear : isYear date.year = true) :
    date? (yearText date.year ++ '-' :: (padded 2 date.month ++ '-' :: (padded 2 date.day ++ rest))) =
      some (date, rest) := by
  have hbounds : 1 ≤ date.month ∧ date.month ≤ 12 ∧ 1 ≤ date.day ∧ date.day ≤ 31 := by
    simp only [Date.isValid, decide_eq_true_eq] at hvalid
    have hmonth : Date.daysInMonth date.year date.month ≤ 31 := by
      unfold Date.daysInMonth
      repeat' split
      all_goals omega
    omega
  obtain ⟨hmonth, hmonth', hday, hday'⟩ := hbounds
  have hdash : ∀ c ∈ ('-' :: (padded 2 date.month ++ '-' :: (padded 2 date.day ++ rest))).head?,
      c.isDigit = false := by
    simp
  have hread := year?_yearText date.year hdash
  simp [date?, hread, mark?_cons (show isBlank '-' = false by decide),
    field?_padded hmonth hmonth' (by omega), field?_padded hday hday' (by omega), hvalid, hyear]

/-- The time of a written instant. -/
theorem time?_written {hour minute second part : Nat} (hhour : hour ≤ 23) (hminute : minute ≤ 59)
    (hsecond : second ≤ 60) (hpart : part < 1000000000)
    (hrest : ∀ c ∈ rest.head?, c.isDigit = false ∧ c ≠ '.') :
    time? (padded 2 hour ++ ':' :: (padded 2 minute ++ ':' ::
        (padded 2 second ++ (fractionText part ++ rest)))) =
      some ((60 * hour + minute, 1000000000 * second + part), rest) := by
  simp [time?, mark?_cons (show isBlank ':' = false by decide),
    field?_padded (Nat.zero_le hour) hhour (by omega),
    field?_padded (Nat.zero_le minute) hminute (by omega),
    field?_padded (Nat.zero_le second) hsecond (by omega), fraction?_fractionText hpart hrest]

theorem chars_eq (i : Instant) :
    chars i = yearText (Date.ofDays (i.minute / 1440)).year ++
      '-' :: (padded 2 (Date.ofDays (i.minute / 1440)).month ++
      '-' :: (padded 2 (Date.ofDays (i.minute / 1440)).day ++
      'T' :: (padded 2 ((i.minute % 1440).toNat / 60) ++
      ':' :: (padded 2 ((i.minute % 1440).toNat % 60) ++
      ':' :: (padded 2 (i.nanos / 1000000000) ++
        (fractionText (i.nanos % 1000000000) ++ ['Z'])))))) := by
  simp [chars]

/-- A written instant is read back, if its year is one that a stamp may name. -/
theorem read?_write {i : Instant} (hyear : isYear (Date.ofDays (i.minute / 1440)).year = true) :
    read? (write i) = some i := by
  have hnanos := i.nanos_lt
  have hhour : (i.minute % 1440).toNat / 60 ≤ 23 := by omega
  have hpast : (i.minute % 1440).toNat % 60 ≤ 59 := by omega
  -- The sixtieth second is the leap second.
  have hleap : i.nanos / 1000000000 ≤ 60 := by omega
  have hpart : i.nanos % 1000000000 < 1000000000 := by omega
  have hend : ∀ c ∈ ['Z'].head?, c.isDigit = false ∧ c ≠ '.' := by simp
  have htime := time?_written hhour hpast hleap hpart hend
  have hzone : zone? (trimStart ['Z']) = some (0, []) := by decide
  have hminute : 1440 * (i.minute / 1440) +
      (60 * ((i.minute % 1440).toNat / 60) + (i.minute % 1440).toNat % 60 : Nat) - 0 = i.minute := by
    omega
  have hsecond : 1000000000 * (i.nanos / 1000000000) + i.nanos % 1000000000 = i.nanos :=
    Nat.div_add_mod _ _
  rw [read?, write, String.toList_ofList, chars_eq]
  simp only [date?_written (Date.isValid_ofDays _) hyear, separator?, htime, hzone,
    Option.bind_eq_bind, Option.bind_some, Date.toDays_ofDays, hminute, hsecond]
  simp [hyear, hnanos, trimStart]

/-- An instant that was read has a year that a stamp may name. -/
theorem isYear_of_read? {s : String} {i : Instant} (h : read? s = some i) :
    isYear (Date.ofDays (i.minute / 1440)).year = true := by
  simp only [read?, Option.bind_eq_bind, Option.bind_eq_some_iff] at h
  obtain ⟨⟨date, cs⟩, -, cs, -, ⟨⟨minute, nanos⟩, cs⟩, -, ⟨ahead, cs⟩, -, hfound⟩ := h
  split at hfound
  · split at hfound
    · rename_i hend
      cases hfound
      exact (Bool.and_eq_true_iff.1 hend).2
    · cases hfound
  · cases hfound

end Stamp

end TeamRoster
