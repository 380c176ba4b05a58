import Ferrus.Model.Runtime.UtcClock

/-! # The concrete clock reads back what it prints

The calendar is inverted one century, four-year cycle and year at a time. Every field of the text has
a fixed width, so the parser splits it at known places.
-/

namespace Ferrus.Runtime.UtcClock

open List

/-- A day of a 400-year era as a century, a four-year cycle and a day of that cycle. The last day of
the era belongs to the fourth century. -/
private theorem exists_cycle {dayOfEra : Int} (low : 0 ≤ dayOfEra) (high : dayOfEra < 146097) :
    ∃ century cycle day : Int, dayOfEra = 36524 * century + 1461 * cycle + day ∧
      (0 ≤ century ∧ century ≤ 3) ∧ (0 ≤ cycle ∧ cycle ≤ 24) ∧ (0 ≤ day ∧ day ≤ 1460) ∧
      (1461 * cycle + day ≤ 36523 ∨ century = 3 ∧ cycle = 24 ∧ day = 1460) := by
  by_cases last : dayOfEra = 146096
  · exact ⟨3, 24, 1460, by omega⟩
  · exact ⟨dayOfEra / 36524, dayOfEra % 36524 / 1461, dayOfEra % 36524 % 1461, by omega⟩

private theorem yearOfEra_eq {century cycle day : Int} (centuries : 0 ≤ century ∧ century ≤ 3)
    (cycles : 0 ≤ cycle ∧ cycle ≤ 24) (days : 0 ≤ day ∧ day ≤ 1460)
    (fits : 1461 * cycle + day ≤ 36523 ∨ century = 3 ∧ cycle = 24 ∧ day = 1460) :
    let dayOfEra := 36524 * century + 1461 * cycle + day
    (dayOfEra - dayOfEra / 1460 + dayOfEra / 36524 - dayOfEra / 146096) / 365 =
      100 * century + 4 * cycle + (day - (24 * century + cycle + day) / 1460) / 365 := by
  intro dayOfEra
  rcases fits with fits | ⟨rfl, rfl, rfl⟩
  · have eras : dayOfEra / 146096 = 0 := by omega
    have hundreds : dayOfEra / 36524 = century := by omega
    have fours : dayOfEra / 1460 = 25 * century + cycle + (24 * century + cycle + day) / 1460 := by omega
    omega
  · decide

/-- The computed year of the era contains the day. -/
private theorem yearOfEra_bounds (dayOfEra : Int) (low : 0 ≤ dayOfEra) (high : dayOfEra < 146097) :
    let yearOfEra := (dayOfEra - dayOfEra / 1460 + dayOfEra / 36524 - dayOfEra / 146096) / 365
    (0 ≤ yearOfEra ∧ yearOfEra < 400) ∧
      365 * yearOfEra + yearOfEra / 4 - yearOfEra / 100 ≤ dayOfEra ∧
      dayOfEra ≤ 365 * yearOfEra + yearOfEra / 4 - yearOfEra / 100 + 365 := by
  obtain ⟨century, cycle, day, rfl, centuries, cycles, days, fits⟩ := exists_cycle low high
  intro yearOfEra
  have year : yearOfEra = _ := yearOfEra_eq centuries cycles days fits
  clear_value yearOfEra
  generalize ofCycle : (day - (24 * century + cycle + day) / 1460) / 365 = yearOfCycle at year
  have contains : 0 ≤ yearOfCycle ∧ yearOfCycle ≤ 3 ∧ 365 * yearOfCycle ≤ day ∧
      day ≤ 365 * yearOfCycle + 365 := by omega
  clear ofCycle
  have fours : yearOfEra / 4 = 25 * century + cycle := by omega
  have hundreds : yearOfEra / 100 = century := by omega
  clear fits
  omega

private theorem daysFromCivil_parts {era yearOfEra monthFromMarch dayOfYear : Int}
    (years : 0 ≤ yearOfEra ∧ yearOfEra < 400) (months : 0 ≤ monthFromMarch ∧ monthFromMarch < 12) :
    let month := if monthFromMarch < 10 then monthFromMarch + 3 else monthFromMarch - 9
    daysFromCivil (yearOfEra + era * 400 + (if month ≤ 2 then 1 else 0)) month
        (dayOfYear - (153 * monthFromMarch + 2) / 5 + 1) =
      era * 146097 + (365 * yearOfEra + yearOfEra / 4 - yearOfEra / 100 + dayOfYear) - 719468 := by
  intro month
  have fromMarch : (month + 9) % 12 = monthFromMarch := by
    change (ite _ _ _ + 9) % 12 = _
    split_ifs <;> omega
  have shifted : (if month ≤ 2 then yearOfEra + era * 400 + (if month ≤ 2 then 1 else 0) - 1
      else yearOfEra + era * 400 + (if month ≤ 2 then 1 else 0)) = yearOfEra + era * 400 := by
    split_ifs <;> omega
  have eras : (yearOfEra + era * 400) / 400 = era := by omega
  have rest : (yearOfEra + era * 400) % 400 = yearOfEra := by omega
  simp only [daysFromCivil, shifted, fromMarch, eras, rest]
  omega

theorem daysFromCivil_civilFromDays (days : Int) :
    daysFromCivil (civilFromDays days).1 (civilFromDays days).2.1 (civilFromDays days).2.2 = days := by
  have bounds := yearOfEra_bounds ((days + 719468) % 146097) (by omega) (by omega)
  simp only [civilFromDays] at bounds ⊢
  generalize dayOfEra : (days + 719468) % 146097 = day at bounds ⊢
  generalize (day - day / 1460 + day / 36524 - day / 146096) / 365 = yearOfEra at bounds ⊢
  obtain ⟨years, after, before⟩ := bounds
  rw [daysFromCivil_parts years (by omega)]
  clear after before years
  omega

/-- The fields of a civil date fit into their digits. -/
theorem civilFromDays_bounds (days : Int) : (1 ≤ (civilFromDays days).2.1 ∧ (civilFromDays days).2.1 ≤ 12) ∧
      1 ≤ (civilFromDays days).2.2 ∧ (civilFromDays days).2.2 ≤ 31 := by
  have bounds := yearOfEra_bounds ((days + 719468) % 146097) (by omega) (by omega)
  simp only [civilFromDays] at bounds ⊢
  generalize (days + 719468) % 146097 = day at bounds ⊢
  generalize (day - day / 1460 + day / 36524 - day / 146096) / 365 = yearOfEra at bounds ⊢
  generalize ofYear : day - (365 * yearOfEra + yearOfEra / 4 - yearOfEra / 100) = dayOfYear
  have inYear : 0 ≤ dayOfYear ∧ dayOfYear ≤ 365 := by omega
  clear bounds ofYear
  refine ⟨?_, by omega⟩
  split_ifs <;> omega

/-- The years 0 to 9999 are those of the days in this range. -/
theorem civilFromDays_year_iff {days : Int} :
    0 ≤ (civilFromDays days).1 ∧ (civilFromDays days).1 ≤ 9999 ↔ -719528 ≤ days ∧ days < 2932897 := by
  have bounds := yearOfEra_bounds ((days + 719468) % 146097) (by omega) (by omega)
  simp only [civilFromDays] at bounds ⊢
  have inEra : 0 ≤ (days + 719468) % 146097 ∧ (days + 719468) % 146097 < 146097 := by omega
  have isDays : days = (days + 719468) / 146097 * 146097 + (days + 719468) % 146097 - 719468 := by omega
  generalize (days + 719468) / 146097 = era at isDays ⊢
  generalize (days + 719468) % 146097 = day at bounds inEra isDays ⊢
  generalize (day - day / 1460 + day / 36524 - day / 146096) / 365 = yearOfEra at bounds ⊢
  generalize ofYear : day - (365 * yearOfEra + yearOfEra / 4 - yearOfEra / 100) = dayOfYear
  have inYear : 0 ≤ dayOfYear ∧ dayOfYear ≤ 365 := by omega
  obtain ⟨years, -⟩ := bounds
  subst isDays
  -- only the years that the first and the last era share with a neighbour depend on the month
  have eras : era ≤ -2 ∨ era = -1 ∨ 0 ≤ era ∧ era ≤ 23 ∨ era = 24 ∨ 25 ≤ era := by omega
  rcases eras with before | rfl | inner | rfl | after <;> split_ifs <;> omega

private theorem digit_spec (value : Nat) : (digit value).isDigit = true ∧ (digit value).toNat = 48 + value % 10 := by
  have all : ∀ rest < 10, (Char.ofNat (48 + rest)).isDigit = true ∧
      (Char.ofNat (48 + rest)).toNat = 48 + rest := by decide
  exact all (value % 10) (Nat.mod_lt value (by decide))

private theorem number?_two {value : Nat} (small : value < 100) :
    number? [digit (value / 10), digit value] = some (value : Int) := by
  obtain ⟨tens, tensValue⟩ := digit_spec (value / 10)
  obtain ⟨ones, onesValue⟩ := digit_spec value
  simp only [number?, all_cons, all_nil, tens, ones, Bool.and_self, if_true, foldl_cons,
    foldl_nil, tensValue, onesValue, Option.some.injEq]
  omega

private theorem number?_four {value : Nat} (small : value < 10000) :
    number? [digit (value / 100 / 10), digit (value / 100), digit (value / 10), digit value] =
      some (value : Int) := by
  obtain ⟨thousands, thousandsValue⟩ := digit_spec (value / 100 / 10)
  obtain ⟨hundreds, hundredsValue⟩ := digit_spec (value / 100)
  obtain ⟨tens, tensValue⟩ := digit_spec (value / 10)
  obtain ⟨ones, onesValue⟩ := digit_spec value
  simp only [number?, all_cons, all_nil, thousands, hundreds, tens, ones, Bool.and_self, if_true,
    foldl_cons, foldl_nil, thousandsValue, hundredsValue, tensValue, onesValue,
    Option.some.injEq]
  omega

/-- The text of an instant with a four-digit year is read back as its second. -/
theorem parseFromRfc3339_toRfc3339Secs {instant : Int} (inRange : FourDigitYear instant) :
    parseFromRfc3339 (toRfc3339Secs instant) = some (wholeSecond instant) := by
  obtain ⟨low, high⟩ := inRange
  generalize seconds : instant / nanosPerSecond = second
  generalize day : second / 86400 = days
  generalize clock : second % 86400 = ofDay
  unfold nanosPerSecond at seconds
  have date := daysFromCivil_civilFromDays days
  obtain ⟨months, daysOfMonth⟩ := civilFromDays_bounds days
  have years : 0 ≤ (civilFromDays days).1 ∧ (civilFromDays days).1 ≤ 9999 :=
    civilFromDays_year_iff.mpr (by omega)
  generalize civil : civilFromDays days = fields at *
  obtain ⟨year, month, dayOfMonth⟩ := fields
  dsimp only at date months daysOfMonth years
  simp only [parseFromRfc3339, toRfc3339Secs, nanosPerSecond, seconds, day, clock, civil, yearText, years,
    and_self, if_true, fourDigits, twoDigits, cons_append, nil_append, String.toList_ofList]
  rw [number?_four (by omega), number?_two (by omega), number?_two (by omega), number?_two (by omega),
    number?_two (by omega), number?_two (by omega)]
  have fields : (year.toNat : Int) = year ∧ (month.toNat : Int) = month ∧
      (dayOfMonth.toNat : Int) = dayOfMonth := by omega
  simp only [Option.bind_eq_bind, Option.bind_some, fields, date, civil, true_and]
  rw [if_pos (by omega)]
  unfold wholeSecond
  congr 1
  omega

/-- A text that starts with a sign is refused. -/
private theorem parseFromRfc3339_of_sign {sign : Char} (isSign : sign.isDigit = false) (rest : List Char) :
    parseFromRfc3339 (String.ofList (sign :: rest)) = none := by
  unfold parseFromRfc3339
  rw [String.toList_ofList]
  split
  · next shape =>
    obtain ⟨rfl, -⟩ := cons.inj shape
    simp [number?, isSign]
  · rfl

/-- Only the text of a four-digit year is read. -/
theorem fourDigitYear_of_parse {instant : Int} (read : (parseFromRfc3339 (toRfc3339Secs instant)).isSome = true) :
    FourDigitYear instant := by
  by_cases years : 0 ≤ (civilFromDays (instant / nanosPerSecond / 86400)).1 ∧
      (civilFromDays (instant / nanosPerSecond / 86400)).1 ≤ 9999
  · have inRange := civilFromDays_year_iff.mp years
    unfold nanosPerSecond at inRange
    unfold FourDigitYear
    omega
  · have unread : parseFromRfc3339 (toRfc3339Secs instant) = none := by
      rw [toRfc3339Secs]
      dsimp only
      rw [yearText, if_neg years]
      refine parseFromRfc3339_of_sign ?_ _
      split_ifs <;> rfl
    rw [unread] at read
    cases read

end Ferrus.Runtime.UtcClock

namespace Ferrus.Runtime

theorem utcChrono_readsBack : utcChrono.ReadsBack := by
  intro instant inRange
  dsimp only [utcChrono]
  exact UtcClock.parseFromRfc3339_toRfc3339Secs inRange

theorem utcChrono_readsFourDigits : utcChrono.ReadsFourDigits := by
  intro instant read
  dsimp only [utcChrono] at read
  exact UtcClock.fourDigitYear_of_parse read

theorem utcChrono_bounded : utcChrono.Bounded where
  maxDuration := by simp only [utcChrono, UtcClock.maxDuration]
  trySeconds seconds := by
    simp only [utcChrono, UtcClock.trySeconds, UtcClock.nanosPerSecond]
    congr
  add instant duration := by simp only [utcChrono, UtcClock.add]

end Ferrus.Runtime
