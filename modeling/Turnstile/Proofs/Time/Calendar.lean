import Mathlib.Algebra.Group.Nat.Defs
import Mathlib.Tactic.IntervalCases
import Turnstile.Time.Calendar

/-!
# Dates of days

The date of a day is a valid one and is that day again, and days that instants can lie on have years
that timestamps can have. Years are counted from March in eras of 400 years; leaving out the leap days
before a day makes its year a quotient by 365.
-/

namespace Turnstile.Calendar

/-! ### Years of an era -/

def daysBefore (year : Int) : Int := 365 * year + year / 4 - year / 100

def lastDay (year : Int) : Int := if year = 399 then 146096 else daysBefore (year + 1) - 1

/-- A day of an era less the leap days before it. -/
def withoutLeapDays (day : Int) : Int := day - day / 1460 + day / 36524 - day / 146096

variable {day days : Int}

theorem withoutLeapDays_mono {a b : Int} (h : a ≤ b) : 0 ≤ a → b < 146097 →
    withoutLeapDays a ≤ withoutLeapDays b := by
  unfold withoutLeapDays
  omega

/-- The quotient is right on the first and on the last day of each year. -/
theorem withoutLeapDays_ends : ∀ year < 400,
    withoutLeapDays (daysBefore (year : Nat)) / 365 = (year : Nat) ∧
      withoutLeapDays (lastDay (year : Nat)) / 365 = (year : Nat) := by
  decide +kernel

theorem exists_year (h0 : 0 ≤ day) (n : Nat) (h : day < daysBefore n) :
    ∃ year : Nat, year < n ∧ daysBefore year ≤ day ∧ day < daysBefore (year + 1) := by
  induction n with
  | zero =>
    unfold daysBefore at h
    omega
  | succ n ih =>
    by_cases hn : day < daysBefore n
    · obtain ⟨year, hyear, hin⟩ := ih hn
      exact ⟨year, by omega, hin⟩
    · exact ⟨n, by omega, by omega, by simpa using h⟩

theorem year_spec (day : Int) (h0 : 0 ≤ day) (h1 : day < 146097) :
    0 ≤ withoutLeapDays day / 365 ∧ withoutLeapDays day / 365 ≤ 399 ∧
      daysBefore (withoutLeapDays day / 365) ≤ day ∧ day ≤ lastDay (withoutLeapDays day / 365) := by
  obtain ⟨year, hyear, hfirst, hlast⟩ : ∃ year : Nat, year < 400 ∧ daysBefore year ≤ day ∧
      day ≤ lastDay year := by
    by_cases hend : day = 146096
    · exact ⟨399, by decide, by subst hend; decide, by subst hend; decide⟩
    · have hbefore : day < daysBefore (400 : Nat) := by
        have : daysBefore (400 : Nat) = 146096 := by decide
        omega
      obtain ⟨year, hyear, hfirst, hnext⟩ := exists_year h0 400 hbefore
      refine ⟨year, hyear, hfirst, ?_⟩
      unfold lastDay
      split <;> omega
  obtain ⟨hstart, hstop⟩ := withoutLeapDays_ends year hyear
  have hpos : 0 ≤ daysBefore year := by
    unfold daysBefore
    omega
  have hin : lastDay year < 146097 := by
    unfold lastDay daysBefore
    split <;> omega
  have hlow := withoutLeapDays_mono hfirst hpos h1
  have hhigh := withoutLeapDays_mono hlast h0 hin
  have hquotient : withoutLeapDays day / 365 = year := by omega
  rw [hquotient]
  exact ⟨by omega, by omega, hfirst, hlast⟩

/-! ### Days of a year -/

/-- The parts of a day: the era, the year from March, and the day of that year. -/
theorem parts_spec (days : Int) : ∃ era year dayOfYear : Int,
    days + 719468 = era * 146097 + daysBefore year + dayOfYear ∧ 0 ≤ year ∧ year ≤ 399 ∧
      0 ≤ dayOfYear ∧ daysBefore year + dayOfYear ≤ lastDay year ∧
      let monthFromMarch := (5 * dayOfYear + 2) / 153
      let month := if monthFromMarch < 10 then monthFromMarch + 3 else monthFromMarch - 9
      dateOfDays days =
        { year := if month ≤ 2 then year + era * 400 + 1 else year + era * 400, month := month.toNat
          day := (dayOfYear - (153 * monthFromMarch + 2) / 5 + 1).toNat } := by
  have hspec := year_spec ((days + 719468) % 146097) (by omega) (by omega)
  obtain ⟨h0, h399, hfirst, hlast⟩ := hspec
  refine ⟨(days + 719468) / 146097, withoutLeapDays ((days + 719468) % 146097) / 365,
    (days + 719468) % 146097 - daysBefore (withoutLeapDays ((days + 719468) % 146097) / 365),
    by omega, h0, h399, by omega, by omega, ?_⟩
  unfold dateOfDays daysBefore withoutLeapDays
  rfl

theorem isLeapYear_of {y : Int} (h4 : y % 4 = 0) (h : y % 100 ≠ 0 ∨ y % 400 = 0) :
    isLeapYear y = true := by
  rcases h with h | h <;> simp [isLeapYear, h4, h]

theorem daysFromDate_dateOfDays (days : Int) : daysFromDate (dateOfDays days) = days := by
  obtain ⟨era, year, dayOfYear, hdays, h0, h399, hday, hlast, hdate⟩ := parts_spec days
  have hend : dayOfYear ≤ 365 := by
    unfold lastDay daysBefore at hlast
    split at hlast <;> omega
  simp only at hdate
  rw [hdate]
  unfold daysBefore at hdays
  obtain ⟨m, hm⟩ : ∃ m, (5 * dayOfYear + 2) / 153 = m := ⟨_, rfl⟩
  rw [hm]
  have hm0 : 0 ≤ m := by omega
  have hm11 : m ≤ 11 := by omega
  interval_cases m <;> simp [daysFromDate] <;> omega

/-- A year from March has a day more if it ends in the February of a leap year. -/
theorem february_le {year dayOfYear : Int} (hlast : daysBefore year + dayOfYear ≤ lastDay year)
    (era : Int) :
    dayOfYear - 336 ≤ if isLeapYear (year + era * 400 + 1) then 29 else 28 := by
  unfold lastDay daysBefore at hlast
  by_cases hday : dayOfYear ≤ 364
  · split <;> omega
  · have hleap : isLeapYear (year + era * 400 + 1) = true := by
      apply isLeapYear_of
      · split at hlast <;> omega
      · split at hlast <;> omega
    rw [hleap, if_pos rfl]
    split at hlast <;> omega

theorem valid_dateOfDays (days : Int) : (dateOfDays days).Valid := by
  obtain ⟨era, year, dayOfYear, hdays, h0, h399, hday, hlast, hdate⟩ := parts_spec days
  have hfebruary := february_le hlast era
  have hend : dayOfYear ≤ 365 := by
    unfold lastDay daysBefore at hlast
    split at hlast <;> omega
  simp only at hdate
  rw [hdate]
  obtain ⟨m, hm⟩ : ∃ m, (5 * dayOfYear + 2) / 153 = m := ⟨_, rfl⟩
  rw [hm]
  by_cases hlength : m = 11
  · subst hlength
    have hmonth : (if (11 : Int) < 10 then 11 + 3 else 11 - 9) = (2 : Int) := rfl
    simp only [hmonth, Date.Valid, monthLength]
    split at hfebruary
    · next hleap =>
      simp [hleap]
      omega
    · next hleap =>
      simp [hleap]
      omega
  · have hm0 : 0 ≤ m := by omega
    have hm10 : m ≤ 10 := by omega
    interval_cases m <;> simp [Date.Valid, monthLength] <;> omega

theorem year_dateOfDays (days : Int) (hfirst : -96465292 ≤ days) (hlast : days ≤ 95026236) :
    -262143 ≤ (dateOfDays days).year ∧ (dateOfDays days).year ≤ 262142 := by
  obtain ⟨era, year, dayOfYear, hdays, h0, h399, hday, hend, hdate⟩ := parts_spec days
  simp only at hdate
  rw [hdate]
  unfold lastDay daysBefore at *
  -- Only the first era and the last two hold years that are out of range.
  have hera : era = -656 ∨ (-656 < era ∧ era < 654) ∨ era = 654 ∨ era = 655 := by omega
  simp only
  split at hend <;> split <;> omega

end Turnstile.Calendar
