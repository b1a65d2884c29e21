/-
**The proleptic Gregorian calendar.**
-/

import Mathlib

namespace Calendar

/-! ### Years and months -/

def IsLeap (year : ℕ) : Prop := year % 4 = 0 ∧ year % 100 ≠ 0 ∨ year % 400 = 0

instance (year : ℕ) : Decidable (IsLeap year) := inferInstanceAs (Decidable (_ ∨ _))

def yearLength (year : ℕ) : ℕ := if IsLeap year then 366 else 365

def monthLength (year month : ℕ) : ℕ :=
  if month = 2 then if IsLeap year then 29 else 28
  else if month = 4 ∨ month = 6 ∨ month = 9 ∨ month = 11 then 30
  else 31

def daysBeforeYear (year : ℕ) : ℕ := ∑ earlier ∈ Finset.range year, yearLength earlier

def daysBeforeMonth (year month : ℕ) : ℕ := ∑ earlier ∈ Finset.Ico 1 month, monthLength year earlier

variable (year : ℕ)

theorem daysBeforeYear_add_yearLength :
    daysBeforeYear (year + 1) = daysBeforeYear year + yearLength year := Finset.sum_range_succ yearLength year

theorem daysBeforeYear_succ :
    daysBeforeYear (year + 1) = 365 * year + year / 4 - year / 100 + year / 400 + 366 := by
  induction year with
  | zero => rfl
  | succ year ih =>
    rw [daysBeforeYear_add_yearLength, ih, yearLength]
    by_cases leap : IsLeap (year + 1)
    · rw [if_pos leap]
      unfold IsLeap at leap
      omega
    · rw [if_neg leap]
      unfold IsLeap at leap
      omega

theorem daysBeforeMonth_succ {month : ℕ} (positive : 1 ≤ month) :
    daysBeforeMonth year (month + 1) = daysBeforeMonth year month + monthLength year month :=
  Finset.sum_Ico_succ_top positive (monthLength year)

theorem daysBeforeMonth_mono {month later : ℕ} (le : month ≤ later) :
    daysBeforeMonth year month ≤ daysBeforeMonth year later :=
  Finset.sum_le_sum_of_subset (Finset.Ico_subset_Ico_right le)

theorem daysBeforeMonth_thirteen : daysBeforeMonth year 13 = yearLength year := by
  rw [daysBeforeMonth, Finset.sum_Ico_eq_sum_range, yearLength]
  simp only [Finset.sum_range_succ, Finset.sum_range_zero]
  unfold monthLength
  by_cases leap : IsLeap year
  all_goals simp [leap]

theorem daysBeforeYear_mono {year later : ℕ} (le : year ≤ later) :
    daysBeforeYear year ≤ daysBeforeYear later :=
  Finset.sum_le_sum_of_subset (Finset.range_subset_range.mpr le)

/-! ### Moments -/

structure Moment where
  year : ℕ
  month : ℕ
  day : ℕ
  hour : ℕ
  minute : ℕ
  second : ℕ
deriving DecidableEq

namespace Moment

/-- **There is such a day, and such a time of day.** -/
structure Valid (moment : Moment) : Prop where
  month_pos : 1 ≤ moment.month
  month_le : moment.month ≤ 12
  day_pos : 1 ≤ moment.day
  day_le : moment.day ≤ monthLength moment.year moment.month
  hour_lt : moment.hour < 24
  minute_lt : moment.minute < 60
  second_lt : moment.second < 60

def dayNumber (moment : Moment) : ℕ :=
  daysBeforeYear moment.year + daysBeforeMonth moment.year moment.month + (moment.day - 1)

def timeOfDay (moment : Moment) : ℕ := 3600 * moment.hour + 60 * moment.minute + moment.second

def seconds (moment : Moment) : ℕ := 86400 * moment.dayNumber + moment.timeOfDay

def Before (first second : Moment) : Prop :=
  first.year < second.year ∨ first.year = second.year ∧ (first.month < second.month ∨
    first.month = second.month ∧ (first.day < second.day ∨ first.day = second.day ∧
      first.timeOfDay < second.timeOfDay))

variable {moment first second : Moment}

theorem Valid.timeOfDay_lt (valid : moment.Valid) : moment.timeOfDay < 86400 := by
  have hour := valid.hour_lt
  have minute := valid.minute_lt
  have second := valid.second_lt
  unfold timeOfDay
  omega

theorem Valid.day_in_month (valid : moment.Valid) :
    daysBeforeMonth moment.year moment.month + (moment.day - 1) <
      daysBeforeMonth moment.year (moment.month + 1) := by
  have length := daysBeforeMonth_succ moment.year valid.month_pos
  have positive := valid.day_pos
  have inside := valid.day_le
  omega

theorem Valid.dayNumber_lt (valid : moment.Valid) : moment.dayNumber < daysBeforeYear (moment.year + 1) := by
  have inMonth := valid.day_in_month
  have inYear := daysBeforeMonth_mono moment.year (Nat.add_le_add_right valid.month_le 1)
  rw [daysBeforeMonth_thirteen] at inYear
  rw [daysBeforeYear_add_yearLength]
  unfold dayNumber
  omega

theorem seconds_lt (valid : first.Valid) (before : first.Before second) :
    first.seconds < second.seconds := by
  have time := valid.timeOfDay_lt
  unfold seconds
  rcases before with year | ⟨year, month | ⟨month, day | ⟨day, earlier⟩⟩⟩
  · have days := valid.dayNumber_lt
    have years := daysBeforeYear_mono (Order.add_one_le_of_lt year)
    have later : daysBeforeYear second.year ≤ second.dayNumber := by
      unfold dayNumber
      omega
    omega
  · have days := valid.day_in_month
    have months := daysBeforeMonth_mono first.year (Order.add_one_le_of_lt month)
    have fewer : first.dayNumber < second.dayNumber := by
      unfold dayNumber
      rw [← year]
      omega
    omega
  · have positive := valid.day_pos
    have fewer : first.dayNumber < second.dayNumber := by
      unfold dayNumber
      rw [← year, ← month]
      omega
    omega
  · have same : first.dayNumber = second.dayNumber := by
      unfold dayNumber
      rw [year, month, day]
    omega

theorem Valid.eq_of_timeOfDay (valid : first.Valid) (valid' : second.Valid) (year : first.year = second.year)
    (month : first.month = second.month) (day : first.day = second.day)
    (time : first.timeOfDay = second.timeOfDay) : first = second := by
  have minute := valid.minute_lt
  have minute' := valid'.minute_lt
  have seconds := valid.second_lt
  have seconds' := valid'.second_lt
  unfold timeOfDay at time
  cases first
  cases second
  simp only [mk.injEq] at *
  omega

theorem before_trichotomy (valid : first.Valid) (valid' : second.Valid) :
    first.Before second ∨ first = second ∨ second.Before first := by
  rcases lt_trichotomy first.year second.year with year | year | year
  · exact Or.inl (Or.inl year)
  · rcases lt_trichotomy first.month second.month with month | month | month
    · exact Or.inl (Or.inr ⟨year, Or.inl month⟩)
    · rcases lt_trichotomy first.day second.day with day | day | day
      · exact Or.inl (Or.inr ⟨year, Or.inr ⟨month, Or.inl day⟩⟩)
      · rcases lt_trichotomy first.timeOfDay second.timeOfDay with time | time | time
        · exact Or.inl (Or.inr ⟨year, Or.inr ⟨month, Or.inr ⟨day, time⟩⟩⟩)
        · exact Or.inr (Or.inl (valid.eq_of_timeOfDay valid' year month day time))
        · exact Or.inr (Or.inr (Or.inr ⟨year.symm, Or.inr ⟨month.symm, Or.inr ⟨day.symm, time⟩⟩⟩))
      · exact Or.inr (Or.inr (Or.inr ⟨year.symm, Or.inr ⟨month.symm, Or.inl day⟩⟩))
    · exact Or.inr (Or.inr (Or.inr ⟨year.symm, Or.inl month⟩))
  · exact Or.inr (Or.inr (Or.inl year))

theorem before_of_seconds_lt (valid : first.Valid) (valid' : second.Valid)
    (fewer : first.seconds < second.seconds) : first.Before second := by
  rcases before_trichotomy valid valid' with before | same | after
  · exact before
  · rw [same] at fewer
    exact absurd fewer (lt_irrefl _)
  · exact absurd fewer (seconds_lt valid' after).asymm

end Moment

/-! ### Weekdays -/

inductive Weekday where
  | sunday
  | monday
  | tuesday
  | wednesday
  | thursday
  | friday
  | saturday
deriving DecidableEq

def Weekday.next : Weekday → Weekday
  | .sunday => .monday
  | .monday => .tuesday
  | .tuesday => .wednesday
  | .wednesday => .thursday
  | .thursday => .friday
  | .friday => .saturday
  | .saturday => .sunday

def weekday : ℕ → Weekday
  | 0 => .saturday
  | day + 1 => (weekday day).next

theorem weekday_add_seven (day : ℕ) : weekday (day + 7) = weekday day := by
  simp only [weekday]
  cases weekday day <;> rfl

theorem weekday_mod (day : ℕ) : weekday (day % 7) = weekday day := by
  induction day using Nat.strong_induction_on with
  | _ day ih =>
    by_cases small : day < 7
    · rw [Nat.mod_eq_of_lt small]
    · obtain ⟨earlier, rfl⟩ := Nat.exists_eq_add_of_le' (not_lt.mp small)
      rw [Nat.add_mod_right, ih earlier (by omega), weekday_add_seven]

end Calendar
