/-
**`oxistore-blob-azure`, the date of a request.**
-/

import OxiStore.Lib.Calendar

namespace OxiStore.Azure

open Calendar

/-! ### `u64` -/

def add (a b : ℕ) : Option ℕ := if a + b < 2 ^ 64 then some (a + b) else none

def sub (a b : ℕ) : Option ℕ := if b ≤ a then some (a - b) else none

def mul (a b : ℕ) : Option ℕ := if a * b < 2 ^ 64 then some (a * b) else none

theorem add_eq {a b : ℕ} (fits : a + b < 2 ^ 64) : add a b = some (a + b) := if_pos fits

theorem sub_eq {a b : ℕ} (le : b ≤ a) : sub a b = some (a - b) := if_pos le

theorem mul_eq {a b : ℕ} (fits : a * b < 2 ^ 64) : mul a b = some (a * b) := if_pos fits

/-! ### The source -/

def dateOfDays (days : ℕ) : Option (ℕ × ℕ × ℕ) := do
  let z ← add days 719468
  let era := z / 146097
  let doe ← sub z (← mul era 146097)
  let yoe := (← sub (← add (← sub doe (doe / 1460)) (doe / 36524)) (doe / 146096)) / 365
  let y ← add yoe (← mul era 400)
  let doy ← sub doe (← sub (← add (← mul 365 yoe) (yoe / 4)) (yoe / 100))
  let mp := (← add (← mul 5 doy) 2) / 153
  let d ← add (← sub doy ((← add (← mul 153 mp) 2) / 5)) 1
  let m ← if mp < 10 then add mp 3 else sub mp 9
  let y ← if m ≤ 2 then add y 1 else some y
  pure (y, m, d)

def epochToCalendar (secs : ℕ) : Option (ℕ × ℕ × ℕ × ℕ × ℕ × ℕ) := do
  let sec := secs % 60
  let mins := secs / 60
  let min := mins % 60
  let hours := mins / 60
  let hour := hours % 24
  let days := hours / 24
  let (y, m, d) ← dateOfDays days
  pure (y, m, d, hour, min, sec)

def DOW : List String := ["Sun", "Mon", "Tue", "Wed", "Thu", "Fri", "Sat"]

def MON : List String := ["Jan", "Feb", "Mar", "Apr", "May", "Jun", "Jul", "Aug", "Sep", "Oct", "Nov", "Dec"]

def padded (width number : ℕ) : String :=
  String.ofList (List.leftpad width '0' (Nat.toDigits 10 number))

def rfc1123 (weekday month : String) (year day hour min sec : ℕ) : String :=
  weekday ++ ", " ++ padded 2 day ++ " " ++ month ++ " " ++ padded 4 year ++ " " ++ padded 2 hour ++ ":" ++
    padded 2 min ++ ":" ++ padded 2 sec ++ " GMT"

def rfc1123FromSecs (secs : ℕ) : Option String := do
  let dow := (← add (secs / 86400) 4) % 7
  let (year, month, day, hour, min, sec) ← epochToCalendar secs
  let weekday ← DOW[dow]?
  let name ← MON[← sub month 1]?
  pure (rfc1123 weekday name year day hour min sec)

/-! ### Years of an era -/

def daysOfYears (yoe : ℕ) : ℕ := 365 * yoe + yoe / 4 - yoe / 100

def yearOfEra (doe : ℕ) : ℕ := (doe - doe / 1460 + doe / 36524 - doe / 146096) / 365

theorem yearOfEra_mono {doe later : ℕ} (le : doe ≤ later) : yearOfEra doe ≤ yearOfEra later := by
  have leaps : doe - doe / 1460 ≤ later - later / 1460 := by omega
  have centuries : doe / 36524 ≤ later / 36524 := Nat.div_le_div_right le
  have eras : doe / 146096 = doe / 36524 / 4 := (Nat.div_div_eq_div_mul doe 36524 4).symm
  have eras' : later / 146096 = later / 36524 / 4 := (Nat.div_div_eq_div_mul later 36524 4).symm
  refine Nat.div_le_div_right ?_
  omega

theorem years_of_era : ∀ yoe < 400,
    daysOfYears yoe + yearLength (yoe + 1) = (if yoe = 399 then 146097 else daysOfYears (yoe + 1)) ∧
      yearOfEra (daysOfYears yoe) = yoe ∧
      yearOfEra (daysOfYears yoe + yearLength (yoe + 1) - 1) = yoe := by
  decide +kernel

theorem exists_year {doe last : ℕ} (few : last < 400)
    (inside : doe < daysOfYears last + yearLength (last + 1)) :
    ∃ yoe < 400, daysOfYears yoe ≤ doe ∧ doe < daysOfYears yoe + yearLength (yoe + 1) := by
  induction last with
  | zero => exact ⟨0, few, Nat.zero_le doe, inside⟩
  | succ last ih =>
    by_cases begun : daysOfYears (last + 1) ≤ doe
    · exact ⟨last + 1, few, begun, inside⟩
    · have ends := (years_of_era last (by omega)).1
      rw [if_neg (by omega)] at ends
      exact ih (by omega) (by omega)

theorem yearOfEra_spec {doe : ℕ} (inside : doe < 146097) : yearOfEra doe < 400 ∧
    daysOfYears (yearOfEra doe) ≤ doe ∧
      doe < daysOfYears (yearOfEra doe) + yearLength (yearOfEra doe + 1) := by
  obtain ⟨yoe, few, begun, notEnded⟩ := exists_year (show 399 < 400 by omega) inside
  obtain ⟨-, first, last⟩ := years_of_era yoe few
  have year : yearOfEra doe = yoe := by
    refine le_antisymm ?_ ?_
    · exact (yearOfEra_mono (by omega)).trans_eq last
    · exact first.symm.trans_le (yearOfEra_mono begun)
  rw [year]
  exact ⟨few, begun, notEnded⟩

/-! ### Months from March on -/

def monthStart (mp : ℕ) : ℕ := (153 * mp + 2) / 5

theorem month_of_day : ∀ doy < 366, (5 * doy + 2) / 153 ≤ 11 ∧ monthStart ((5 * doy + 2) / 153) ≤ doy ∧
    doy < monthStart ((5 * doy + 2) / 153 + 1) := by
  decide +kernel

variable (year : ℕ)

theorem monthLength_from_march : ∀ mp < 10,
    monthStart mp + monthLength year (mp + 3) = monthStart (mp + 1) := by
  intro mp few
  interval_cases mp
  all_goals rfl

theorem daysBeforeMonth_one : daysBeforeMonth year 1 = 0 := rfl

theorem daysBeforeMonth_two : daysBeforeMonth year 2 = 31 := daysBeforeMonth_succ year le_rfl

theorem monthLength_two : monthLength year 2 + 337 = yearLength year := by
  unfold yearLength monthLength
  by_cases leap : IsLeap year
  all_goals simp [leap]

theorem daysBeforeMonth_from_march (year mp : ℕ) (few : mp ≤ 10) :
    daysBeforeMonth year (mp + 3) + 306 = yearLength year + monthStart mp := by
  induction mp with
  | zero =>
    have march : daysBeforeMonth year 3 = daysBeforeMonth year 2 + monthLength year 2 :=
      daysBeforeMonth_succ year one_le_two
    have february := monthLength_two year
    rw [daysBeforeMonth_two] at march
    show daysBeforeMonth year 3 + 306 = yearLength year + 0
    omega
  | succ mp ih =>
    have before := ih (by omega)
    have length := monthLength_from_march year mp (by omega)
    have next := daysBeforeMonth_succ year (show 1 ≤ mp + 3 by omega)
    rw [show mp + 1 + 3 = mp + 3 + 1 by omega]
    omega

/-! ### The calendar -/

def moment (result : ℕ × ℕ × ℕ × ℕ × ℕ × ℕ) : Moment :=
  ⟨result.1, result.2.1, result.2.2.1, result.2.2.2.1, result.2.2.2.2.1, result.2.2.2.2.2⟩

def epoch : Moment := ⟨1970, 1, 1, 0, 0, 0⟩

theorem dayNumber_epoch : epoch.dayNumber = 719528 := by
  have year : daysBeforeYear 1970 = 719528 := daysBeforeYear_succ 1969
  have month := daysBeforeMonth_one 1970
  unfold Moment.dayNumber epoch
  dsimp only
  omega

theorem daysBeforeYear_of_era {yoe : ℕ} (few : yoe < 400) (era : ℕ) :
    daysBeforeYear (yoe + era * 400 + 1) = era * 146097 + daysOfYears yoe + 366 := by
  rw [daysBeforeYear_succ, daysOfYears]
  omega

theorem yearLength_of_era (yoe era : ℕ) : yearLength (yoe + era * 400 + 1) = yearLength (yoe + 1) := by
  unfold yearLength
  refine if_congr ?_ rfl rfl
  unfold IsLeap
  omega

theorem dayNumber_from_march {yoe doy mp : ℕ} (few : yoe < 400) (era : ℕ) (months : mp < 10)
    (begun : monthStart mp ≤ doy) (notEnded : doy < monthStart (mp + 1)) (hour minute second : ℕ) :
    (Moment.mk (yoe + era * 400) (mp + 3) (doy - monthStart mp + 1) hour minute second).dayNumber =
        era * 146097 + daysOfYears yoe + doy + 60 ∧
      doy - monthStart mp + 1 ≤ monthLength (yoe + era * 400) (mp + 3) := by
  have year := daysBeforeYear_add_yearLength (yoe + era * 400)
  have march := daysBeforeMonth_from_march (yoe + era * 400) mp months.le
  have length := monthLength_from_march (yoe + era * 400) mp months
  rw [daysBeforeYear_of_era few] at year
  unfold Moment.dayNumber
  dsimp only
  omega

theorem dayNumber_before_march {yoe doy mp : ℕ} (few : yoe < 400) (era : ℕ) (months : 10 ≤ mp)
    (atMost : mp ≤ 11) (begun : monthStart mp ≤ doy) (notEnded : doy < monthStart (mp + 1))
    (inYear : doy < yearLength (yoe + 1)) (hour minute second : ℕ) :
    (Moment.mk (yoe + era * 400 + 1) (mp - 9) (doy - monthStart mp + 1) hour minute second).dayNumber =
        era * 146097 + daysOfYears yoe + doy + 60 ∧
      doy - monthStart mp + 1 ≤ monthLength (yoe + era * 400 + 1) (mp - 9) := by
  have year := daysBeforeYear_of_era few era
  rw [← yearLength_of_era yoe era] at inYear
  unfold Moment.dayNumber
  dsimp only
  obtain rfl | rfl : mp = 10 ∨ mp = 11 := by omega
  · have start : monthStart 10 = 306 := rfl
    have length : monthLength (yoe + era * 400 + 1) (10 - 9) = 31 := rfl
    have month : daysBeforeMonth (yoe + era * 400 + 1) (10 - 9) = 0 := daysBeforeMonth_one _
    have next : monthStart (10 + 1) = 337 := rfl
    omega
  · have start : monthStart 11 = 337 := rfl
    have length : monthLength (yoe + era * 400 + 1) (11 - 9) + 337 = _ := monthLength_two _
    have month : daysBeforeMonth (yoe + era * 400 + 1) (11 - 9) = 31 := daysBeforeMonth_two _
    omega

theorem bind_of_eq {α β : Type} {result : Option α} {value : α} (same : result = some value)
    (rest : α → Option β) : (result >>= rest) = rest value := by
  rw [same]
  rfl

theorem dateOfDays_eq {days era doe yoe doy mp : ℕ} (bounded : days < 2 ^ 60)
    (counted : days + 719468 = era * 146097 + doe) (inEra : doe < 146097) (year : yearOfEra doe = yoe)
    (few : yoe < 400) (day : doe = daysOfYears yoe + doy) (inYear : doy < 366)
    (month : (5 * doy + 2) / 153 = mp) (begun : monthStart mp ≤ doy) (months : mp ≤ 11) :
    dateOfDays days = some (if mp < 10 then (yoe + era * 400, mp + 3, doy - monthStart mp + 1)
      else (yoe + era * 400 + 1, mp - 9, doy - monthStart mp + 1)) := by
  have eras : (days + 719468) / 146097 = era := by omega
  have doe_eq : days + 719468 - era * 146097 = doe := by omega
  have doy_eq : doe - (365 * yoe + yoe / 4 - yoe / 100) = doy := by
    unfold daysOfYears at day
    omega
  unfold daysOfYears at day
  unfold monthStart at begun
  unfold dateOfDays
  -- the day of the era
  refine (bind_of_eq (add_eq (by omega)) _).trans ?_
  rw [eras]
  refine (bind_of_eq (mul_eq (by omega)) _).trans ?_
  refine (bind_of_eq (sub_eq (by omega)) _).trans ?_
  rw [doe_eq]
  -- the year of the era
  refine (bind_of_eq (sub_eq (by omega)) _).trans ?_
  refine (bind_of_eq (add_eq (by omega)) _).trans ?_
  refine (bind_of_eq (sub_eq (by omega)) _).trans ?_
  rw [← yearOfEra, year]
  refine (bind_of_eq (mul_eq (by omega)) _).trans ?_
  refine (bind_of_eq (add_eq (by omega)) _).trans ?_
  -- the day of the year
  refine (bind_of_eq (mul_eq (by omega)) _).trans ?_
  refine (bind_of_eq (add_eq (by omega)) _).trans ?_
  refine (bind_of_eq (sub_eq (by omega)) _).trans ?_
  refine (bind_of_eq (sub_eq (by omega)) _).trans ?_
  rw [doy_eq]
  -- the month and the day
  refine (bind_of_eq (mul_eq (by omega)) _).trans ?_
  refine (bind_of_eq (add_eq (by omega)) _).trans ?_
  rw [month]
  refine (bind_of_eq (mul_eq (by omega)) _).trans ?_
  refine (bind_of_eq (add_eq (by omega)) _).trans ?_
  refine (bind_of_eq (sub_eq (by omega)) _).trans ?_
  refine (bind_of_eq (add_eq (by omega)) _).trans ?_
  rw [← monthStart]
  by_cases march : mp < 10
  · rw [if_pos march, if_pos march]
    refine (bind_of_eq (add_eq (by omega)) _).trans ?_
    exact (if_neg (show ¬ mp + 3 ≤ 2 by omega)).trans rfl
  · rw [if_neg march, if_neg march]
    refine (bind_of_eq (sub_eq (by omega)) _).trans ?_
    refine (if_pos (show mp - 9 ≤ 2 by omega)).trans ?_
    exact bind_of_eq (add_eq (by omega)) _

theorem epochToCalendar_spec {secs : ℕ} (fits : secs < 2 ^ 64) : ∃ result,
    epochToCalendar secs = some result ∧ (moment result).Valid ∧
      (moment result).dayNumber = epoch.dayNumber + secs / 86400 ∧
      (moment result).timeOfDay = secs % 86400 := by
  obtain ⟨days, whole⟩ : ∃ days, secs / 60 / 60 / 24 = days := ⟨_, rfl⟩
  obtain ⟨era, doe, counted, inEra⟩ : ∃ era doe, days + 719468 = era * 146097 + doe ∧ doe < 146097 :=
    ⟨(days + 719468) / 146097, (days + 719468) % 146097, by omega, by omega⟩
  obtain ⟨few, begun, notEnded⟩ := yearOfEra_spec inEra
  generalize year : yearOfEra doe = yoe at few begun notEnded
  obtain ⟨doy, day⟩ := Nat.exists_eq_add_of_le begun
  have inYear : doy < yearLength (yoe + 1) := by omega
  have atMost : yearLength (yoe + 1) ≤ 366 := by
    unfold yearLength
    split_ifs
    · exact le_rfl
    · omega
  obtain ⟨months, started, running⟩ := month_of_day doy (by omega)
  generalize month : (5 * doy + 2) / 153 = mp at months started running
  have date := dateOfDays_eq (by omega) counted inEra year few day (by omega) month started months
  rw [← whole] at date
  have hour : secs / 60 / 60 % 24 < 24 := Nat.mod_lt _ (by omega)
  have minute : secs / 60 % 60 < 60 := Nat.mod_lt _ (by omega)
  have second : secs % 60 < 60 := Nat.mod_lt _ (by omega)
  have time : 3600 * (secs / 60 / 60 % 24) + 60 * (secs / 60 % 60) + secs % 60 = secs % 86400 := by omega
  rw [dayNumber_epoch]
  by_cases march : mp < 10
  · rw [if_pos march] at date
    obtain ⟨number, inMonth⟩ := dayNumber_from_march few era march started running
      (secs / 60 / 60 % 24) (secs / 60 % 60) (secs % 60)
    refine ⟨_, bind_of_eq date _, ?_, number.trans ?_, time⟩
    · have atMost' : mp + 3 ≤ 12 := by omega
      exact ⟨Nat.le_add_left 1 (mp + 2), atMost', Nat.le_add_left 1 _, inMonth, hour, minute, second⟩
    · omega
  · rw [if_neg march] at date
    obtain ⟨number, inMonth⟩ := dayNumber_before_march few era (not_lt.mp march) months started running inYear
      (secs / 60 / 60 % 24) (secs / 60 % 60) (secs % 60)
    refine ⟨_, bind_of_eq date _, ?_, number.trans ?_, time⟩
    · have positive : 1 ≤ mp - 9 := by omega
      have atMost' : mp - 9 ≤ 12 := by omega
      exact ⟨positive, atMost', Nat.le_add_left 1 _, inMonth, hour, minute, second⟩
    · omega

/-! ### The text -/

def weekdayName : Weekday → String
  | .sunday => "Sun"
  | .monday => "Mon"
  | .tuesday => "Tue"
  | .wednesday => "Wed"
  | .thursday => "Thu"
  | .friday => "Fri"
  | .saturday => "Sat"

def monthName : ℕ → String
  | 1 => "Jan"
  | 2 => "Feb"
  | 3 => "Mar"
  | 4 => "Apr"
  | 5 => "May"
  | 6 => "Jun"
  | 7 => "Jul"
  | 8 => "Aug"
  | 9 => "Sep"
  | 10 => "Oct"
  | 11 => "Nov"
  | _ => "Dec"

theorem getElem?_DOW (days : ℕ) :
    DOW[(days + 4) % 7]? = some (weekdayName (weekday (epoch.dayNumber + days))) := by
  have place : (719528 + days) % 7 = ((days + 4) % 7 + 1) % 7 := by omega
  rw [dayNumber_epoch, ← weekday_mod (719528 + days), place]
  have bound : (days + 4) % 7 < 7 := Nat.mod_lt _ (by omega)
  generalize (days + 4) % 7 = place at bound
  interval_cases place
  all_goals rfl

theorem getElem?_MON {month : ℕ} (positive : 1 ≤ month) (atMost : month ≤ 12) :
    MON[month - 1]? = some (monthName month) := by
  interval_cases month
  all_goals rfl

theorem rfc1123FromSecs_eq {secs : ℕ} (fits : secs < 2 ^ 64) {result : ℕ × ℕ × ℕ × ℕ × ℕ × ℕ}
    (done : epochToCalendar secs = some result) (valid : (moment result).Valid)
    (number : (moment result).dayNumber = epoch.dayNumber + secs / 86400) :
    rfc1123FromSecs secs = some (rfc1123 (weekdayName (weekday (moment result).dayNumber))
      (monthName (moment result).month) (moment result).year (moment result).day (moment result).hour
      (moment result).minute (moment result).second) := by
  obtain ⟨year, month, day, hour, min, sec⟩ := result
  unfold rfc1123FromSecs
  refine (bind_of_eq (add_eq (by omega)) _).trans ?_
  refine (bind_of_eq done _).trans ?_
  refine (bind_of_eq (getElem?_DOW (secs / 86400)) _).trans ?_
  refine (bind_of_eq (sub_eq valid.month_pos) _).trans ?_
  refine (bind_of_eq (getElem?_MON valid.month_pos valid.month_le) _).trans ?_
  rw [number]
  rfl

/-- **`epoch_to_calendar` and `rfc1123_from_secs`, for all seconds**: neither panics; the first gives the
moment that is so many seconds after the epoch, the second its weekday and date; and a later second gives a
later moment, so that no two give the same. -/
theorem rfc1123_correct :
    (∀ secs : UInt64, ∃ result days, epochToCalendar secs.toNat = some result ∧ (moment result).Valid ∧
      (moment result).dayNumber = epoch.dayNumber + days ∧
      86400 * days + (moment result).timeOfDay = secs.toNat ∧
      rfc1123FromSecs secs.toNat = some (rfc1123 (weekdayName (weekday (moment result).dayNumber))
        (monthName (moment result).month) (moment result).year (moment result).day (moment result).hour
        (moment result).minute (moment result).second)) ∧
    (∀ (earlier later : UInt64) first second, epochToCalendar earlier.toNat = some first →
      epochToCalendar later.toNat = some second → earlier < later → (moment first).Before (moment second)) ∧
    ∀ first second : UInt64, epochToCalendar first.toNat = epochToCalendar second.toNat → first = second := by
  refine ⟨fun secs => ?_, fun earlier later first second one other less => ?_, fun first second same => ?_⟩
  · obtain ⟨result, done, valid, number, time⟩ := epochToCalendar_spec secs.toNat_lt
    refine ⟨result, secs.toNat / 86400, done, valid, number, ?_, ?_⟩
    · rw [time]
      exact Nat.div_add_mod secs.toNat 86400
    · exact rfc1123FromSecs_eq secs.toNat_lt done valid number
  · obtain ⟨_, done, valid, number, time⟩ := epochToCalendar_spec earlier.toNat_lt
    obtain ⟨_, done', valid', number', time'⟩ := epochToCalendar_spec later.toNat_lt
    cases Option.some.inj (one.symm.trans done)
    cases Option.some.inj (other.symm.trans done')
    have order := UInt64.lt_iff_toNat_lt.mp less
    refine Moment.before_of_seconds_lt valid valid' ?_
    unfold Moment.seconds
    omega
  · obtain ⟨_, done, _, number, time⟩ := epochToCalendar_spec first.toNat_lt
    obtain ⟨_, done', _, number', time'⟩ := epochToCalendar_spec second.toNat_lt
    cases Option.some.inj ((done.symm.trans same).trans done')
    refine UInt64.toNat_inj.mp ?_
    omega

example : rfc1123FromSecs 1779840000 = some "Wed, 27 May 2026 00:00:00 GMT" := by decide +kernel

end OxiStore.Azure
