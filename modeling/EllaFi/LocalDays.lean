import EllaFi.Calendar
import Mathlib.Algebra.Order.Group.Unbundled.Abs
import Mathlib.Tactic.IntervalCases

/-!
Days of local time. `daysFromCivil` numbers the dates of the calendar by their
distance from 1970-01-01 (`dateOf_daysFromCivil`). In a time zone the local clock is
off by an amount that may change but stays bounded; when it reads every midnight once
and skips none, the day that an instant is in begins at or before it, and the next one
after it (`localDayNum_iff`). The numbers have no bounds here; those of the code's 32 bits
are the same wherever they fit.
-/
namespace EllaFi.LocalDays
open EllaFi.Calendar

/-! ## The number of a date -/

/-- Of 400 years each. -/
def eraOf (y : Int) : Int := (if 0 ≤ y then y else y - 399).tdiv 400

def daysFromCivil (y : Int) (m d : BitVec 32) : Int :=
  let y := if m ≤ 2 then y - 1 else y
  let era := eraOf y
  let yoe := BitVec.ofInt 32 (y - era * 400)
  let doy := (153 * (m + if 2 < m then -3 else 9) + 2) / 5 + d - 1
  let doe := yoe * 365 + yoe / 4 - yoe / 100 + doy
  era * 146097 + doe.toNat - 719468

def dayNumber (date : Date) : Int := daysFromCivil date.year (.ofNat 32 date.month) (.ofNat 32 date.day)

/-- The year that began in March. -/
def marchYear (year : Int) (month : Nat) : Int := if month ≤ 2 then year - 1 else year

/-- The days from the first of March to a month. -/
def marchDays (month : Nat) : Nat := (153 * ((month + 9) % 12) + 2) / 5

/-- The days from 1970-01-01 to the first of March. -/
def yearDays (year : Int) : Int := 365 * year + year / 4 - year / 100 + year / 400 - 719468

section
variable {month day : Nat}

theorem eraOf_eq (year : Int) : eraOf year = year / 400 := by
  unfold eraOf
  split
  · next nonneg => exact Int.tdiv_eq_ediv_of_nonneg nonneg
  · next negative =>
    rw [show year - 399 = -(399 - year) by omega, Int.neg_tdiv, Int.tdiv_eq_ediv_of_nonneg (by omega)]
    omega

theorem marchDays_le : marchDays month ≤ 337 := by
  unfold marchDays
  omega

theorem doy_eq (month_pos : 1 ≤ month) (month_le : month ≤ 12) :
    (153 * (BitVec.ofNat 32 month + if 2 < BitVec.ofNat 32 month then -3 else 9) + 2) / 5 =
      BitVec.ofNat 32 (marchDays month) := by
  interval_cases month <;> decide

theorem doe_eq {yoe doy : BitVec 32} (ofEra : yoe.toNat < 400) (ofYear : doy.toNat < 400) :
    (yoe * 365 + yoe / 4 - yoe / 100 + doy).toNat =
      yoe.toNat * 365 + yoe.toNat / 4 - yoe.toNat / 100 + doy.toNat := by
  have four : BitVec.toNat (4 : BitVec 32) = 4 := rfl
  have hundred : BitVec.toNat (100 : BitVec 32) = 100 := rfl
  have year : BitVec.toNat (365 : BitVec 32) = 365 := rfl
  rw [BitVec.toNat_add, BitVec.toNat_sub, BitVec.toNat_add, BitVec.toNat_mul, BitVec.toNat_udiv, BitVec.toNat_udiv,
    four, hundred, year]
  omega

/-- The days of whole eras, and of the years since. -/
theorem yearDays_era (year : Int) {yoe : Nat} (ofEra : (yoe : Int) = year % 400) :
    year / 400 * 146097 + (yoe * 365 + yoe / 4 - yoe / 100 : Nat) - 719468 = yearDays year := by
  have quarters : ((yoe / 4 : Nat) : Int) = year / 4 - 100 * (year / 400) := by omega
  have centuries : ((yoe / 100 : Nat) : Int) = year / 100 - 4 * (year / 400) := by omega
  unfold yearDays
  omega

theorem daysFromCivil_eq (month_pos : 1 ≤ month) (month_le : month ≤ 12) (day_pos : 1 ≤ day) (day_le : day ≤ 31)
    (year : Int) :
    daysFromCivil year (.ofNat 32 month) (.ofNat 32 day) =
      yearDays (marchYear year month) + marchDays month + day - 1 := by
  have shifted : (if BitVec.ofNat 32 month ≤ 2 then year - 1 else year) = marchYear year month := by
    have early : BitVec.ofNat 32 month ≤ 2 ↔ month ≤ 2 := by
      rw [BitVec.le_def, BitVec.toNat_ofNat, Nat.mod_eq_of_lt (by omega)]
      rfl
    simp only [early, marchYear]
  have before := @marchDays_le month
  unfold daysFromCivil
  rw [shifted]
  generalize marchYear year month = year
  have yoe : (BitVec.ofInt 32 (year - year / 400 * 400)).toNat = year % 400 := by
    rw [BitVec.toNat_ofInt]
    omega
  have doy : (BitVec.ofNat 32 (marchDays month) + BitVec.ofNat 32 day - 1).toNat = marchDays month + day - 1 := by
    have one : BitVec.toNat (1 : BitVec 32) = 1 := rfl
    rw [BitVec.toNat_sub, BitVec.toNat_add, BitVec.toNat_ofNat, BitVec.toNat_ofNat, one]
    omega
  have inEra := yearDays_era year yoe
  simp only [eraOf_eq, doy_eq month_pos month_le]
  rw [doe_eq (by omega) (by omega), doy]
  omega

theorem monthLength_le (year : Int) : monthLength year month ≤ 31 := by
  unfold monthLength
  repeat' split
  all_goals omega

theorem monthLength_ge (year : Int) : 28 ≤ monthLength year month := by
  unfold monthLength
  repeat' split
  all_goals omega

theorem dayNumber_eq (date : Date) :
    dayNumber date = yearDays (marchYear date.year date.month) + marchDays date.month + date.day - 1 :=
  daysFromCivil_eq date.month_pos date.month_le date.day_pos (date.day_le.trans (monthLength_le _)) _

/-- From a month to the next. -/
theorem marchDays_add_monthLength (month_pos : 1 ≤ month) (inYear : month < 12) (year : Int) :
    yearDays (marchYear year month) + marchDays month + monthLength year month =
      yearDays (marchYear year (month + 1)) + marchDays (month + 1) := by
  by_cases february : month = 2
  · subst february
    have before : marchYear year 2 = year - 1 := rfl
    have after : marchYear year (2 + 1) = year := rfl
    rw [before, after]
    by_cases leap : IsLeap year
    · have length : monthLength year 2 = 29 := by simp [monthLength, leap]
      unfold IsLeap at leap
      unfold yearDays marchDays
      omega
    · have length : monthLength year 2 = 28 := by simp [monthLength, leap]
      unfold IsLeap at leap
      unfold yearDays marchDays
      omega
  · unfold monthLength marchYear
    rw [if_neg february]
    interval_cases month <;> simp [marchDays] at * <;> omega

theorem dayNumber_epoch : dayNumber epoch = 0 := by decide

theorem dayNumber_tomorrow (date : Date) : dayNumber date.tomorrow = dayNumber date + 1 := by
  rw [dayNumber_eq date]
  unfold Date.tomorrow
  split
  · next inMonth =>
    rw [dayNumber_eq]
    push_cast
    omega
  · next atEnd =>
    have last : date.day = monthLength date.year date.month := Nat.le_antisymm date.day_le (Nat.le_of_not_lt atEnd)
    split
    · next inYear =>
      have length := marchDays_add_monthLength date.month_pos inYear date.year
      rw [dayNumber_eq, last]
      simp only [Date.monthStart]
      omega
    · next newYear =>
      have december : date.month = 12 := Nat.le_antisymm date.month_le (Nat.le_of_not_lt newYear)
      rw [dayNumber_eq, last, december]
      simp [Date.yearStart, Date.monthStart, marchYear, marchDays, monthLength]
      omega

@[simp] theorem dayNumber_dateOf (days : Int) : dayNumber (dateOf days) = days :=
  number_dateOf dayNumber_epoch dayNumber_tomorrow days

/-- A date is its number of days after 1970-01-01, or before it. -/
theorem dateOf_dayNumber (date : Date) : dateOf (dayNumber date) = date :=
  dateOf_number dayNumber_epoch dayNumber_tomorrow date

end

/-! ## Local time -/

/-- A broken-down time. -/
structure Tm where
  date : Date
  /-- Of the day. -/
  seconds : Nat

/-- The time that a clock shows which has counted these seconds since 1970-01-01. -/
def gmtime (t : Int) : Tm where
  date := dateOf (t / 86400)
  seconds := (t % 86400).toNat

/-- How many seconds the local clock is ahead at each instant. -/
structure TimeZone where
  offset : Int → Int
  bound : Int
  bounded : ∀ t, |offset t| ≤ bound

namespace TimeZone
variable (zone : TimeZone)

def reading (t : Int) : Int := t + zone.offset t

def localtime (t : Int) : Tm := gmtime (zone.reading t)

/-- The local clock reads the midnight that begins a day. -/
def Midnight (day t : Int) : Prop := zone.reading t = 86400 * day

/-- The clock is put forward past that midnight. -/
def Skipped (day t : Int) : Prop := zone.reading (t - 1) < 86400 * day ∧ 86400 * day < zone.reading t

/-- A midnight that is not skipped is read between two instants before and behind it. -/
theorem exists_midnight {day first last : Int} (unskipped : ∀ t, ¬ zone.Skipped day t)
    (before : zone.reading first < 86400 * day) (behind : 86400 * day ≤ zone.reading last) (order : first ≤ last) :
    ∃ t, first < t ∧ t ≤ last ∧ zone.Midnight day t := by
  induction last, order using Int.leInduction with
  | base => omega
  | succ last order ih =>
    by_cases earlier : 86400 * day ≤ zone.reading last
    · obtain ⟨t, after, upTo, midnight⟩ := ih earlier
      exact ⟨t, after, by omega, midnight⟩
    · refine ⟨last + 1, by omega, Int.le_refl _, ?_⟩
      have here := unskipped (last + 1)
      unfold Skipped at here
      unfold Midnight
      rw [Int.add_sub_cancel] at here
      omega

theorem reading_near (t : Int) : t - zone.bound ≤ zone.reading t ∧ zone.reading t ≤ t + zone.bound := by
  have := abs_le.mp (zone.bounded t)
  unfold reading
  omega

end TimeZone

def localDayNum (zone : TimeZone) (utc : Int) : Int :=
  let lt := zone.localtime utc
  daysFromCivil lt.date.year (.ofNat 32 lt.date.month) (.ofNat 32 lt.date.day)

theorem localDayNum_eq (zone : TimeZone) (utc : Int) : localDayNum zone utc = zone.reading utc / 86400 :=
  dayNumber_dateOf _

/-- A time zone in which every midnight occurs exactly once, and a library function that
    returns its instant. -/
structure LocalClock extends TimeZone where
  mktime : Tm → Int
  once : ∀ day, ∃! t, toTimeZone.Midnight day t
  unskipped : ∀ day t, ¬ toTimeZone.Skipped day t
  mktime_midnight : ∀ day t, toTimeZone.Midnight day t → mktime { date := dateOf day, seconds := 0 } = t

def localDayStartUtc (clock : LocalClock) (dayNum : Int) : Int := clock.mktime (gmtime (dayNum * 86400))

section
variable (clock : LocalClock) {day t : Int}

theorem midnight_iff : clock.Midnight day t ↔ localDayStartUtc clock day = t := by
  have start {s : Int} (midnight : clock.Midnight day s) : localDayStartUtc clock day = s := by
    have shown : gmtime (day * 86400) = { date := dateOf day, seconds := 0 } := by simp [gmtime]
    rw [localDayStartUtc, shown]
    exact clock.mktime_midnight day s midnight
  constructor
  · exact start
  · rintro rfl
    obtain ⟨s, midnight, -⟩ := clock.once day
    rw [start midnight]
    exact midnight

/-- A day has begun when the local clock is at its midnight or past it. -/
theorem localDayStartUtc_le_iff : localDayStartUtc clock day ≤ t ↔ 86400 * day ≤ clock.reading t := by
  constructor
  · intro begun
    by_contra before
    have late := (clock.reading_near (max t (86400 * day + clock.bound))).1
    obtain ⟨s, after, -, midnight⟩ :=
      clock.exists_midnight (clock.unskipped day) (Int.not_le.mp before) (by omega)
        (le_max_left t (86400 * day + clock.bound))
    rw [midnight_iff] at midnight
    omega
  · intro behind
    by_contra notYet
    have early := (clock.reading_near (min t (86400 * day - clock.bound - 1))).2
    obtain ⟨s, -, upTo, midnight⟩ :=
      clock.exists_midnight (clock.unskipped day) (by omega) behind (min_le_left t (86400 * day - clock.bound - 1))
    rw [midnight_iff] at midnight
    omega

theorem reading_localDayStartUtc (day : Int) : clock.reading (localDayStartUtc clock day) = 86400 * day :=
  (midnight_iff clock).mpr rfl

theorem localDayStartUtc_lt_iff {other : Int} : localDayStartUtc clock day < localDayStartUtc clock other ↔ day < other := by
  rw [← Int.not_le, localDayStartUtc_le_iff, reading_localDayStartUtc]
  omega

theorem localDayNum_iff (day t : Int) :
    localDayNum clock.toTimeZone t = day ↔ localDayStartUtc clock day ≤ t ∧ t < localDayStartUtc clock (day + 1) := by
  have next := @localDayStartUtc_le_iff clock (day + 1) t
  rw [localDayNum_eq, localDayStartUtc_le_iff, ← Int.not_le, next]
  omega

theorem localDayNum_mono {before now : Int} (order : before ≤ now) :
    localDayNum clock.toTimeZone before ≤ localDayNum clock.toTimeZone now := by
  have begun := ((localDayNum_iff clock _ before).mp rfl).1
  have until_ := ((localDayNum_iff clock _ now).mp rfl).2
  have := (localDayStartUtc_lt_iff clock).mp (lt_of_le_of_lt (begun.trans order) until_)
  omega

end

/-- A zone of a fixed offset. -/
def fixedZone (seconds : Int) : TimeZone where
  offset _ := seconds
  bound := |seconds|
  bounded _ := le_refl _

theorem fixedZone_reading (seconds t : Int) : (fixedZone seconds).reading t = t + seconds := rfl

theorem fixedZone_midnight {seconds day t : Int} : (fixedZone seconds).Midnight day t ↔ t = 86400 * day - seconds := by
  rw [TimeZone.Midnight, fixedZone_reading]
  omega

def fixedClock (seconds : Int) : LocalClock where
  toTimeZone := fixedZone seconds
  mktime tm := 86400 * dayNumber tm.date + tm.seconds - seconds
  once day := ⟨86400 * day - seconds, fixedZone_midnight.mpr rfl, fun _ => fixedZone_midnight.mp⟩
  unskipped day t := by
    rw [TimeZone.Skipped, fixedZone_reading, fixedZone_reading]
    omega
  mktime_midnight day t midnight := by simp [fixedZone_midnight.mp midnight]

end EllaFi.LocalDays
