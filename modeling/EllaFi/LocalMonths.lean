import EllaFi.LocalDays
import Mathlib.Data.Int.ConditionallyCompleteOrder

/-!
Months of the calendar, counted from the year 0. A day is in a month from the first of
it until the first of the next (`monthOfDay_iff`), and the first of a month is the day
that the income statement computes (`monthFirstDay_eq`).
-/
namespace EllaFi.LocalMonths
open EllaFi.Calendar EllaFi.LocalDays

def monthKey (date : Date) : Int := date.year * 12 + (date.month - 1)

/-- By the clock of UTC at noon of the day. -/
def monthOfDay (dayNum : Int) : Int := monthKey (gmtime (dayNum * 86400 + 43200)).date

theorem monthOfDay_eq (dayNum : Int) : monthOfDay dayNum = monthKey (dateOf dayNum) := by
  rw [monthOfDay, gmtime, show (dayNum * 86400 + 43200) / 86400 = dayNum by omega]

theorem monthOfDay_dayNumber (date : Date) : monthOfDay (dayNumber date) = monthKey date := by
  rw [monthOfDay_eq, dateOf_dayNumber]

def monthFirstDay (mk : Int) : Int := daysFromCivil (mk.tdiv 12) (BitVec.ofInt 32 (mk.tmod 12 + 1)) 1

/-- The first of a month. -/
def firstOf (mk : Int) : Date := Date.monthStart (mk / 12) ((mk % 12).toNat + 1) (by omega) (by omega)

@[simp] theorem monthKey_firstOf (mk : Int) : monthKey (firstOf mk) = mk := by
  simp only [monthKey, firstOf, Date.monthStart]
  omega

theorem monthFirstDay_eq {mk : Int} (nonneg : 0 ≤ mk) : monthFirstDay mk = dayNumber (firstOf mk) := by
  have year : mk.tdiv 12 = mk / 12 := Int.tdiv_eq_ediv_of_nonneg nonneg
  have month : BitVec.ofInt 32 (mk.tmod 12 + 1) = BitVec.ofNat 32 ((mk % 12).toNat + 1) := by
    rw [Int.tmod_eq_emod_of_nonneg nonneg, ← BitVec.ofInt_natCast]
    congr 1
    omega
  rw [monthFirstDay, year, month]
  rfl

theorem firstOf_monthKey (date : Date) :
    firstOf (monthKey date) = Date.monthStart date.year date.month date.month_pos date.month_le := by
  have := date.month_pos
  have := date.month_le
  simp only [firstOf, monthKey, Date.monthStart, Date.mk.injEq, and_true]
  omega

/-- The length of a month is the distance to the next. -/
theorem dayNumber_firstOf_succ (mk : Int) :
    dayNumber (firstOf (mk + 1)) = dayNumber (firstOf mk) + monthLength (mk / 12) ((mk % 12).toNat + 1) := by
  rw [dayNumber_eq, dayNumber_eq]
  simp only [firstOf, Date.monthStart]
  by_cases inYear : (mk % 12).toNat + 1 < 12
  · have length := marchDays_add_monthLength (show 1 ≤ (mk % 12).toNat + 1 by omega) inYear (mk / 12)
    rw [show (mk + 1) / 12 = mk / 12 by omega, show ((mk + 1) % 12).toNat = (mk % 12).toNat + 1 by omega]
    omega
  · rw [show (mk + 1) / 12 = mk / 12 + 1 by omega, show ((mk + 1) % 12).toNat = 0 by omega,
      show (mk % 12).toNat = 11 by omega]
    simp [marchYear, marchDays, monthLength]
    omega

theorem firstOf_strictMono : StrictMono fun mk => dayNumber (firstOf mk) := by
  refine strictMono_int_of_lt_succ fun mk => ?_
  have positive := @monthLength_pos (mk / 12) ((mk % 12).toNat + 1)
  rw [dayNumber_firstOf_succ]
  omega

/-- A date is in its own month. -/
theorem dayNumber_mem_month (date : Date) :
    dayNumber (firstOf (monthKey date)) ≤ dayNumber date ∧ dayNumber date < dayNumber (firstOf (monthKey date + 1)) := by
  have year : monthKey date / 12 = date.year := by
    have := date.month_pos
    have := date.month_le
    unfold monthKey
    omega
  have month : (monthKey date % 12).toNat + 1 = date.month := by
    have := date.month_pos
    have := date.month_le
    unfold monthKey
    omega
  have first := date.day_pos
  have last := date.day_le
  rw [dayNumber_firstOf_succ, firstOf_monthKey, year, month, dayNumber_eq, dayNumber_eq]
  simp only [Date.monthStart]
  omega

theorem monthOfDay_iff {mk day : Int} :
    monthOfDay day = mk ↔ dayNumber (firstOf mk) ≤ day ∧ day < dayNumber (firstOf (mk + 1)) := by
  have own := dayNumber_mem_month (dateOf day)
  rw [dayNumber_dateOf, ← monthOfDay_eq] at own
  constructor
  · rintro rfl
    exact own
  · rintro ⟨from_, until_⟩
    have before := firstOf_strictMono.lt_iff_lt.mp (lt_of_le_of_lt own.1 until_)
    have behind := firstOf_strictMono.lt_iff_lt.mp (lt_of_le_of_lt from_ own.2)
    omega

theorem monthOfDay_mono {day other : Int} (order : day ≤ other) : monthOfDay day ≤ monthOfDay other := by
  have own := (@monthOfDay_iff _ day).mp rfl
  have later := (@monthOfDay_iff _ other).mp rfl
  have := firstOf_strictMono.lt_iff_lt.mp (lt_of_le_of_lt (own.1.trans order) later.2)
  omega

end EllaFi.LocalMonths
