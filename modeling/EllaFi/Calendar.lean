import Mathlib.Algebra.Group.End
import Mathlib.Algebra.Group.Int.Defs
import Mathlib.Algebra.Order.Ring.Int
import Mathlib.Data.Int.Init

/-!
The proleptic Gregorian calendar. A date is one that exists; each has a next one,
and the day after is a permutation of the dates (`nextDay`), whose powers lead from
1970-01-01 to every date (`exists_dateOf`). A numbering of the dates that starts there
with 0 and counts one for each day numbers the days (`number_dateOf`, `dateOf_number`).
-/
namespace EllaFi.Calendar

def IsLeap (year : Int) : Prop := 4 ∣ year ∧ (100 ∣ year → 400 ∣ year)

instance (year : Int) : Decidable (IsLeap year) := inferInstanceAs (Decidable (_ ∧ (_ → _)))

def monthLength (year : Int) (month : Nat) : Nat :=
  if month = 2 then if IsLeap year then 29 else 28
  else if month = 4 ∨ month = 6 ∨ month = 9 ∨ month = 11 then 30
  else 31

/-- Years count through 0. -/
@[ext]
structure Date where
  year : Int
  month : Nat
  day : Nat
  month_pos : 1 ≤ month
  month_le : month ≤ 12
  day_pos : 1 ≤ day
  day_le : day ≤ monthLength year month
deriving DecidableEq

section
variable {year : Int} {month : Nat}

theorem monthLength_pos : 1 ≤ monthLength year month := by
  unfold monthLength
  repeat' split
  all_goals omega

end

namespace Date

def monthStart (year : Int) (month : Nat) (month_pos : 1 ≤ month) (month_le : month ≤ 12) : Date :=
  ⟨year, month, 1, month_pos, month_le, Nat.le_refl 1, monthLength_pos⟩

/-- New Year's Day. -/
def yearStart (year : Int) : Date := monthStart year 1 (Nat.le_refl 1) (by decide)

def tomorrow (date : Date) : Date :=
  if inMonth : date.day < monthLength date.year date.month then
    { date with day := date.day + 1, day_pos := Nat.succ_pos _, day_le := inMonth }
  else if inYear : date.month < 12 then monthStart date.year (date.month + 1) (Nat.succ_pos _) inYear
  else yearStart (date.year + 1)

def monthEnd (year : Int) (month : Nat) (month_pos : 1 ≤ month) (month_le : month ≤ 12) : Date :=
  ⟨year, month, monthLength year month, month_pos, month_le, monthLength_pos, Nat.le_refl _⟩

def yesterday (date : Date) : Date :=
  if inMonth : 1 < date.day then
    { date with day := date.day - 1, day_pos := Nat.le_sub_one_of_lt inMonth,
                day_le := (Nat.sub_le _ _).trans date.day_le }
  else if inYear : 1 < date.month then
    monthEnd date.year (date.month - 1) (Nat.le_sub_one_of_lt inYear) ((Nat.sub_le _ _).trans date.month_le)
  else monthEnd (date.year - 1) 12 (by decide) (Nat.le_refl 12)

theorem tomorrow_monthEnd {year : Int} {month : Nat} (month_pos : 1 ≤ month) (inYear : month < 12) :
    (monthEnd year month month_pos inYear.le).tomorrow = monthStart year (month + 1) (Nat.succ_pos _) inYear := by
  simp [tomorrow, monthEnd, inYear]

theorem tomorrow_yearEnd (year : Int) :
    (monthEnd year 12 (by decide) (Nat.le_refl 12)).tomorrow = yearStart (year + 1) := by
  simp [tomorrow, monthEnd]

variable (date : Date)

theorem yesterday_tomorrow : date.tomorrow.yesterday = date := by
  obtain ⟨year, month, day, month_pos, month_le, day_pos, day_le⟩ := date
  unfold tomorrow
  split
  · next inMonth => simp [yesterday, show 1 < day + 1 by omega]
  · next atEnd =>
    have last : day = monthLength year month := Nat.le_antisymm day_le (Nat.le_of_not_lt atEnd)
    split
    · next inYear =>
      simp [yesterday, monthStart, monthEnd, last, show 0 < month by omega]
    · next newYear =>
      obtain rfl : month = 12 := Nat.le_antisymm month_le (Nat.le_of_not_lt newYear)
      simp [yesterday, yearStart, monthStart, monthEnd, last]

theorem tomorrow_yesterday : date.yesterday.tomorrow = date := by
  obtain ⟨year, month, day, month_pos, month_le, day_pos, day_le⟩ := date
  unfold yesterday
  split
  · next inMonth =>
    have inside : day - 1 < monthLength year month := by simp only at inMonth; omega
    simp [tomorrow, inside, Nat.sub_add_cancel day_pos]
  · next atStart =>
    obtain rfl : day = 1 := Nat.le_antisymm (Nat.le_of_not_lt atStart) day_pos
    split
    · next inYear =>
      have before : month - 1 < 12 := by omega
      simp [tomorrow, monthEnd, monthStart, before, Nat.sub_add_cancel month_pos]
    · next newYear =>
      obtain rfl : month = 1 := Nat.le_antisymm (Nat.le_of_not_lt newYear) month_pos
      simp [tomorrow, monthEnd, yearStart, monthStart]

end Date

/-- The day after. -/
def nextDay : Equiv.Perm Date where
  toFun := Date.tomorrow
  invFun := Date.yesterday
  left_inv := Date.yesterday_tomorrow
  right_inv := Date.tomorrow_yesterday

def epoch : Date := Date.yearStart 1970

/-- The date some days after 1970-01-01, or before it. -/
def dateOf (days : Int) : Date := (nextDay ^ days) epoch

/-! ## Every date is so many days away -/

/-- Some days lead from one date to the other. -/
def Leads (first last : Date) : Prop := ∃ days : Int, (nextDay ^ days) first = last

section
variable {first between last : Date}

theorem leads_refl (date : Date) : Leads date date := ⟨0, rfl⟩

theorem Leads.trans (before : Leads first between) (after : Leads between last) : Leads first last := by
  obtain ⟨m, rfl⟩ := before
  obtain ⟨n, rfl⟩ := after
  exact ⟨n + m, by rw [zpow_add, Equiv.Perm.mul_apply]⟩

theorem Leads.symm (leads : Leads first last) : Leads last first := by
  obtain ⟨n, rfl⟩ := leads
  exact ⟨-n, by rw [← Equiv.Perm.mul_apply, ← zpow_add, neg_add_cancel, zpow_zero, Equiv.Perm.one_apply]⟩

theorem leads_tomorrow (date : Date) : Leads date date.tomorrow := ⟨1, by rw [zpow_one]; rfl⟩

/-- Day by day through a month. -/
theorem leads_day (date : Date) : Leads (Date.monthStart date.year date.month date.month_pos date.month_le) date := by
  obtain ⟨year, month, day, month_pos, month_le, day_pos, day_le⟩ := date
  induction day, day_pos using Nat.le_induction with
  | base => exact leads_refl _
  | succ day day_pos ih =>
    refine (ih (Nat.le_of_succ_le day_le)).trans ?_
    have next := leads_tomorrow ⟨year, month, day, month_pos, month_le, day_pos, Nat.le_of_succ_le day_le⟩
    rwa [Date.tomorrow, dif_pos (Nat.lt_of_succ_le day_le)] at next

/-- Month by month through a year. -/
theorem leads_month (year : Int) (month : Nat) (month_pos : 1 ≤ month) (month_le : month ≤ 12) :
    Leads (Date.yearStart year) (Date.monthStart year month month_pos month_le) := by
  induction month, month_pos using Nat.le_induction with
  | base => exact leads_refl _
  | succ month month_pos ih =>
    refine (ih (Nat.le_of_succ_le month_le)).trans ?_
    have inMonth := leads_day (Date.monthEnd year month month_pos (Nat.le_of_succ_le month_le))
    rw [← Date.tomorrow_monthEnd month_pos (Nat.lt_of_succ_le month_le)]
    exact inMonth.trans (leads_tomorrow _)

theorem leads_year (year : Int) : Leads (Date.yearStart year) (Date.yearStart (year + 1)) := by
  have inDecember := leads_day (Date.monthEnd year 12 (by decide) (Nat.le_refl 12))
  rw [← Date.tomorrow_yearEnd year]
  exact (leads_month year 12 (by decide) (Nat.le_refl 12)).trans (inDecember.trans (leads_tomorrow _))

theorem leads_epoch (year : Int) : Leads epoch (Date.yearStart year) := by
  refine Int.inductionOn' year 1970 (leads_refl _) ?_ ?_
  · intro year _ before
    exact before.trans (leads_year year)
  · intro year _ before
    have step := leads_year (year - 1)
    rw [Int.sub_add_cancel] at step
    exact before.trans step.symm

theorem exists_dateOf (date : Date) : ∃ days, dateOf days = date :=
  (leads_epoch date.year).trans ((leads_month date.year date.month _ _).trans (leads_day date))

end

/-! ## Numbering the dates -/

theorem dateOf_add_one (days : Int) : dateOf (days + 1) = (dateOf days).tomorrow := by
  rw [dateOf, Int.add_comm, zpow_one_add, Equiv.Perm.mul_apply]
  rfl

section
variable {number : Date → Int} (first : number epoch = 0) (next : ∀ date, number date.tomorrow = number date + 1)
include first next

theorem number_dateOf (days : Int) : number (dateOf days) = days := by
  induction days using Int.induction_on with
  | zero => exact first
  | succ days ih => rw [dateOf_add_one, next, ih]
  | pred days ih =>
    have step := next (dateOf (-days - 1))
    rw [← dateOf_add_one, Int.sub_add_cancel, ih] at step
    omega

theorem dateOf_number (date : Date) : dateOf (number date) = date := by
  obtain ⟨days, rfl⟩ := exists_dateOf date
  rw [number_dateOf first next]

end

end EllaFi.Calendar
