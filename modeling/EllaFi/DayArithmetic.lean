import EllaFi.LocalDays

/-!
The numbers of the days in the code's own arithmetic, where `long` and `time_t` have 32
bits and a sum that does not fit is undefined. `daysFromCivil` numbers the dates whose
number fits with the days of the eras that are added first (`daysFromCivil_some`), and
`localDayStartUtc` gives the midnights of the days around 1970 that fit
(`localDayStartUtc_some`). For all of these the two conversions are inverse at the
boundaries of the days (`day_arithmetic`); past them no day begins (`day_overflows`).
-/
namespace EllaFi.DayArithmetic
open EllaFi.Calendar
open EllaFi.LocalDays (eraOf eraOf_eq LocalClock TimeZone gmtime dayNumber dateOf_dayNumber dayNumber_dateOf marchYear
  dayNumber_eq marchDays_le monthLength_le yearDays midnight_iff localDayNum_eq localDayNum_iff
  fixedZone_midnight fixedClock)

def Fits (z : Int) : Prop := -2147483648 ≤ z ∧ z < 2147483648

instance (z : Int) : Decidable (Fits z) := inferInstanceAs (Decidable (_ ∧ _))

/-- What does not fit in 32 bits overflows, and is undefined. -/
def long (z : Int) : Option Int := if Fits z then some z else none

theorem long_eq_some {z value : Int} : long z = some value ↔ Fits z ∧ z = value := by
  unfold long
  split <;> simp [*]

/-! ## The number of a date -/

/-- `y >= 0 ? y : y - 399` -/
def roundedDown (y : Int) : Option Int := if 0 ≤ y then some y else long (y - 399)

def dayOfEra (yoe m d : BitVec 32) : BitVec 32 :=
  let doy := (153 * (m + if 2 < m then -3 else 9) + 2) / 5 + d - 1
  yoe * 365 + yoe / 4 - yoe / 100 + doy

def daysFromCivil (y : Int) (m d : BitVec 32) : Option Int := do
  let y ← long (if m ≤ 2 then y - 1 else y)
  let first ← roundedDown y
  let era := first.tdiv 400
  let began ← long (era * 400)
  let doe := dayOfEra (BitVec.ofInt 32 (y - began)) m d
  let eraDays ← long (era * 146097)
  let days ← long (eraDays + doe.toInt)
  long (days - 719468)

/-- The days since the year 0 are added up before those until 1970 are taken off. -/
def Counted (days : Int) : Prop := Fits days ∧ Fits (days + 719468)

instance (days : Int) : Decidable (Counted days) := inferInstanceAs (Decidable (_ ∧ _))

theorem roundedDown_some {y first : Int} :
    roundedDown y = some first ↔ (0 ≤ y ∧ y = first) ∨ (y < 0 ∧ Fits (y - 399) ∧ y - 399 = first) := by
  unfold roundedDown
  split
  · next nonneg => simp [nonneg, Int.not_lt.mpr nonneg]
  · next negative => simp [negative, Int.not_le.mp negative, long_eq_some]

theorem roundedDown_era {y first : Int} (rounded : roundedDown y = some first) : first.tdiv 400 = eraOf y := by
  unfold eraOf
  rcases roundedDown_some.mp rounded with ⟨nonneg, rfl⟩ | ⟨negative, -, rfl⟩
  · rw [if_pos nonneg]
  · rw [if_neg (Int.not_le.mpr negative)]

section
variable (date : Date)

/-- The days since the date's era began. -/
def dateOfEra : BitVec 32 :=
  let y := marchYear date.year date.month
  dayOfEra (BitVec.ofInt 32 (y - eraOf y * 400)) (.ofNat 32 date.month) (.ofNat 32 date.day)

theorem early_month : BitVec.ofNat 32 date.month ≤ 2 ↔ date.month ≤ 2 := by
  have := date.month_le
  rw [BitVec.le_def, BitVec.toNat_ofNat, Nat.mod_eq_of_lt (by omega)]
  rfl

theorem dayNumber_era :
    dayNumber date = eraOf (marchYear date.year date.month) * 146097 + (dateOfEra date).toNat - 719468 := by
  simp only [dayNumber, LocalDays.daysFromCivil, early_month]
  rfl

theorem dateOfEra_lt : (dateOfEra date).toNat < 147000 := by
  have sum := dayNumber_eq date
  have before := @marchDays_le date.month
  have inMonth := date.day_le.trans (monthLength_le date.year)
  rw [dayNumber_era, eraOf_eq, yearDays] at sum
  omega

theorem daysFromCivil_some (n : Int) :
    daysFromCivil date.year (.ofNat 32 date.month) (.ofNat 32 date.day) = some n ↔ Counted n ∧ dayNumber date = n := by
  have few := dateOfEra_lt date
  have signed : (dateOfEra date).toInt = (dateOfEra date).toNat := BitVec.toInt_eq_toNat_of_lt (by omega)
  have number := dayNumber_era date
  have march : (if BitVec.ofNat 32 date.month ≤ 2 then date.year - 1 else date.year) = marchYear date.year date.month := by
    simp only [early_month, marchYear]
  simp only [daysFromCivil, march, Option.bind_eq_bind, Option.bind_eq_some_iff, long_eq_some]
  have era := eraOf_eq (marchYear date.year date.month)
  constructor
  · rintro ⟨_, ⟨-, rfl⟩, first, rounded, _, ⟨-, rfl⟩, _, ⟨-, rfl⟩, _, ⟨fits, rfl⟩, last, made⟩
    rw [roundedDown_era rounded] at fits last made
    change Fits (_ + (dateOfEra date).toInt) at fits
    change Fits (_ + (dateOfEra date).toInt - _) at last
    change _ + (dateOfEra date).toInt - _ = _ at made
    rw [signed] at fits last made
    rw [made] at last
    exact ⟨⟨last, by rwa [← made, Int.sub_add_cancel]⟩, number.trans made⟩
  · rintro ⟨⟨fits, counted⟩, rfl⟩
    obtain ⟨first, rounded⟩ : ∃ first, roundedDown (marchYear date.year date.month) = some first := by
      by_cases nonneg : 0 ≤ marchYear date.year date.month
      · exact ⟨_, roundedDown_some.mpr (.inl ⟨nonneg, rfl⟩)⟩
      · exact ⟨_, roundedDown_some.mpr (.inr ⟨by omega, by unfold Fits at *; omega, rfl⟩)⟩
    refine ⟨_, ⟨?_, rfl⟩, first, rounded, ?_⟩
    · unfold Fits at *
      omega
    rw [roundedDown_era rounded]
    refine ⟨_, ⟨?_, rfl⟩, _, ⟨?_, rfl⟩, _, ⟨?_, rfl⟩, ?_⟩
    · unfold Fits at *
      omega
    · unfold Fits at *
      omega
    · change Fits (_ + (dateOfEra date).toInt)
      rwa [signed, ← Int.sub_add_cancel (_ + _) 719468, ← number]
    · change Fits (_ + (dateOfEra date).toInt - _) ∧ _ + (dateOfEra date).toInt - _ = _
      rw [signed, ← number]
      exact ⟨fits, rfl⟩

end

/-! ## Local time -/

def localDayNum (zone : TimeZone) (utc : Int) : Option Int :=
  let lt := zone.localtime utc
  daysFromCivil lt.date.year (.ofNat 32 lt.date.month) (.ofNat 32 lt.date.day)

/-- The instant that `mktime` returns is a `time_t` too. -/
def localDayStartUtc (clock : LocalClock) (dayNum : Int) : Option Int := do
  let midnightAsUtc ← long (dayNum * 86400)
  long (clock.mktime (gmtime midnightAsUtc))

section
variable {zone : TimeZone} {clock : LocalClock} {d t start next : Int}

theorem localDayNum_some : localDayNum zone t = some d ↔ Counted d ∧ LocalDays.localDayNum zone t = d :=
  daysFromCivil_some _ d

theorem localDayStartUtc_some :
    localDayStartUtc clock d = some start ↔ Fits (d * 86400) ∧ Fits start ∧ clock.Midnight d start := by
  simp only [localDayStartUtc, Option.bind_eq_bind, Option.bind_eq_some_iff, long_eq_some, midnight_iff]
  constructor
  · rintro ⟨_, ⟨fits, rfl⟩, fitsStart, begun⟩
    exact ⟨fits, (show clock.mktime _ = start from begun) ▸ fitsStart, begun⟩
  · rintro ⟨fits, fitsStart, begun⟩
    exact ⟨_, ⟨fits, rfl⟩, (show clock.mktime _ = start from begun).symm ▸ fitsStart, begun⟩

/-- Between two midnights that the code can tell, an instant has the day's number. -/
theorem localDayNum_between (began : localDayStartUtc clock d = some start)
    (ends : localDayStartUtc clock (d + 1) = some next) :
    localDayNum clock.toTimeZone t = some d ↔ start ≤ t ∧ t < next := by
  obtain ⟨fits, -, begun⟩ := localDayStartUtc_some.mp began
  have counted : Counted d := by
    unfold Counted Fits at *
    omega
  rw [localDayNum_some, localDayNum_iff, (midnight_iff clock).mp begun,
    (midnight_iff clock).mp (localDayStartUtc_some.mp ends).2.2]
  exact and_iff_right counted

end

/-- Where no sum overflows, `daysFromCivil` counts the days from 1970-01-01, `localDayStartUtc`
    gives the midnights, and an instant is in a day from its start until the start of the next. -/
theorem day_arithmetic :
    (∀ (date : Date) (n : Int),
      daysFromCivil date.year (.ofNat 32 date.month) (.ofNat 32 date.day) = some n ↔
        Counted n ∧ (nextDay ^ n) epoch = date) ∧
      ∀ (clock : LocalClock) (d start : Int),
        (localDayStartUtc clock d = some start ↔ Fits (d * 86400) ∧ Fits start ∧ clock.Midnight d start) ∧
        ∀ t next, localDayStartUtc clock d = some start → localDayStartUtc clock (d + 1) = some next →
          (localDayNum clock.toTimeZone t = some d ↔ start ≤ t ∧ t < next) := by
  refine ⟨fun date n => ?_, fun clock d start => ⟨localDayStartUtc_some, fun t next => localDayNum_between⟩⟩
  rw [daysFromCivil_some]
  refine and_congr_right fun _ => ⟨?_, ?_⟩
  · rintro rfl
    exact dateOf_dayNumber date
  · rintro rfl
    exact dayNumber_dateOf n

/-- The date after the last that is counted, and an instant of a day whose end is not told. -/
theorem day_overflows :
    (∃ date : Date, date.year = 5879610 ∧ date.month = 9 ∧ date.day = 10 ∧
      daysFromCivil date.year (.ofNat 32 date.month) (.ofNat 32 date.day) = none) ∧
      ∃ t, Fits t ∧ localDayNum (fixedClock 0).toTimeZone t = some 24855 ∧
        localDayStartUtc (fixedClock 0) 24855 = some t ∧ localDayStartUtc (fixedClock 0) 24856 = none := by
  refine ⟨⟨⟨5879610, 9, 10, by decide, by decide, by decide, by decide⟩, rfl, rfl, rfl, by decide⟩,
    2147472000, by decide, localDayNum_some.mpr ⟨by decide, ?_⟩, localDayStartUtc_some.mpr ⟨by decide, by decide, ?_⟩, ?_⟩
  · rw [localDayNum_eq]
    rfl
  · exact fixedZone_midnight.mpr rfl
  · simp [localDayStartUtc, long, Fits]

end EllaFi.DayArithmetic
