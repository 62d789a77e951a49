import EllaFi.MoneyStore
import EllaFi.VoucherMonths
import Mathlib

/-!
The months of the coin sales, in any time zone. The money record adds up the lines that
have a time, by the text of their month; the sales page and the income statement add up
all of them, by the number of it. They agree about every month that they cover exactly
when it has no coins from the instant that an unset clock begins with
(`vendo_months_iff`).
-/
namespace EllaFi.VendoMonths
open EllaFi.Files EllaFi.LocalDays EllaFi.LocalMonths EllaFi.Totals
open EllaFi.MoneyStore (Counted)
open EllaFi.VoucherMonths (monthSlot monthSlot_iff monthOfSlot)

/-! ## The money record -/

/-- A year and a month as `%Y-%m`. -/
def monthText (year : Int) (month : Nat) : String :=
  toString year ++ "-" ++ String.ofList [Nat.digitChar (month / 10), Nat.digitChar (month % 10)]

section
variable (zone : TimeZone) (pricePerCoin : Int)

def monthOf (t : Int) : String := monthText (zone.localtime t).date.year (zone.localtime t).date.month

/-- Lines without a time or coins are passed over. -/
def moneyVendoMonths (sales : List Sale) : Table String Int :=
  sales.foldl (fun out sale => if Counted sale then add out (monthOf zone sale.ts, sale.coins * pricePerCoin) else out) ∅

/-! ## The pages -/

/-- Of the three months from the first one on. -/
def statementSlot (mkStart dayNum : Int) : Option Int :=
  let s := monthOfDay dayNum - mkStart
  if 0 ≤ s ∧ s < 3 then some s else none

def addSlot (out : Table Int Int) (slot : Option Int) (amount : Int) : Table Int Int :=
  match slot with
  | some slot => add out (slot, amount)
  | none => out

/-- The current local month. -/
def monthNow (now : Int) : Int := monthKey (zone.localtime now).date

/-- Coins of the last twelve months. -/
def salesCoins (now : Int) (sales : List Sale) : Table Int Int :=
  sales.foldl (fun out sale =>
    addSlot out (monthSlot (localDayNum zone now) (localDayNum zone sale.ts)) sale.coins) ∅

/-- Pesos of the three months before the current one. -/
def statementVendo (now : Int) (sales : List Sale) : Table Int Int :=
  sales.foldl (fun out sale =>
    addSlot out (statementSlot (monthNow zone now - 3) (localDayNum zone sale.ts)) (sale.coins * pricePerCoin)) ∅

/-- The text of a month that is counted from the year 0. -/
def textOf (mk : Int) : String := monthText (firstOf mk).year (firstOf mk).month

/-- The pages have the pesos of the money record for every month that they cover. -/
structure Agree (now : Int) (sales : List Sale) : Prop where
  page : ∀ slot, 0 ≤ slot → slot < 12 →
    total (salesCoins zone now sales) slot * pricePerCoin =
      total (moneyVendoMonths zone pricePerCoin sales) (textOf (monthNow zone now - 11 + slot))
  statement : ∀ slot, 0 ≤ slot → slot < 3 →
    total (statementVendo zone pricePerCoin now sales) slot =
      total (moneyVendoMonths zone pricePerCoin sales) (textOf (monthNow zone now - 3 + slot))

end

/-! ## Texts of months -/

theorem monthText_inj {year other : Int} {month next : Nat} (month_le : month ≤ 12) (next_le : next ≤ 12) :
    monthText year month = monthText other next ↔ year = other ∧ month = next := by
  constructor
  · intro same
    have lists := congrArg String.toList same
    simp only [monthText, String.toList_append, String.toList_ofList, List.append_assoc] at lists
    obtain ⟨years, months⟩ := List.append_inj' lists rfl
    have digits : ∀ m < 13, ∀ n < 13, [Nat.digitChar (m / 10), Nat.digitChar (m % 10)] =
        [Nat.digitChar (n / 10), Nat.digitChar (n % 10)] → m = n := by decide
    refine ⟨Int.repr_injective (String.toList_inj.mp years), ?_⟩
    exact digits month (by omega) next (by omega) (List.append_inj_right months rfl)
  · rintro ⟨rfl, rfl⟩
    rfl

section
variable {zone : TimeZone} {pricePerCoin : Int}

theorem monthKey_localtime (t : Int) : monthKey (zone.localtime t).date = monthOfDay (localDayNum zone t) := by
  rw [localDayNum_eq, monthOfDay_eq]
  rfl

theorem monthOf_iff {t mk : Int} : monthOf zone t = textOf mk ↔ monthOfDay (localDayNum zone t) = mk := by
  have month_le := (zone.localtime t).date.month_le
  have month_pos := (zone.localtime t).date.month_pos
  rw [monthOf, textOf, monthText_inj month_le (firstOf mk).month_le, ← monthKey_localtime]
  simp only [firstOf, Calendar.Date.monthStart, monthKey]
  omega

/-! ## Sums of the lines -/

/-- A pass that adds an amount for each line holds their sum. -/
theorem total_foldl {Key : Type} [DecidableEq Key] {pass : Table Key Int → Sale → Table Key Int} {key : Key}
    {amount : Sale → Int} (adds : ∀ out sale, total (pass out sale) key = total out key + amount sale)
    (sales : List Sale) (out : Table Key Int) : total (sales.foldl pass out) key = total out key + (sales.map amount).sum := by
  induction sales generalizing out with
  | nil => simp
  | cons sale rest ih => rw [List.foldl_cons, ih, adds, List.map_cons, List.sum_cons, add_assoc]

theorem total_addSlot (out : Table Int Int) (own : Option Int) (amount slot : Int) :
    total (addSlot out own amount) slot = total out slot + if own = some slot then amount else 0 := by
  unfold addSlot
  split
  · next ms => rw [total_add]; simp
  · simp

theorem statementSlot_iff {mkStart dayNum slot : Int} (low : 0 ≤ slot) (high : slot < 3) :
    statementSlot mkStart dayNum = some slot ↔ monthOfDay dayNum = mkStart + slot := by
  simp only [statementSlot]
  split
  · rw [Option.some.injEq]
    omega
  · simp only [reduceCtorEq, false_iff]
    omega

/-- The coins of a line, if it is of the month. -/
def coinsOf (zone : TimeZone) (mk : Int) (sale : Sale) : Nat :=
  if monthOfDay (localDayNum zone sale.ts) = mk then sale.coins else 0

/-- The coins of a line that has no time, if it is of the month. -/
def unsetCoins (zone : TimeZone) (mk : Int) (sale : Sale) : Nat := if sale.ts = 0 then coinsOf zone mk sale else 0

theorem total_salesCoins {now slot : Int} (low : 0 ≤ slot) (high : slot < 12) (sales : List Sale) :
    total (salesCoins zone now sales) slot =
      (sales.map fun sale => (coinsOf zone (monthNow zone now - 11 + slot) sale : Int)).sum := by
  refine (total_foldl ?_ sales ∅).trans (by rw [total_empty, zero_add])
  intro out sale
  rw [total_addSlot]
  simp only [monthSlot_iff low high, monthOfSlot, coinsOf, monthNow, monthKey_localtime]
  split <;> simp

theorem total_statementVendo {now slot : Int} (low : 0 ≤ slot) (high : slot < 3) (sales : List Sale) :
    total (statementVendo zone pricePerCoin now sales) slot =
      (sales.map fun sale => coinsOf zone (monthNow zone now - 3 + slot) sale * pricePerCoin).sum := by
  refine (total_foldl ?_ sales ∅).trans (by rw [total_empty, zero_add])
  intro out sale
  rw [total_addSlot]
  simp only [statementSlot_iff low high, coinsOf]
  split <;> simp

/-- The money record leaves out the lines that have no time. -/
theorem total_moneyVendoMonths (mk : Int) (sales : List Sale) :
    total (moneyVendoMonths zone pricePerCoin sales) (textOf mk) =
      (sales.map fun sale => ((coinsOf zone mk sale : Int) - unsetCoins zone mk sale) * pricePerCoin).sum := by
  refine (total_foldl ?_ sales ∅).trans (by rw [total_empty, zero_add])
  intro out sale
  by_cases counted : Counted sale
  · have timed : sale.ts ≠ 0 := Nat.pos_iff_ne_zero.mp counted.1
    rw [if_pos counted, total_add]
    simp only [monthOf_iff, unsetCoins, timed, coinsOf, if_false]
    split <;> simp
  · rw [if_neg counted]
    by_cases unset : sale.ts = 0
    · simp [unsetCoins, unset]
    · have none_ : sale.coins = 0 := by
        by_contra some
        exact counted ⟨Nat.pos_iff_ne_zero.mpr unset, Nat.pos_iff_ne_zero.mpr some⟩
      simp [unsetCoins, coinsOf, unset, none_]

/-- All lines of a month come to the same as those that have a time when the others have
    no coins, or coins are worth nothing. -/
theorem sum_eq_iff (mk : Int) (sales : List Sale) :
    (sales.map fun sale => coinsOf zone mk sale * pricePerCoin).sum =
        (sales.map fun sale => ((coinsOf zone mk sale : Int) - unsetCoins zone mk sale) * pricePerCoin).sum ↔
      pricePerCoin = 0 ∨ ∀ sale ∈ sales, unsetCoins zone mk sale = 0 := by
  have split : (sales.map fun sale => ((coinsOf zone mk sale : Int) - unsetCoins zone mk sale) * pricePerCoin).sum =
      (sales.map fun sale => coinsOf zone mk sale * pricePerCoin).sum -
        ((sales.map (unsetCoins zone mk)).sum : Nat) * pricePerCoin := by
    induction sales with
    | nil => simp
    | cons sale rest ih =>
      simp only [List.map_cons, List.sum_cons, ih]
      push_cast
      ring
  rw [split, eq_sub_iff_add_eq, add_eq_left, mul_eq_zero, or_comm, Int.natCast_eq_zero, List.sum_eq_zero_iff]
  simp

theorem unsetCoins_eq_zero {mk : Int} {sale : Sale} :
    unsetCoins zone mk sale = 0 ↔ (sale.ts = 0 → monthOfDay (localDayNum zone 0) = mk → sale.coins = 0) := by
  unfold unsetCoins coinsOf
  by_cases unset : sale.ts = 0
  · simp [unset]
  · simp [unset]

/-- The pages cover the month that an unset clock begins with. -/
def CoversEpoch (zone : TimeZone) (now : Int) : Prop :=
  monthNow zone now - 11 ≤ monthOfDay (localDayNum zone 0) ∧ monthOfDay (localDayNum zone 0) ≤ monthNow zone now

/-- The pages and the money record agree exactly when coins are worth nothing, the pages
    do not cover the month of the instant 0, or no coins were logged at it. -/
theorem vendo_months_iff (zone : TimeZone) (pricePerCoin now : Int) (sales : List Sale) :
    Agree zone pricePerCoin now sales ↔
      pricePerCoin = 0 ∨ (CoversEpoch zone now → ∀ sale ∈ sales, sale.ts = 0 → sale.coins = 0) := by
  have page (slot : Int) (low : 0 ≤ slot) (high : slot < 12) :
      total (salesCoins zone now sales) slot * pricePerCoin =
          total (moneyVendoMonths zone pricePerCoin sales) (textOf (monthNow zone now - 11 + slot)) ↔
        pricePerCoin = 0 ∨ ∀ sale ∈ sales, unsetCoins zone (monthNow zone now - 11 + slot) sale = 0 := by
    rw [total_salesCoins low high, total_moneyVendoMonths, ← List.sum_map_mul_right, sum_eq_iff]
  have statement (slot : Int) (low : 0 ≤ slot) (high : slot < 3) :
      total (statementVendo zone pricePerCoin now sales) slot =
          total (moneyVendoMonths zone pricePerCoin sales) (textOf (monthNow zone now - 3 + slot)) ↔
        pricePerCoin = 0 ∨ ∀ sale ∈ sales, unsetCoins zone (monthNow zone now - 3 + slot) sale = 0 := by
    rw [total_statementVendo low high, total_moneyVendoMonths, sum_eq_iff]
  constructor
  · intro agree
    by_cases free : pricePerCoin = 0
    · exact .inl free
    · refine .inr fun ⟨first, last⟩ sale inside unset => ?_
      have slot := (page (monthOfDay (localDayNum zone 0) - monthNow zone now + 11) (by omega) (by omega)).mp
        (agree.page _ (by omega) (by omega))
      exact unsetCoins_eq_zero.mp (slot.resolve_left free sale inside) unset (by omega)
  · intro condition
    have none_ (mk : Int) (covered : monthNow zone now - 11 ≤ mk ∧ mk ≤ monthNow zone now) :
        pricePerCoin = 0 ∨ ∀ sale ∈ sales, unsetCoins zone mk sale = 0 := by
      refine condition.imp_right fun noCoins sale inside => unsetCoins_eq_zero.mpr fun unset own => ?_
      exact noCoins (by unfold CoversEpoch; omega) sale inside unset
    exact ⟨fun slot low high => (page slot low high).mpr (none_ _ (by omega)),
      fun slot low high => (statement slot low high).mpr (none_ _ (by omega))⟩

end

/-! ## A fixed offset -/

theorem yearDays_eq {year : Nat} (late : 1970 ≤ year) :
    (MoneyStore.daysBeforeYear year - MoneyStore.daysBeforeYear 1970 : Nat) = yearDays ((year : Int) - 1) + 306 := by
  have first : MoneyStore.daysBeforeYear 1970 = 719162 := by decide
  obtain ⟨before, rfl⟩ := Nat.exists_eq_add_of_le' (show 1 ≤ year by omega)
  rw [first, MoneyStore.daysBeforeYear, Nat.add_sub_cancel, yearDays]
  have later : 719162 ≤ 365 * before + before / 4 - before / 100 + before / 400 := by
    rcases Nat.eq_or_lt_of_le (show 1969 ≤ before by omega) with rfl | later
    · decide
    · omega
  rw [show ((before + 1 : Nat) : Int) - 1 = before by omega]
  omega

theorem yearDays_succ (year : Nat) :
    yearDays year = yearDays ((year : Int) - 1) + 365 + if MoneyStore.isLeap year then 1 else 0 := by
  unfold yearDays MoneyStore.isLeap
  split <;> simp at * <;> omega

theorem monthStart_eq (month : Nat) : (MoneyStore.monthStart month : Int) = dayNumber (firstOf (23640 + month)) := by
  have year : (23640 + (month : Int)) / 12 = (1970 + month / 12 : Nat) := by omega
  have own : ((23640 + (month : Int)) % 12).toNat = month % 12 := by omega
  rw [dayNumber_eq]
  simp only [firstOf, Calendar.Date.monthStart, year, own]
  have days := @yearDays_eq (1970 + month / 12) (by omega)
  have next := yearDays_succ (1970 + month / 12)
  have inYear : month % 12 < 12 := Nat.mod_lt _ (by decide)
  unfold MoneyStore.monthStart
  generalize month % 12 = m at *
  generalize 1970 + month / 12 = y at *
  push_cast
  rw [days]
  interval_cases m <;> simp only [marchYear, marchDays] <;> norm_num <;> omega

theorem monthStart_ge (month : Nat) : 28 * month ≤ MoneyStore.monthStart month := by
  have grows : (28 * month : Int) ≤ dayNumber (firstOf (23640 + month)) := by
    induction month with
    | zero => decide
    | succ month ih =>
      have length := @monthLength_ge (((23640 + (month : Int)) % 12).toNat + 1) ((23640 + month) / 12)
      push_cast
      rw [← Int.add_assoc, dayNumber_firstOf_succ]
      omega
  rw [← monthStart_eq] at grows
  omega

theorem monthOfDay_eq_monthOfDay (day : Nat) : LocalMonths.monthOfDay day = 23640 + MoneyStore.monthOfDay day := by
  have first : LocalMonths.monthOfDay 0 = 23640 := monthOfDay_iff.mpr (by decide)
  have late := monthOfDay_mono (Int.natCast_nonneg day)
  obtain ⟨month, same⟩ := Int.eq_ofNat_of_zero_le (show 0 ≤ LocalMonths.monthOfDay day - 23640 by omega)
  have inside := (@monthOfDay_iff (23640 + month) day).mp (by omega)
  rw [← monthStart_eq] at inside
  have own : MoneyStore.monthOfDay day = month := by
    refine Nat.findGreatest_eq_iff.mpr ⟨?_, fun _ => by omega, ?_⟩
    · have := monthStart_ge month
      omega
    · intro other later _ begun
      have order := firstOf_strictMono.monotone (show 23640 + (month : Int) + 1 ≤ 23640 + other by omega)
      simp only [← monthStart_eq] at order
      omega
  omega

theorem monthOf_fixedZone (prices : MoneyStore.Prices) (t : Nat) :
    monthOf (fixedZone prices.utcOffset) t = MoneyStore.monthOf prices t := by
  have digits : ∀ m < 12, (if m < 9 then "0" else "") ++ toString (m + 1) =
      String.ofList [Nat.digitChar ((m + 1) / 10), Nat.digitChar ((m + 1) % 10)] := by decide
  have day : LocalMonths.monthOfDay (localDayNum (fixedZone prices.utcOffset) t) =
      23640 + MoneyStore.monthOfDay ((t + prices.utcOffset) / 86400) := by
    rw [localDayNum_eq, ← monthOfDay_eq_monthOfDay]
    rfl
  rw [← monthKey_localtime] at day
  have month_pos := ((fixedZone prices.utcOffset).localtime t).date.month_pos
  have month_le := ((fixedZone prices.utcOffset).localtime t).date.month_le
  simp only [MoneyStore.monthOf]
  generalize MoneyStore.monthOfDay ((t + prices.utcOffset) / 86400) = month at day
  unfold monthKey at day
  have year : ((fixedZone prices.utcOffset).localtime t).date.year = (1970 + month / 12 : Nat) := by omega
  have own : ((fixedZone prices.utcOffset).localtime t).date.month = month % 12 + 1 := by omega
  rw [monthOf, monthText, year, own, ← digits _ (Nat.mod_lt _ (by decide)), ← String.append_assoc]
  rfl

/-- In a zone of a fixed offset the record's months are those of the ledger. -/
theorem moneyVendoMonths_fixedZone (prices : MoneyStore.Prices) (sales : List Sale) :
    moneyVendoMonths (fixedZone prices.utcOffset) prices.pricePerCoin sales = MoneyStore.moneyVendoMonths prices sales := by
  rw [MoneyStore.moneyVendoMonths, MoneyStore.saleEntries, List.foldl_map, List.foldl_filter]
  simp only [moneyVendoMonths, MoneyStore.saleEntry, monthOf_fixedZone, decide_eq_true_eq]

/-! ## A sale before the clock is set -/

/-- A coin logged in the first second after a power-up. -/
def firstSale : Sale := { ts := 0, coins := 1, min := 24, node := "" }

/-- The sales page has the coin, and the money record does not. -/
theorem firstSale_disagrees : ¬ Agree (fixedZone 28800) 1 600 [firstSale] := by
  intro agree
  have shown : total (salesCoins (fixedZone 28800) 600 [firstSale]) 11 = 1 := by
    rw [total_salesCoins (by decide) (by decide)]
    have own : monthOfDay (localDayNum (fixedZone 28800) 0) = monthNow (fixedZone 28800) 600 := by
      rw [monthNow, monthKey_localtime]
      rfl
    simp [coinsOf, own, firstSale]
  have recorded : moneyVendoMonths (fixedZone 28800) 1 [firstSale] = ∅ := rfl
  have page := agree.page 11 (by decide) (by decide)
  rw [shown, recorded] at page
  cases page

end EllaFi.VendoMonths
