import EllaFi.LocalMonths
import EllaFi.Runs
import EllaFi.VoucherDays
import Mathlib.Algebra.BigOperators.Group.Finset.Basic
import Mathlib.Algebra.Order.BigOperators.Group.Finset
import Mathlib.Algebra.Order.Monoid.Prod
import Mathlib.Data.Int.Interval

/-!
The months of the sales page. It adds up the days that happen to be cached, and fetches
only the last 89 of them itself; the income statement has others cached, and after a reboot,
or when the admin clears them, none are. A month's vouchers are what the controller has of it exactly when every day of it
with any is cached or fetched (`months_iff`).
-/
namespace EllaFi.VoucherMonths
open EllaFi.LocalDays EllaFi.LocalMonths EllaFi.Totals EllaFi.VoucherDays
open EllaFi.Runs (run run_cons throughout_keeps throughout_all)

/-! ## The pages -/

/-- Of the last twelve months, the oldest is 0. -/
def monthSlot (todayDay dayNum : Int) : Option Int :=
  let mi := monthOfDay todayDay - monthOfDay dayNum
  if 0 ≤ mi ∧ mi < 12 then some (12 - 1 - mi) else none

def addMonth (todayDay : Int) (months : Table Int (Int × Int)) (kv : Int × (Int × Int)) : Table Int (Int × Int) :=
  match monthSlot todayDay kv.1 with
  | some ms => add months (ms, kv.2)
  | none => months

section
variable {F : Type} (floats : Floats F) (fallbackPrice : Int) (clock : LocalClock)

/-- A request of the sales page: the current time, and what the requests for the past
    days and for today come to. -/
structure SalesRequest where
  now : Int
  fetch : Int → Int → Option History
  fetchToday : Option History

namespace SalesRequest
variable (request : SalesRequest)

def todayDay : Int := localDayNum clock.toTimeZone request.now

/-- The past of the last 90 days. -/
def call : Call where
  today := request.todayDay clock
  winStart := request.todayDay clock - (90 - 1)
  winEnd := request.todayDay clock
  fetch := request.fetch

/-- Vouchers and pesos of today, never cached. -/
def todayAmounts : Int × Int :=
  match request.fetchToday with
  | none => 0
  | some todayDoc =>
    ((voucherBuckets todayDoc).filter fun b => bucketDay clock b = request.todayDay clock).foldl
      (fun sum b => sum + bucketAmounts floats fallbackPrice b) 0

end SalesRequest

/-- The voucher totals of the months, and the cache that is left. -/
def handleAdminSales (request : SalesRequest) (cache : DayCache) : Table Int (Int × Int) × DayCache :=
  let cache := ensureCall floats fallbackPrice clock cache (request.call clock)
  let past := (cache.entries.map fun kv => (kv.1, kv.2)).foldl (addMonth (request.todayDay clock)) ∅
  (addMonth (request.todayDay clock) past (request.todayDay clock, request.todayAmounts floats fallbackPrice clock), cache)

/-- The three months before the current one. -/
def statementCall (now : Int) (fetch : Int → Int → Option History) : Call where
  today := localDayNum clock.toTimeZone now
  winStart := monthFirstDay (monthKey (clock.localtime now).date - 3)
  winEnd := monthFirstDay (monthKey (clock.localtime now).date)
  fetch := fetch

inductive Event where
  | sales (request : SalesRequest)
  | statement (now : Int) (fetch : Int → Int → Option History)
  | clearVoucherCache
  | reboot

/-- The cache, and when it was last used since the boot. -/
structure State where
  cache : DayCache
  latest : Option Int

def booted : State := { cache := ∅, latest := none }

/-- The clock does not go back before the next boot. -/
def Later (s : State) (now : Int) : Prop := ∀ before ∈ s.latest, before ≤ now

instance (s : State) (now : Int) : Decidable (Later s now) := inferInstanceAs (Decidable (∀ before ∈ s.latest, _))

def step (s : State) : Event → Option State
  | .sales request =>
    if Later s request.now then
      some { cache := (handleAdminSales floats fallbackPrice clock request s.cache).2, latest := some request.now }
    else none
  | .statement now fetch =>
    if Later s now then
      some { cache := ensureCall floats fallbackPrice clock s.cache (statementCall clock now fetch), latest := some now }
    else none
  | .clearVoucherCache => some { s with cache := ∅ }
  | .reboot => some booted

/-! ## What the controller has -/

/-- The calls of an event are answered honestly. -/
def HonestEvent (controller : Controller clock) : Event → Prop
  | .sales request => Honest clock controller (request.call clock)
  | .statement now fetch => Honest clock controller (statementCall clock now fetch)
  | .clearVoucherCache | .reboot => True

/-- A document of today has the buckets that the controller has of it so far, stamped at
    the end of today; what else it has is stamped as well. -/
structure AnswersToday (live : List Bucket) (today : Int) (doc : History) : Prop where
  stamped : ∀ b ∈ voucherBuckets doc, ∃ day, b.time = 1000 * localDayStartUtc clock (day + 1)
  complete : ((voucherBuckets doc).filter fun b => b.time = 1000 * localDayStartUtc clock (today + 1)).Perm live

/-- A request of the sales page is answered honestly. -/
structure HonestSales (controller : Controller clock) (live : List Bucket) (request : SalesRequest) : Prop where
  past : Honest clock controller (request.call clock)
  today : ∀ doc, request.fetchToday = some doc → AnswersToday clock live (request.todayDay clock) doc

def liveTotals (live : List Bucket) : Int × Int := (live.map (bucketAmounts floats fallbackPrice)).sum

end

/-- The days of a month before today. -/
noncomputable def pastDays (today mk : Int) : Finset Int :=
  (Finset.Ico (dayNumber (firstOf mk)) (dayNumber (firstOf (mk + 1)))).filter (· < today)

section
variable {F : Type} (floats : Floats F) (fallbackPrice : Int) {clock : LocalClock} (controller : Controller clock)
  (live : List Bucket)

/-- The sum of the controller's totals of the days of a month. -/
noncomputable def controllerMonth (today mk : Int) : Int × Int :=
  ∑ day ∈ pastDays today mk, dayTotals floats fallbackPrice clock controller day +
    if monthOfDay today = mk then liveTotals floats fallbackPrice live else 0

/-- The month of a slot. -/
def monthOfSlot (today slot : Int) : Int := monthOfDay today - 11 + slot

/-- The page shows for every month what the controller has of it. -/
def ShowsMonths (request : SalesRequest) (cache : DayCache) : Prop :=
  ∀ slot, 0 ≤ slot → slot < 12 →
    total (handleAdminSales floats fallbackPrice clock request cache).1 slot =
      controllerMonth floats fallbackPrice controller live (request.todayDay clock)
        (monthOfSlot (request.todayDay clock) slot)

/-- Every past day of the twelve months with any vouchers is cached or fetched now, and
    so are today's, if there are any. -/
structure Covers (request : SalesRequest) (cache : DayCache) : Prop where
  past : ∀ day < request.todayDay clock, monthOfDay (request.todayDay clock) - 11 ≤ monthOfDay day →
    dayTotals floats fallbackPrice clock controller day ≠ 0 →
      day ∈ cache ∨ (request.todayDay clock - 89 ≤ day ∧ ¬ Fails clock (request.call clock) cache)
  today : liveTotals floats fallbackPrice live ≠ 0 → request.fetchToday ≠ none

end

/-! ## Adding up months -/

section
variable {cache : DayCache} {today slot : Int}

theorem monthSlot_iff {day : Int} (first : 0 ≤ slot) (last : slot < 12) :
    monthSlot today day = some slot ↔ monthOfDay day = monthOfSlot today slot := by
  simp only [monthSlot, monthOfSlot]
  split
  · rw [Option.some.injEq]
    omega
  · simp only [reduceCtorEq, false_iff]
    omega

theorem total_addMonth (months : Table Int (Int × Int)) (kv : Int × (Int × Int)) :
    total (addMonth today months kv) slot =
      total months slot + if monthSlot today kv.1 = some slot then kv.2 else 0 := by
  unfold addMonth
  split
  · next ms own => rw [total_add, own]; simp
  · next none_ => simp [none_]

theorem total_foldl_addMonth (entries : List (Int × (Int × Int))) (months : Table Int (Int × Int)) :
    total (entries.foldl (addMonth today) months) slot =
      total months slot + ((entries.filter fun kv => monthSlot today kv.1 = some slot).map (·.2)).sum := by
  induction entries generalizing months with
  | nil => simp
  | cons kv rest ih =>
    rw [List.foldl_cons, ih, total_addMonth, add_assoc]
    by_cases own : monthSlot today kv.1 = some slot
    · simp [own]
    · simp [own]

/-- The sum over a table's entries is one over its keys. -/
theorem sum_entries (cache : DayCache) (p : Int → Bool) :
    (((cache.entries.map fun kv => (kv.1, kv.2)).filter fun kv => p kv.1).map (·.2)).sum =
      ∑ day ∈ cache.keys.toFinset with p day, total cache day := by
  have values : ∀ kv ∈ cache.entries.filter fun kv => p kv.1, kv.2 = total cache kv.1 := by
    intro kv inside
    rw [total, AList.mem_lookup_iff.mpr (List.mem_filter.mp inside).1, Option.getD_some]
  have keys : (cache.entries.filter fun kv => p kv.1).map (·.1) = cache.keys.filter p := by
    rw [AList.keys, List.keys, List.filter_map]
    rfl
  calc (((cache.entries.map fun kv => (kv.1, kv.2)).filter fun kv => p kv.1).map (·.2)).sum
      = ((cache.entries.filter fun kv => p kv.1).map fun kv => kv.2).sum := by
        rw [List.filter_map, List.map_map]
        rfl
    _ = ((cache.entries.filter fun kv => p kv.1).map fun kv => total cache kv.1).sum := by
        rw [List.map_congr_left values]
    _ = ((cache.keys.filter p).map (total cache)).sum := by rw [← keys, List.map_map]; rfl
    _ = ∑ day ∈ cache.keys.toFinset with p day, total cache day := by
        rw [← List.sum_toFinset _ (cache.keys_nodup.filter p), List.toFinset_filter]

/-- What is missing from a sum of amounts that are not negative is nothing. -/
theorem sum_eq_iff {keys days : Finset Int} {amount : Int → Int × Int} (nonneg : ∀ day, 0 ≤ amount day)
    (part : keys ⊆ days) {shown live : Int × Int} (less : shown ≤ live) :
    ∑ day ∈ keys, amount day + shown = ∑ day ∈ days, amount day + live ↔
      (∀ day ∈ days, amount day ≠ 0 → day ∈ keys) ∧ shown = live := by
  have split : ∑ day ∈ days, amount day = ∑ day ∈ days \ keys, amount day + ∑ day ∈ keys, amount day :=
    (Finset.sum_sdiff part).symm
  have missed : 0 ≤ ∑ day ∈ days \ keys, amount day := Finset.sum_nonneg fun day _ => nonneg day
  have none_ : ∑ day ∈ days \ keys, amount day = 0 ↔ ∀ day ∈ days, amount day ≠ 0 → day ∈ keys := by
    rw [Finset.sum_eq_zero_iff_of_nonneg fun day _ => nonneg day]
    simp only [Finset.mem_sdiff, and_imp]
    exact forall₂_congr fun day _ => not_imp_comm
  rw [← none_, split, add_right_comm, add_comm (∑ day ∈ keys, amount day), add_left_inj]
  constructor
  · intro equal
    have both : ∑ day ∈ days \ keys, amount day + live ≤ 0 + live := by
      rw [← equal, zero_add]
      exact less
    have nothing := le_antisymm (le_of_add_le_add_right both) missed
    exact ⟨nothing, by rw [equal, nothing, zero_add]⟩
  · rintro ⟨nothing, same⟩
    rw [nothing, same, zero_add]

end

/-! ## One request -/

section
variable {F : Type} {floats : Floats F} {fallbackPrice : Int} {clock : LocalClock} {controller : Controller clock}
  {live : List Bucket} {request : SalesRequest} {cache : DayCache}

theorem todayAmounts_eq (honest : HonestSales clock controller live request) :
    request.todayAmounts floats fallbackPrice clock =
      if request.fetchToday = none then 0 else liveTotals floats fallbackPrice live := by
  unfold SalesRequest.todayAmounts
  cases fetched : request.fetchToday with
  | none => rfl
  | some doc =>
    obtain ⟨stamped, complete⟩ := honest.today doc fetched
    have sum (buckets : List Bucket) : buckets.foldl (fun sum b => sum + bucketAmounts floats fallbackPrice b) 0 =
        (buckets.map (bucketAmounts floats fallbackPrice)).sum := by
      rw [List.sum_eq_foldl, List.foldl_map]
    simp only [reduceCtorEq, if_false]
    rw [sum, filter_bucketDay stamped]
    exact (complete.map _).sum_eq

/-- What the page shows of a month. -/
theorem total_handleAdminSales {slot : Int} (first : 0 ≤ slot) (last : slot < 12) :
    total (handleAdminSales floats fallbackPrice clock request cache).1 slot =
      ∑ day ∈ (ensureCall floats fallbackPrice clock cache (request.call clock)).keys.toFinset
          with monthOfDay day = monthOfSlot (request.todayDay clock) slot,
        total (ensureCall floats fallbackPrice clock cache (request.call clock)) day +
      if monthOfDay (request.todayDay clock) = monthOfSlot (request.todayDay clock) slot then
        request.todayAmounts floats fallbackPrice clock else 0 := by
  simp only [handleAdminSales, total_addMonth, total_foldl_addMonth, total_empty, zero_add, monthSlot_iff first last]
  congr 1
  have sums := sum_entries (ensureCall floats fallbackPrice clock cache (request.call clock))
    fun day => monthOfDay day = monthOfSlot (request.todayDay clock) slot
  simpa using sums

/-- The months before the current one are past, from the year 0 on. -/
theorem statementCall_past {now : Int} (nonneg : 0 ≤ monthKey (clock.localtime now).date)
    (fetch : Int → Int → Option History) :
    (statementCall clock now fetch).winEnd ≤ (statementCall clock now fetch).today := by
  simp only [statementCall, monthFirstDay_eq nonneg]
  exact (dayNumber_mem_month (clock.localtime now).date).1

theorem mem_pastDays {today mk day : Int} : day ∈ pastDays today mk ↔ monthOfDay day = mk ∧ day < today := by
  rw [pastDays, Finset.mem_filter, Finset.mem_Ico, monthOfDay_iff]

theorem mem_pastCall (honest : HonestSales clock controller live request) {day : Int} :
    day ∈ ensureCall floats fallbackPrice clock cache (request.call clock) ↔
      day ∈ cache ∨ (request.todayDay clock - 89 ≤ day ∧ day < request.todayDay clock ∧
        ¬ Fails clock (request.call clock) cache) := by
  rw [mem_ensureCall honest.past, mem_missingDays]
  simp only [SalesRequest.call]
  by_cases known : day ∈ cache
  · simp [known]
  · simp [known, and_assoc]

/-- The days shown under a month are past days of it, with the controller's totals. -/
theorem sum_cached {mk : Int} (cached : Cached floats fallbackPrice controller cache) :
    ∑ day ∈ cache.keys.toFinset with monthOfDay day = mk, total cache day =
      ∑ day ∈ cache.keys.toFinset with monthOfDay day = mk, dayTotals floats fallbackPrice clock controller day := by
  refine Finset.sum_congr rfl fun day inside => ?_
  have there : day ∈ cache := List.mem_toFinset.mp (Finset.mem_filter.mp inside).1
  exact cached day _ (lookup_of_mem there)

theorem cachedDays_subset (mk : Int) (past : ∀ day ∈ cache, day < request.todayDay clock)
    (honest : HonestSales clock controller live request) :
    (ensureCall floats fallbackPrice clock cache (request.call clock)).keys.toFinset.filter
      (fun day => monthOfDay day = mk) ⊆ pastDays (request.todayDay clock) mk := by
  intro day inside
  obtain ⟨there, own⟩ := Finset.mem_filter.mp inside
  refine mem_pastDays.mpr ⟨own, ?_⟩
  rcases (mem_pastCall honest).mp (List.mem_toFinset.mp there) with before | ⟨-, fetched, -⟩
  · exact past day before
  · exact fetched

/-- What the page counts for today is what the controller has so far, or nothing. -/
theorem todayAmounts_le (honest : HonestSales clock controller live request)
    (soldToday : 0 ≤ liveTotals floats fallbackPrice live) :
    request.todayAmounts floats fallbackPrice clock ≤ liveTotals floats fallbackPrice live := by
  rw [todayAmounts_eq honest]
  split
  · exact soldToday
  · exact le_rfl

theorem showsMonth_iff {slot : Int} (first : 0 ≤ slot) (last : slot < 12)
    (sold : ∀ day, 0 ≤ dayTotals floats fallbackPrice clock controller day)
    (soldToday : 0 ≤ liveTotals floats fallbackPrice live) (cached : Cached floats fallbackPrice controller cache)
    (past : ∀ day ∈ cache, day < request.todayDay clock) (honest : HonestSales clock controller live request) :
    total (handleAdminSales floats fallbackPrice clock request cache).1 slot =
        controllerMonth floats fallbackPrice controller live (request.todayDay clock)
          (monthOfSlot (request.todayDay clock) slot) ↔
      (∀ day < request.todayDay clock, monthOfDay day = monthOfSlot (request.todayDay clock) slot →
        dayTotals floats fallbackPrice clock controller day ≠ 0 →
          day ∈ ensureCall floats fallbackPrice clock cache (request.call clock)) ∧
      (monthOfDay (request.todayDay clock) = monthOfSlot (request.todayDay clock) slot →
        request.fetchToday = none → liveTotals floats fallbackPrice live = 0) := by
  have less : (if monthOfDay (request.todayDay clock) = monthOfSlot (request.todayDay clock) slot then
        request.todayAmounts floats fallbackPrice clock else 0) ≤
      if monthOfDay (request.todayDay clock) = monthOfSlot (request.todayDay clock) slot then
        liveTotals floats fallbackPrice live else 0 := by
    split
    · exact todayAmounts_le honest soldToday
    · exact le_rfl
  rw [total_handleAdminSales first last, sum_cached (cached_ensureCall honest.past cached), controllerMonth,
    sum_eq_iff sold (cachedDays_subset _ past honest) less, todayAmounts_eq honest]
  refine and_congr ?_ ?_
  · simp only [mem_pastDays, Finset.mem_filter, List.mem_toFinset, AList.mem_keys, and_imp]
    constructor
    · intro all day before own amount
      exact (all day own before amount).1
    · intro all day own before amount
      exact ⟨all day before own amount, own⟩
  · split
    · next own =>
      simp only [own, forall_const]
      by_cases failed : request.fetchToday = none
      · simp [failed, eq_comm]
      · simp [failed]
    · next other => simp [other]

/-- The page shows what the controller has exactly when the cache and the requests cover
    every day with vouchers. -/
theorem showsMonths_iff (sold : ∀ day, 0 ≤ dayTotals floats fallbackPrice clock controller day)
    (soldToday : 0 ≤ liveTotals floats fallbackPrice live) (cached : Cached floats fallbackPrice controller cache)
    (past : ∀ day ∈ cache, day < request.todayDay clock) (honest : HonestSales clock controller live request) :
    ShowsMonths floats fallbackPrice controller live request cache ↔
      Covers floats fallbackPrice controller live request cache := by
  have month (slot : Int) (first : 0 ≤ slot) (last : slot < 12) :=
    showsMonth_iff first last sold soldToday cached past honest
  constructor
  · intro shows
    constructor
    · intro day before recent amount
      have notLater := monthOfDay_mono (Int.le_of_lt before)
      have inside := ((month (monthOfDay day - monthOfDay (request.todayDay clock) + 11) (by omega) (by omega)).mp
        (shows _ (by omega) (by omega))).1 day before (by unfold monthOfSlot; omega) amount
      rcases (mem_pastCall honest).mp inside with cached | ⟨recent, -, fetched⟩
      · exact .inl cached
      · exact .inr ⟨recent, fetched⟩
    · intro amount failed
      exact amount (((month 11 (by decide) (by decide)).mp (shows 11 (by decide) (by decide))).2
        (by unfold monthOfSlot; omega) failed)
  · intro covers slot first last
    refine (month slot first last).mpr ⟨?_, ?_⟩
    · intro day before own amount
      rw [mem_pastCall honest]
      rcases covers.past day before (by unfold monthOfSlot at own; omega) amount with cached | ⟨recent, fetched⟩
      · exact .inl cached
      · exact .inr ⟨recent, before, fetched⟩
    · intro _ failed
      by_contra amount
      exact covers.today amount failed

/-! ## Any requests -/

/-- The cached days have the controller's totals, and were past when the cache was last
    used. -/
structure Reached (floats : Floats F) (fallbackPrice : Int) (controller : Controller clock) (s : State) : Prop where
  cached : Cached floats fallbackPrice controller s.cache
  past : ∀ day ∈ s.cache, ∃ before ∈ s.latest, day < localDayNum clock.toTimeZone before

theorem reached_nothing (latest : Option Int) : Reached floats fallbackPrice controller { cache := ∅, latest } where
  cached day totals found := by cases found
  past day inside := absurd inside (AList.notMem_empty day)

/-- The days cached before the clock shows a time are past then. -/
theorem Reached.before {s : State} (reached : Reached floats fallbackPrice controller s) {now : Int}
    (later : Later s now) : ∀ day ∈ s.cache, day < localDayNum clock.toTimeZone now := by
  intro day inside
  obtain ⟨before, seen, order⟩ := reached.past day inside
  exact lt_of_lt_of_le order (localDayNum_mono clock (later before seen))

/-- A page that ensures a past window. -/
theorem reached_call {s : State} {call : Call} {now : Int} (reached : Reached floats fallbackPrice controller s)
    (later : Later s now) (honest : Honest clock controller call)
    (today : call.today = localDayNum clock.toTimeZone now) :
    Reached floats fallbackPrice controller
      { cache := ensureCall floats fallbackPrice clock s.cache call, latest := some now } where
  cached := cached_ensureCall honest reached.cached
  past day inside := by
    refine ⟨now, rfl, ?_⟩
    rcases (mem_ensureCall honest).mp inside with known | ⟨missing, -⟩
    · exact reached.before later day known
    · have := (mem_missingDays.mp missing).2.1
      have := honest.past
      omega

theorem reached_step (s : State) (event : Event) (next : State) (reached : Reached floats fallbackPrice controller s)
    (honest : HonestEvent clock controller event) (taken : step floats fallbackPrice clock s event = some next) :
    Reached floats fallbackPrice controller next := by
  cases event with
  | sales request =>
    obtain ⟨later, same⟩ := Option.ite_none_right_eq_some.mp taken
    cases same
    exact reached_call reached later honest rfl
  | statement now fetch =>
    obtain ⟨later, same⟩ := Option.ite_none_right_eq_some.mp taken
    cases same
    exact reached_call reached later honest rfl
  | clearVoucherCache | reboot =>
    obtain rfl := Option.some.inj taken
    exact reached_nothing _

/-- A run of pages, clearings and reboots, each page answered honestly. -/
structure HonestRun (floats : Floats F) (fallbackPrice : Int) (controller : Controller clock) (events : List Event)
    (last : State) : Prop where
  honest : ∀ event ∈ events, HonestEvent clock controller event
  ran : run (step floats fallbackPrice clock) booted events = some last

theorem HonestRun.reached {events : List Event} {last : State}
    (honestRun : HonestRun floats fallbackPrice controller events last) : Reached floats fallbackPrice controller last :=
  throughout_keeps reached_step (reached_nothing none) (throughout_all honestRun.honest) honestRun.ran

/-- After any such run, the sales page shows for each of the last twelve months
    what the controller has of it exactly when every day with vouchers is cached by then
    or fetched now. After two runs that have them covered, it shows the same. -/
theorem months_iff (sold : ∀ day, 0 ≤ dayTotals floats fallbackPrice clock controller day)
    (soldToday : 0 ≤ liveTotals floats fallbackPrice live) (answered : HonestSales clock controller live request)
    {events : List Event} {last : State} (honestRun : HonestRun floats fallbackPrice controller events last)
    (later : Later last request.now) :
    (ShowsMonths floats fallbackPrice controller live request last.cache ↔
      Covers floats fallbackPrice controller live request last.cache) ∧
    ∀ others other, HonestRun floats fallbackPrice controller others other → Later other request.now →
      Covers floats fallbackPrice controller live request last.cache →
      Covers floats fallbackPrice controller live request other.cache → ∀ slot, 0 ≤ slot → slot < 12 →
        total (handleAdminSales floats fallbackPrice clock request last.cache).1 slot =
          total (handleAdminSales floats fallbackPrice clock request other.cache).1 slot := by
  have shows {events : List Event} {last : State} (honestRun : HonestRun floats fallbackPrice controller events last)
      (later : Later last request.now) :=
    showsMonths_iff sold soldToday honestRun.reached.cached (honestRun.reached.before later) answered
  refine ⟨shows honestRun later, ?_⟩
  intro others other otherRun otherLater covers otherCovers slot first end_
  rw [(shows honestRun later).mpr covers slot first end_, (shows otherRun otherLater).mpr otherCovers slot first end_]

end

/-! ## Vouchers of a hundred days ago -/

/-- Noon of 2026-07-20. -/
def noon : Int := 1784520000

/-- 2026-04-11. -/
def soldDay : Int := 20554

def viewed : SalesRequest where
  now := noon
  fetch := soldHistory soldDay
  fetchToday := some { usage := none, data := some [] }

theorem viewed_todayDay : viewed.todayDay manila = 20654 := by
  rw [SalesRequest.todayDay, localDayNum_eq]
  decide

theorem monthOfDay_of_date {date : Calendar.Date} {day : Int} (number : dayNumber date = day) :
    monthOfDay day = monthKey date := by rw [← number, monthOfDay_dayNumber]

theorem month_viewed : monthOfDay 20654 = 24318 :=
  @monthOfDay_of_date ⟨2026, 7, 20, by decide, by decide, by decide, by decide⟩ 20654 (by decide)

theorem month_sold : monthOfDay soldDay = 24315 :=
  @monthOfDay_of_date ⟨2026, 4, 11, by decide, by decide, by decide, by decide⟩ 20554 (by decide)

theorem viewed_honest : HonestSales manila (soldController soldDay) [] viewed where
  past := ⟨Int.le_refl _, fun _ _ _ => soldHistory_answers soldDay _⟩
  today doc fetched := by
    cases fetched
    exact ⟨fun _ inside => absurd inside List.not_mem_nil, .nil⟩

theorem soldTotals (day : Int) :
    dayTotals wholeFloats 5 manila (soldController soldDay) day = if day = soldDay then (5, 25) else 0 := by
  simp only [dayTotals, soldController]
  by_cases own : day = soldDay
  · simp only [if_pos own]
    rfl
  · simp only [if_neg own]
    rfl

theorem sold_nonneg (day : Int) : 0 ≤ dayTotals wholeFloats 5 manila (soldController soldDay) day := by
  rw [soldTotals]
  split
  · exact ⟨by decide, by decide⟩
  · exact le_rfl

def statementViewed : Event := .statement noon (soldHistory soldDay)

def afterStatement : State where
  cache := ensureCall wholeFloats 5 manila ∅ (statementCall manila noon (soldHistory soldDay))
  latest := some noon

theorem monthKey_noon : monthKey (manila.localtime noon).date = 24318 := by
  rw [← month_viewed, monthOfDay_eq]
  rfl

theorem statement_window :
    (statementCall manila noon (soldHistory soldDay)).winStart = 20544 ∧
      (statementCall manila noon (soldHistory soldDay)).winEnd = 20635 := by
  rw [statementCall, monthKey_noon]
  decide

theorem statement_honest : HonestEvent manila (soldController soldDay) statementViewed :=
  ⟨statementCall_past (monthKey_noon.ge.trans' (by decide)) _, fun _ _ _ => soldHistory_answers soldDay _⟩

theorem afterStatement_run :
    HonestRun wholeFloats 5 (soldController soldDay) [statementViewed] afterStatement where
  honest := List.forall_mem_singleton.mpr statement_honest
  ran := by
    have fresh : Later booted noon := by
      rintro before seen
      cases seen
    have taken : step wholeFloats 5 manila booted statementViewed = some afterStatement := by
      rw [statementViewed, step, if_pos fresh, afterStatement, booted]
    exact run_cons.mpr ⟨afterStatement, taken, rfl⟩

theorem afterStatement_cached : soldDay ∈ afterStatement.cache := by
  have honest : Honest manila (soldController soldDay) (statementCall manila noon (soldHistory soldDay)) := statement_honest
  have filled := @mem_ensureCall Int wholeFloats 5 manila (soldController soldDay) ∅ _ soldDay honest
  have succeeds : ¬ Fails manila (statementCall manila noon (soldHistory soldDay)) ∅ := by
    rintro ⟨some, failed⟩
    exact Option.some_ne_none _ failed
  have missing : soldDay ∈ missingDays ∅ (statementCall manila noon (soldHistory soldDay)).winStart
      (statementCall manila noon (soldHistory soldDay)).winEnd := by
    rw [mem_missingDays, statement_window.1, statement_window.2]
    exact ⟨by decide, by decide, AList.notMem_empty _⟩
  simp only [afterStatement]
  exact filled.mpr (.inr ⟨missing, succeeds⟩)

theorem afterStatement_covers :
    Covers wholeFloats 5 (soldController soldDay) [] viewed afterStatement.cache where
  past day _ _ amount := by
    rw [soldTotals] at amount
    have own : day = soldDay := by
      by_contra other
      exact amount (if_neg other)
    exact .inl (own ▸ afterStatement_cached)
  today amount := absurd rfl amount

theorem afterStatement_later : Later afterStatement viewed.now := by
  rintro before seen
  cases seen
  exact Int.le_refl _

theorem months_after_statement :
    ShowsMonths wholeFloats 5 (soldController soldDay) [] viewed afterStatement.cache :=
  (months_iff sold_nonneg le_rfl viewed_honest afterStatement_run afterStatement_later).1.mpr afterStatement_covers

/-- The vouchers of April are not in the month's total until the statement was viewed. -/
theorem months_before_statement :
    ¬ ShowsMonths wholeFloats 5 (soldController soldDay) [] viewed booted.cache ∧
      HonestRun wholeFloats 5 (soldController soldDay) [statementViewed] afterStatement ∧
      total (handleAdminSales wholeFloats 5 manila viewed booted.cache).1 8 ≠
        total (handleAdminSales wholeFloats 5 manila viewed afterStatement.cache).1 8 := by
  have own : monthOfDay soldDay = monthOfSlot (viewed.todayDay manila) 8 := by
    rw [viewed_todayDay, monthOfSlot, month_viewed, month_sold]
    rfl
  have amount : dayTotals wholeFloats 5 manila (soldController soldDay) soldDay ≠ 0 := by
    rw [soldTotals, if_pos rfl]
    decide
  have before : soldDay < viewed.todayDay manila := by
    rw [viewed_todayDay]
    decide
  have missed : total (handleAdminSales wholeFloats 5 manila viewed booted.cache).1 8 ≠
      controllerMonth wholeFloats 5 (soldController soldDay) [] (viewed.todayDay manila)
        (monthOfSlot (viewed.todayDay manila) 8) := by
    intro shown
    have all := ((showsMonth_iff (by decide) (by decide) sold_nonneg le_rfl
      (@reached_nothing _ wholeFloats _ _ _ none).cached (fun _ inside => absurd inside (AList.notMem_empty _))
      viewed_honest).mp shown).1 soldDay before own amount
    rcases (mem_pastCall viewed_honest).mp all with cached | ⟨recent, -⟩
    · exact AList.notMem_empty _ cached
    · rw [viewed_todayDay] at recent
      exact absurd recent (by decide)
  refine ⟨fun shows => missed (shows 8 (by decide) (by decide)), afterStatement_run, ?_⟩
  have shown := (showsMonths_iff sold_nonneg le_rfl afterStatement_run.reached.cached
    (afterStatement_run.reached.before afterStatement_later) viewed_honest).mpr afterStatement_covers
  rw [shown 8 (by decide) (by decide)]
  exact missed

end EllaFi.VoucherMonths
