import EllaFi.LocalDays
import EllaFi.TextLines
import EllaFi.Totals
import Mathlib.Algebra.BigOperators.Group.List.Lemmas
import Mathlib.Algebra.Group.Prod
import Mathlib.Data.Int.Range
import Mathlib.Data.List.Pairwise

/-!
The vouchers of past days, kept in RAM. `ensureVoucherDays` fetches the days of a
window that are missing, from the start of the first until two days past the last, and
adds up what the controller has of them. When the controller keeps the past as it is,
a fetch that succeeds gives the window's missing days their totals and changes no other
(`lookup_ensureVoucherDays`), and whatever was fetched and failed before, the days that
are there have the controller's totals (`day_cache_totals`).
-/
namespace EllaFi.VoucherDays
open EllaFi.LocalDays EllaFi.Totals
open EllaFi.TextLines (Text)

/-- Floating-point numbers, as far as amounts are read with them. -/
structure Floats (F : Type) where
  atof : Text → F
  ofInt : Int → F
  IsZero : F → Bool
  truncate : F → Int

/-- What the controller has of a day's vouchers at one price, say. -/
structure Bucket where
  /-- Milliseconds of Unix time. -/
  time : Int
  count : Int
  amount : Option Text
deriving DecidableEq

/-- The two arrays that a document can have buckets in. -/
structure History where
  usage : Option (List Bucket)
  data : Option (List Bucket)

def voucherBuckets (doc : History) : List Bucket := (doc.usage.or doc.data).getD []

/-- Vouchers and pesos of each day. -/
abbrev DayCache : Type := Table Int (Int × Int)

def missingDays (cache : DayCache) (winStart winEnd : Int) : List Int :=
  (Int.range winStart winEnd).filter (· ∉ cache)

section
variable {F : Type} (floats : Floats F) (fallbackPrice : Int) (clock : LocalClock)

def voucherBucketRevenue (b : Bucket) : Int :=
  let amt := floats.atof (b.amount.getD ['0'])
  floats.truncate (if floats.IsZero amt then floats.ofInt (b.count * fallbackPrice) else amt)

/-- The day that a bucket represents: it is stamped with the end of it. -/
def bucketDay (b : Bucket) : Int := localDayNum clock.toTimeZone (b.time.tdiv 1000 - 1)

def bucketAmounts (b : Bucket) : Int × Int := (b.count, voucherBucketRevenue floats fallbackPrice b)

def addBucket (missing : List Int) (cache : DayCache) (b : Bucket) : DayCache :=
  if bucketDay clock b ∈ missing then add cache (bucketDay clock b, bucketAmounts floats fallbackPrice b) else cache

/-- Nothing is fetched when no day is missing; a fetch that fails is left to the next
    load. Days without a bucket are cached as 0. -/
def ensureVoucherDays (fetch : Int → Int → Option History) (winStart winEnd : Int) (cache : DayCache) : DayCache :=
  let missing := missingDays cache winStart winEnd
  if some : missing ≠ [] then
    match fetch (localDayStartUtc clock (missing.head some)) (localDayStartUtc clock (missing.getLast some + 2)) with
    | none => cache
    | .some hist =>
      (voucherBuckets hist).foldl (addBucket floats fallbackPrice clock missing)
        (missing.foldl (fun cache d => add cache (d, 0)) cache)
  else cache

/-! ## The controller -/

/-- The controller's buckets, stamped at the end of their day. -/
structure Controller where
  buckets : Int → List Bucket
  stamped : ∀ day, ∀ b ∈ buckets day, b.time = 1000 * localDayStartUtc clock (day + 1)

def dayTotals (controller : Controller clock) (day : Int) : Int × Int :=
  ((controller.buckets day).map (bucketAmounts floats fallbackPrice)).sum

/-- Of the days before today, a document has all buckets that are stamped between two
    instants; what else it has is stamped as well. -/
structure Answers (controller : Controller clock) (today start stop : Int) (doc : History) : Prop where
  stamped : ∀ b ∈ voucherBuckets doc, ∃ day, b.time = 1000 * localDayStartUtc clock (day + 1)
  complete : ∀ day < today, start < localDayStartUtc clock (day + 1) → localDayStartUtc clock (day + 1) < stop →
    ((voucherBuckets doc).filter fun b => b.time = 1000 * localDayStartUtc clock (day + 1)).Perm (controller.buckets day)

/-- A call of `ensureVoucherDays`, with what the controller's history comes to for each
    range that can be asked for. -/
structure Call where
  today : Int
  winStart : Int
  winEnd : Int
  fetch : Int → Int → Option History

/-- The window is past, and the fetch fails or is answered. -/
structure Honest (controller : Controller clock) (call : Call) : Prop where
  past : call.winEnd ≤ call.today
  answers : ∀ start stop doc, call.fetch start stop = some doc → Answers clock controller call.today start stop doc

/-- Days are missing, and the fetch of them fails. -/
def Fails (call : Call) (cache : DayCache) : Prop :=
  ∃ some : missingDays cache call.winStart call.winEnd ≠ [],
    call.fetch (localDayStartUtc clock ((missingDays cache call.winStart call.winEnd).head some))
      (localDayStartUtc clock ((missingDays cache call.winStart call.winEnd).getLast some + 2)) = none

instance (call : Call) (cache : DayCache) : Decidable (Fails clock call cache) :=
  if some : missingDays cache call.winStart call.winEnd ≠ [] then
    decidable_of_iff (call.fetch _ _ = none) ⟨fun failed => ⟨some, failed⟩, fun ⟨_, failed⟩ => failed⟩
  else .isFalse fun ⟨missing, _⟩ => some missing

def ensureCall (cache : DayCache) (call : Call) : DayCache :=
  ensureVoucherDays floats fallbackPrice clock call.fetch call.winStart call.winEnd cache

/-- The cache after some calls since the boot. -/
def cacheAfter (calls : List Call) : DayCache := calls.foldl (ensureCall floats fallbackPrice clock) ∅

end

/-! ## One call -/

section
variable {F : Type} {floats : Floats F} {fallbackPrice : Int} {clock : LocalClock} {controller : Controller clock}
  {cache : DayCache} {call : Call} {day : Int}

theorem mem_missingDays {winStart winEnd : Int} :
    day ∈ missingDays cache winStart winEnd ↔ winStart ≤ day ∧ day < winEnd ∧ day ∉ cache := by
  simp [missingDays, Int.mem_range_iff, and_assoc]

theorem missingDays_sorted (cache : DayCache) (winStart winEnd : Int) :
    (missingDays cache winStart winEnd).Pairwise (· ≤ ·) := by
  refine List.Pairwise.filter _ (List.pairwise_map.mpr ?_)
  refine List.pairwise_lt_range.imp ?_
  intro before after order
  omega

theorem bucketDay_stamped {b : Bucket} (stamped : b.time = 1000 * localDayStartUtc clock (day + 1)) :
    bucketDay clock b = day := by
  have order := (localDayStartUtc_lt_iff clock).mpr (Int.lt_succ day)
  rw [bucketDay, stamped, Int.mul_tdiv_cancel_left _ (by decide), localDayNum_iff]
  omega

/-- The buckets of a stamped list that represent a day are those stamped at its end. -/
theorem filter_bucketDay {buckets : List Bucket}
    (stamped : ∀ b ∈ buckets, ∃ day, b.time = 1000 * localDayStartUtc clock (day + 1)) (day : Int) :
    (buckets.filter fun b => bucketDay clock b = day) =
      buckets.filter fun b => b.time = 1000 * localDayStartUtc clock (day + 1) := by
  refine List.filter_congr fun b inside => ?_
  obtain ⟨own, time⟩ := stamped b inside
  rw [bucketDay_stamped time, decide_eq_decide]
  constructor
  · rintro rfl
    exact time
  · intro same
    exact (bucketDay_stamped time).symm.trans (bucketDay_stamped same)

theorem foldl_addBucket (missing : List Int) (buckets : List Bucket) (cache : DayCache) :
    buckets.foldl (addBucket floats fallbackPrice clock missing) cache =
      ((buckets.filter fun b => bucketDay clock b ∈ missing).map fun b =>
        (bucketDay clock b, bucketAmounts floats fallbackPrice b)).foldl add cache := by
  rw [List.foldl_map, List.foldl_filter]
  congr 1
  funext cache b
  simp [addBucket]

/-- What is added up under a missing day. -/
theorem sumOf_buckets {missing : List Int} (buckets : List Bucket) (inside : day ∈ missing) :
    sumOf day ((buckets.filter fun b => bucketDay clock b ∈ missing).map fun b =>
      (bucketDay clock b, bucketAmounts floats fallbackPrice b)) =
      ((buckets.filter fun b => bucketDay clock b = day).map (bucketAmounts floats fallbackPrice)).sum := by
  rw [sumOf, List.filter_map, List.map_map, List.filter_filter]
  congr 2
  refine List.filter_congr fun b _ => ?_
  by_cases same : bucketDay clock b = day
  · simp [same, inside]
  · simp [same]

theorem touch_eq (missing : List Int) (cache : DayCache) :
    missing.foldl (fun cache d => add cache (d, 0)) cache =
      (missing.map fun d => (d, (0 : Int × Int))).foldl add cache := List.foldl_map.symm

theorem sumOf_touch (missing : List Int) (day : Int) : sumOf day (missing.map fun d => (d, (0 : Int × Int))) = 0 := by
  rw [sumOf, List.filter_map, List.map_map]
  exact List.sum_eq_zero fun amount inside => by
    obtain ⟨d, -, rfl⟩ := List.mem_map.mp inside
    rfl

theorem lookup_of_mem {table : DayCache} (there : day ∈ table) : table.lookup day = some (total table day) := by
  obtain ⟨value, found⟩ := Option.isSome_iff_exists.mp (AList.lookup_isSome.mpr there)
  rw [total, found, Option.getD_some]

theorem lookup_congr {table other : DayCache} (same : day ∈ table ↔ day ∈ other)
    (equal : total table day = total other day) : table.lookup day = other.lookup day := by
  by_cases there : day ∈ table
  · rw [lookup_of_mem there, lookup_of_mem (same.mp there), equal]
  · rw [AList.lookup_eq_none.mpr there, AList.lookup_eq_none.mpr (mt same.mpr there)]

/-- A document with the buckets of the missing days fills them in. -/
theorem lookup_filled {hist : History} {missing : List Int} (absent : ∀ day ∈ missing, day ∉ cache)
    (stamped : ∀ b ∈ voucherBuckets hist, ∃ day, b.time = 1000 * localDayStartUtc clock (day + 1))
    (complete : ∀ day ∈ missing, ((voucherBuckets hist).filter fun b =>
      b.time = 1000 * localDayStartUtc clock (day + 1)).Perm (controller.buckets day)) (day : Int) :
    ((voucherBuckets hist).foldl (addBucket floats fallbackPrice clock missing)
        (missing.foldl (fun cache d => add cache (d, 0)) cache)).lookup day =
      if day ∈ missing then some (dayTotals floats fallbackPrice clock controller day) else cache.lookup day := by
  rw [foldl_addBucket, touch_eq, ← List.foldl_append]
  split
  · next inside =>
    rw [lookup_of_mem, total_foldl_add, sumOf_append, sumOf_touch, sumOf_buckets _ inside, filter_bucketDay stamped,
      total, AList.lookup_eq_none.mpr (absent day inside), Option.getD_none, zero_add, zero_add, dayTotals]
    · exact congrArg some ((complete day inside).map _).sum_eq
    · exact (mem_foldl_add _ _ _).mpr (.inr ⟨(day, 0), by simp [inside], rfl⟩)
  · next outside =>
    have none_ : ∀ entry ∈ missing.map (fun d => (d, (0 : Int × Int))) ++
        ((voucherBuckets hist).filter fun b => bucketDay clock b ∈ missing).map fun b =>
          (bucketDay clock b, bucketAmounts floats fallbackPrice b), entry.1 ≠ day := by
      intro entry inside same
      rcases List.mem_append.mp inside with touched | added
      · obtain ⟨d, known, rfl⟩ := List.mem_map.mp touched
        exact outside (same ▸ known)
      · obtain ⟨b, known, rfl⟩ := List.mem_map.mp added
        exact outside (same ▸ by simpa using (List.mem_filter.mp known).2)
    refine lookup_congr ?_ ?_
    · rw [mem_foldl_add]
      refine or_iff_left ?_
      rintro ⟨entry, inside, same⟩
      exact none_ entry inside same
    · rw [total_foldl_add, sumOf, List.filter_eq_nil_iff.mpr fun entry inside => by simpa using none_ entry inside,
        List.map_nil, List.sum_nil, add_zero]

/-- The days that a call fills in have the controller's totals, and no other changes. -/
theorem lookup_ensureVoucherDays (honest : Honest clock controller call) (day : Int) :
    (ensureCall floats fallbackPrice clock cache call).lookup day =
      if day ∈ missingDays cache call.winStart call.winEnd ∧ ¬ Fails clock call cache then
        some (dayTotals floats fallbackPrice clock controller day)
      else cache.lookup day := by
  unfold ensureCall ensureVoucherDays
  by_cases some : missingDays cache call.winStart call.winEnd ≠ []
  · simp only [dif_pos some]
    split
    · next failed =>
      have fails : Fails clock call cache := ⟨some, failed⟩
      simp [fails]
    · next hist fetched =>
      have succeeds : ¬ Fails clock call cache := fun ⟨_, failed⟩ => by simp [fetched] at failed
      obtain ⟨stamped, complete⟩ := honest.answers _ _ _ fetched
      simp only [succeeds, not_false_eq_true, and_true]
      refine lookup_filled (fun day inside => (mem_missingDays.mp inside).2.2) stamped ?_ day
      intro day inside
      have first := (missingDays_sorted cache call.winStart call.winEnd).rel_head inside
      have last := (missingDays_sorted cache call.winStart call.winEnd).rel_getLast inside
      have past := (mem_missingDays.mp inside).2.1
      have before := honest.past
      refine complete day (by omega) ?_ ?_
      · exact (localDayStartUtc_lt_iff clock).mpr (by omega)
      · exact (localDayStartUtc_lt_iff clock).mpr (by omega)
  · have nothing : ¬ day ∈ missingDays cache call.winStart call.winEnd := by
      rw [not_not.mp some]
      exact List.not_mem_nil
    simp only [dif_neg some, nothing, false_and, if_false]

/-- A call that fails changes nothing. -/
theorem ensureCall_of_fails (fails : Fails clock call cache) :
    ensureCall floats fallbackPrice clock cache call = cache := by
  obtain ⟨some, failed⟩ := fails
  simp [ensureCall, ensureVoucherDays, dif_pos some, failed]

theorem mem_ensureCall (honest : Honest clock controller call) :
    day ∈ ensureCall floats fallbackPrice clock cache call ↔
      day ∈ cache ∨ (day ∈ missingDays cache call.winStart call.winEnd ∧ ¬ Fails clock call cache) := by
  rw [← AList.lookup_isSome, lookup_ensureVoucherDays honest, ← AList.lookup_isSome]
  split
  · next filled => simp [filled]
  · next other => simp [other]

/-! ## Any calls -/

/-- The cached days have the controller's totals. -/
def Cached (floats : Floats F) (fallbackPrice : Int) (controller : Controller clock) (cache : DayCache) : Prop :=
  ∀ day totals, cache.lookup day = some totals → totals = dayTotals floats fallbackPrice clock controller day

theorem cached_ensureCall (honest : Honest clock controller call) (cached : Cached floats fallbackPrice controller cache) :
    Cached floats fallbackPrice controller (ensureCall floats fallbackPrice clock cache call) := by
  intro day totals found
  rw [lookup_ensureVoucherDays honest] at found
  split at found
  · exact (Option.some.inj found).symm
  · exact cached day totals found

/-- What calls keep from the empty cache on. -/
theorem cached_cacheAfter {calls : List Call} (honest : ∀ call ∈ calls, Honest clock controller call) :
    Cached floats fallbackPrice controller (cacheAfter floats fallbackPrice clock calls) := by
  induction calls using List.reverseRecOn with
  | nil => exact fun day totals found => by cases found
  | append_singleton calls call ih =>
    rw [cacheAfter, List.foldl_append]
    have before := ih fun other inside => honest other (List.mem_append_left _ inside)
    exact cached_ensureCall (honest call (by simp)) before

/-- No call loses a day. -/
theorem mem_foldl_ensureCall {calls : List Call} (honest : ∀ call ∈ calls, Honest clock controller call)
    (there : day ∈ cache) : day ∈ calls.foldl (ensureCall floats fallbackPrice clock) cache := by
  induction calls generalizing cache with
  | nil => exact there
  | cons call rest ih =>
    obtain ⟨here, later⟩ := List.forall_mem_cons.mp honest
    exact ih later ((mem_ensureCall here).mpr (.inl there))

/-- The days that are cached have the controller's totals after any calls; a call that
    fails leaves the cache as it is, and one that does not has its window cached from
    then on. -/
theorem day_cache_totals {calls : List Call} (honest : ∀ call ∈ calls, Honest clock controller call) :
    Cached floats fallbackPrice controller (cacheAfter floats fallbackPrice clock calls) ∧
      ∀ before call after, calls = before ++ call :: after →
        (Fails clock call (cacheAfter floats fallbackPrice clock before) →
          cacheAfter floats fallbackPrice clock (before ++ [call]) = cacheAfter floats fallbackPrice clock before) ∧
        (¬ Fails clock call (cacheAfter floats fallbackPrice clock before) →
          ∀ day, call.winStart ≤ day → day < call.winEnd → day ∈ cacheAfter floats fallbackPrice clock calls) := by
  refine ⟨cached_cacheAfter honest, ?_⟩
  rintro before call after rfl
  have snoc : cacheAfter floats fallbackPrice clock (before ++ [call]) =
      ensureCall floats fallbackPrice clock (cacheAfter floats fallbackPrice clock before) call := by
    rw [cacheAfter, List.foldl_append]
    rfl
  constructor
  · intro fails
    rw [snoc, ensureCall_of_fails fails]
  · intro succeeds day first last
    have here : day ∈ cacheAfter floats fallbackPrice clock (before ++ [call]) := by
      rw [snoc, mem_ensureCall (honest call (by simp)), mem_missingDays]
      by_cases known : day ∈ cacheAfter floats fallbackPrice clock before
      · exact .inl known
      · exact .inr ⟨⟨first, last, known⟩, succeeds⟩
    have later : ∀ other ∈ after, Honest clock controller other :=
      fun other inside => honest other (by simp [inside])
    rw [List.append_cons, cacheAfter, List.foldl_append]
    exact mem_foldl_ensureCall later here

end

/-! ## Two windows that overlap -/

/-- The floating-point numbers of amounts that are whole. -/
def wholeFloats : Floats Int where
  atof text := TextLines.digits 0 text
  ofInt n := n
  IsZero n := n = 0
  truncate n := n

def manila : LocalClock := fixedClock 28800

section
variable (sold : Int)

/-- Vouchers of two prices on one day, one of them without an amount. -/
def soldBuckets : List Bucket :=
  [{ time := 1000 * localDayStartUtc manila (sold + 1), count := 3, amount := some "15.00".toList },
    { time := 1000 * localDayStartUtc manila (sold + 1), count := 2, amount := none }]

theorem soldBuckets_stamped {b : Bucket} (inside : b ∈ soldBuckets sold) :
    b.time = 1000 * localDayStartUtc manila (sold + 1) := by
  simp only [soldBuckets, List.mem_cons, List.not_mem_nil, or_false] at inside
  rcases inside with rfl | rfl <;> rfl

def soldController : Controller manila where
  buckets day := if day = sold then soldBuckets sold else []
  stamped day b inside := by
    split at inside
    · next same =>
      rw [same]
      exact soldBuckets_stamped sold inside
    · cases inside

/-- The history of a range. -/
def soldHistory (start stop : Int) : Option History :=
  let stamp := localDayStartUtc manila (sold + 1)
  some { usage := none, data := some (if start < stamp ∧ stamp < stop then soldBuckets sold else []) }

theorem soldHistory_answers (today : Int) {start stop : Int} {doc : History}
    (answered : soldHistory sold start stop = some doc) :
    Answers manila (soldController sold) today start stop doc := by
  obtain rfl := Option.some.inj answered
  have stamped : ∀ b ∈ voucherBuckets (Option.get (soldHistory sold start stop) rfl),
      b.time = 1000 * localDayStartUtc manila (sold + 1) := by
    intro b inside
    simp only [soldHistory, Option.get_some, voucherBuckets, Option.none_or, Option.getD_some] at inside
    split at inside
    · exact soldBuckets_stamped sold inside
    · cases inside
  refine ⟨fun b inside => ⟨sold, stamped b inside⟩, ?_⟩
  intro day _ after before
  by_cases same : day = sold
  · subst same
    rw [List.filter_eq_self.mpr fun b inside => by simpa using stamped b inside]
    simp [voucherBuckets, soldController, after, before]
  · rw [List.filter_eq_nil_iff.mpr]
    · simp [soldController, same]
    · intro b inside own
      have here : bucketDay manila b = sold := bucketDay_stamped (stamped b inside)
      exact same ((bucketDay_stamped (by simpa using own)).symm.trans here)

def soldCall (today winStart winEnd : Int) : Call where
  today := today
  winStart := winStart
  winEnd := winEnd
  fetch := soldHistory sold

theorem soldCall_honest {today winStart winEnd : Int} (past : winEnd ≤ today) :
    Honest manila (soldController sold) (soldCall sold today winStart winEnd) :=
  ⟨past, fun _ _ _ => soldHistory_answers sold today⟩

end

def failedCall : Call where
  today := 20010
  winStart := 19999
  winEnd := 20003
  fetch _ _ := none

def overlapping : List Call := [failedCall, soldCall 20000 20010 19995 20002, soldCall 20000 20012 19998 20010]

theorem day_cache_overlapping :
    Cached wholeFloats 5 (soldController 20000) (cacheAfter wholeFloats 5 manila overlapping) ∧
      20000 ∈ cacheAfter wholeFloats 5 manila overlapping ∧
      dayTotals wholeFloats 5 manila (soldController 20000) 20000 = (5, 25) := by
  have honest : ∀ call ∈ overlapping, Honest manila (soldController 20000) call := by
    simp only [overlapping, List.forall_mem_cons]
    exact ⟨⟨by decide, fun _ _ _ failed => by cases failed⟩, soldCall_honest _ (by decide), soldCall_honest _ (by decide),
      List.forall_mem_nil _⟩
  obtain ⟨cached, each⟩ := @day_cache_totals Int wholeFloats 5 manila (soldController 20000) overlapping honest
  refine ⟨cached, ?_, by decide⟩
  exact (each [failedCall] (soldCall 20000 20010 19995 20002) [soldCall 20000 20012 19998 20010] rfl).2
    (fun ⟨_, failed⟩ => by cases failed) 20000 (by decide) (by decide)

end EllaFi.VoucherDays
