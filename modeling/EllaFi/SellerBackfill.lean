import EllaFi.DayArithmetic
import Mathlib.Data.List.Nodup

/-!
The backfill of the sellers' days. An import appends a line for each day that the journal
does not have, with a time from which the sales page reads the day back; the days that it
appends are not added to those it looks for. An import is idempotent exactly when the
payload has no seller twice on a new day, and 2:45 hours after its end each new day is
still followed by the next (`backfill_iff`). The script's payload has each day once
(`idempotent_script`).
-/
namespace EllaFi.SellerBackfill
open EllaFi.LocalDays
open EllaFi.DayArithmetic (long long_eq_some)

/-- A line of `/seller_days.json` that is read, with its `ts | 0`; a time that overflowed is
    none. -/
structure DayLine where
  ts : Option Int
  sellers : List (String × Int)

/-- An element of the payload's `sellerDays`; one without a day has the day 0. The keys of
    an object are distinct. -/
structure Entry where
  day : Int
  sellers : List (String × Int)
  distinct : (sellers.map (·.1)).Nodup

section
variable (zone : TimeZone) (mktime : Tm → Int)

/-- The day that a line covers: the one before its time. -/
def lineDay (line : DayLine) : Option Int := line.ts.map fun ts => localDayNum zone ts - 1

def journalDays (journal : List DayLine) : List Int := journal.filterMap (lineDay zone)

/-- The start of a local day, from the library's function for local times. -/
def dayStart (dayNum : Int) : Option Int := (long (dayNum * 86400)).map fun midnight => mktime (gmtime midnight)

/-- 2:45 hours after a day has ended. -/
def backfillTs (day : Int) : Option Int := (dayStart mktime (day + 1)).bind fun start => long (start + 9900)

def backfillLine (e : Entry) : DayLine := { ts := backfillTs mktime e.day, sellers := e.sellers }

/-- The elements of the payload that are not passed over. -/
def newEntries (journal : List DayLine) (payload : List Entry) : List Entry :=
  payload.filter fun e => ¬ (e.day ≤ 0 ∨ e.day ∈ journalDays zone journal)

/-- The journal, and how many days were added; nothing where the file does not open. -/
def handleAdminMoneyImport (opens : Bool) (payload : List Entry) (journal : List DayLine) : List DayLine × Nat :=
  if opens then
    (journal ++ (newEntries zone journal payload).map (backfillLine mktime), (newEntries zone journal payload).length)
  else (journal, 0)

/-- The days and sellers that an import adds. -/
def addedSellers (journal : List DayLine) (payload : List Entry) : List (Int × String) :=
  (newEntries zone journal payload).flatMap fun e => e.sellers.map fun seller => (e.day, seller.1)

/-- What an import keeps to. -/
structure Idempotent (payload : List Entry) (journal : List DayLine) : Prop where
  once : (addedSellers zone journal payload).Nodup
  fresh : ∀ added ∈ addedSellers zone journal payload, added.1 ∉ journalDays zone journal
  again : ∀ opens, (handleAdminMoneyImport zone mktime opens payload
    (handleAdminMoneyImport zone mktime true payload journal).1).2 = 0
  back : ∀ e ∈ newEntries zone journal payload, lineDay zone (backfillLine mktime e) = some e.day

/-! ## When an import is idempotent -/

/-- No seller is in two elements for one day. -/
def Apart (e other : Entry) : Prop := e.day = other.day → ∀ seller ∈ e.sellers, seller.1 ∉ other.sellers.map (·.1)

/-- The times of the day fit, and 2:45 hours after its end the local clock shows the day
    after it. -/
structure Lands (day : Int) : Prop where
  fits : (day + 1) * 86400 < 2147483648
  ends : -2147483648 ≤ mktime (gmtime ((day + 1) * 86400)) + 9900 ∧ mktime (gmtime ((day + 1) * 86400)) + 9900 < 2147483648
  follows : 86400 * (day + 1) ≤ zone.reading (mktime (gmtime ((day + 1) * 86400)) + 9900) ∧
    zone.reading (mktime (gmtime ((day + 1) * 86400)) + 9900) < 86400 * (day + 2)

variable {zone mktime} {journal : List DayLine} {payload : List Entry} {e : Entry}

theorem mem_newEntries : e ∈ newEntries zone journal payload ↔ e ∈ payload ∧ 0 < e.day ∧ e.day ∉ journalDays zone journal := by
  simp [newEntries]

/-- A new day is read back exactly when its line's time lands in the day after it. -/
theorem lineDay_iff (positive : 0 < e.day) : lineDay zone (backfillLine mktime e) = some e.day ↔ Lands zone mktime e.day := by
  simp only [lineDay, backfillLine, backfillTs, dayStart, Option.map_eq_some_iff, Option.bind_eq_some_iff, long_eq_some,
    localDayNum_eq]
  constructor
  · rintro ⟨ts, ⟨start, ⟨midnight, ⟨fits, rfl⟩, rfl⟩, ends, rfl⟩, own⟩
    exact ⟨fits.2, ends, by omega⟩
  · rintro ⟨fits, ends, follows⟩
    exact ⟨_, ⟨_, ⟨_, ⟨⟨by omega, fits⟩, rfl⟩, rfl⟩, ends, rfl⟩, by omega⟩

theorem nodup_addedSellers : (addedSellers zone journal payload).Nodup ↔ (newEntries zone journal payload).Pairwise Apart := by
  rw [addedSellers, List.nodup_flatMap]
  have own : ∀ e ∈ newEntries zone journal payload, (e.sellers.map fun seller => (e.day, seller.1)).Nodup := by
    intro e _
    have pairs := e.distinct.map (Prod.mk_right_injective e.day)
    rwa [List.map_map] at pairs
  refine ⟨fun distinct => distinct.2.imp ?_, fun distinct => ⟨own, distinct.imp ?_⟩⟩
  · intro e other disjoint same seller inside twice
    obtain ⟨again, there, name⟩ := List.mem_map.mp twice
    refine disjoint (List.mem_map_of_mem inside) (List.mem_map.mpr ⟨again, there, ?_⟩)
    rw [name, same]
  · intro e other apart pair first second
    obtain ⟨seller, inside, rfl⟩ := List.mem_map.mp first
    obtain ⟨again, there, equal⟩ := List.mem_map.mp second
    obtain ⟨same, name⟩ := Prod.mk.inj equal
    exact apart same.symm seller inside (List.mem_map.mpr ⟨again, there, name⟩)

/-- Once its lines are read back, an import finds nothing new in the same payload. -/
theorem newEntries_again (back : ∀ e ∈ newEntries zone journal payload, lineDay zone (backfillLine mktime e) = some e.day) :
    newEntries zone (handleAdminMoneyImport zone mktime true payload journal).1 payload = [] := by
  refine List.eq_nil_iff_forall_not_mem.mpr fun e inside => ?_
  obtain ⟨listed, positive, fresh⟩ := mem_newEntries.mp inside
  simp only [handleAdminMoneyImport, if_true, journalDays, List.filterMap_append, List.mem_append, not_or] at fresh
  have added : e ∈ newEntries zone journal payload := mem_newEntries.mpr ⟨listed, positive, fresh.1⟩
  exact fresh.2 (List.mem_filterMap.mpr ⟨_, List.mem_map_of_mem added, back e added⟩)

theorem idempotent_of (apart : (newEntries zone journal payload).Pairwise Apart)
    (lands : ∀ e ∈ newEntries zone journal payload, Lands zone mktime e.day) : Idempotent zone mktime payload journal := by
  have back : ∀ e ∈ newEntries zone journal payload, lineDay zone (backfillLine mktime e) = some e.day :=
    fun e inside => (lineDay_iff (mem_newEntries.mp inside).2.1).mpr (lands e inside)
  refine ⟨nodup_addedSellers.mpr apart, ?_, ?_, back⟩
  · intro added inside
    obtain ⟨e, new, own⟩ := List.mem_flatMap.mp inside
    obtain ⟨seller, -, rfl⟩ := List.mem_map.mp own
    exact (mem_newEntries.mp new).2.2
  · intro opens
    cases opens with
    | false => rfl
    | true =>
      rw [handleAdminMoneyImport, if_pos rfl, newEntries_again back]
      rfl

theorem backfill_iff (zone : TimeZone) (mktime : Tm → Int) (payload : List Entry) (journal : List DayLine) :
    Idempotent zone mktime payload journal ↔
      (newEntries zone journal payload).Pairwise Apart ∧ ∀ e ∈ newEntries zone journal payload, Lands zone mktime e.day := by
  constructor
  · intro idempotent
    refine ⟨nodup_addedSellers.mp idempotent.once, fun e inside => ?_⟩
    exact (lineDay_iff (mem_newEntries.mp inside).2.1).mp (idempotent.back e inside)
  · rintro ⟨apart, lands⟩
    exact idempotent_of apart lands

end

/-! ## Payloads with one element a day -/

/-- The script's payload has the sellers of a day in one element. -/
theorem pairwise_apart {zone : TimeZone} {journal : List DayLine} {payload : List Entry}
    (distinct : (payload.map (·.day)).Nodup) : (newEntries zone journal payload).Pairwise Apart := by
  have days : payload.Pairwise fun e other => e.day ≠ other.day := List.pairwise_map.mp distinct
  exact (days.filter _).imp fun differ same => absurd same differ

/-- A zone of a fixed offset reads the time back until the times no longer fit. -/
theorem lands_fixedZone {seconds day : Int} (offset : |seconds| ≤ 86400) (positive : 0 < day)
    (fits : (day + 3) * 86400 < 2147483648) : Lands (fixedZone seconds) (fixedClock seconds).mktime day := by
  have near := abs_le.mp offset
  have start : (fixedClock seconds).mktime (gmtime ((day + 1) * 86400)) = 86400 * (day + 1) - seconds :=
    (midnight_iff (fixedClock seconds)).mp (fixedZone_midnight.mpr rfl)
  refine ⟨by omega, ?_, ?_⟩
  · rw [start]
    omega
  · rw [start, fixedZone_reading]
    omega

theorem idempotent_script {seconds : Int} (offset : |seconds| ≤ 86400) {journal : List DayLine} {payload : List Entry}
    (distinct : (payload.map (·.day)).Nodup) (fits : ∀ e ∈ payload, (e.day + 3) * 86400 < 2147483648) :
    Idempotent (fixedZone seconds) (fixedClock seconds).mktime payload journal := by
  refine idempotent_of (pairwise_apart distinct) fun e new => ?_
  obtain ⟨listed, positive, -⟩ := mem_newEntries.mp new
  exact lands_fixedZone offset positive (fits e listed)

/-- A day's seller. -/
def kano : Entry where
  day := 20000
  sellers := [("KANO", 25)]
  distinct := List.nodup_singleton _

/-- Both elements of the payload are added. -/
theorem backfill_twice : ¬ Idempotent (fixedZone 28800) (fixedClock 28800).mktime [kano, kano] [] := by
  intro idempotent
  have apart := nodup_addedSellers.mp idempotent.once
  exact (List.pairwise_cons.mp apart).1 kano (List.mem_singleton.mpr rfl) rfl ("KANO", 25)
    (List.mem_singleton.mpr rfl) (List.mem_singleton.mpr rfl)

end EllaFi.SellerBackfill
