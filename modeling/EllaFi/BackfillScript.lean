import EllaFi.Attribution
import EllaFi.SellerBackfill
import EllaFi.Totals
import Mathlib.Data.List.Sort

/-!
The script that fills in the sellers' days before the device began to write them down. A
code is sold when it is first used; the script adds up the prices for each day and seller,
and sends the days that are over to the device, which passes over those that its journal
has. After that the journal shows, for each day that was missing, what each seller's codes
first used on that local day cost together, and what it showed before for every other day
(`pesos_backfilled`).
-/
namespace EllaFi.BackfillScript
open EllaFi.Attribution (sellerIn restOf)
open EllaFi.LocalDays
open EllaFi.MoneyStore (IsAutogen)
open EllaFi.SellerBackfill
open EllaFi.Totals

/-! ## The script -/

/-- A group of the archive, as far as it is read. -/
structure Group where
  name : String
  /-- None where the description cannot be read or has none. -/
  price : Option Int
  /-- The milliseconds at which the codes were first used, 0 for those that were not. -/
  startTimes : List Int

/-- A code that was used: the local day, the seller and the price. -/
structure Sale where
  day : Int
  seller : String
  pesos : Int
deriving DecidableEq

def tzOffset : Int := 8 * 3600

/-- The day of a time in milliseconds. -/
def dayOf (ms : Int) : Int := (ms + 1000 * tzOffset) / 86400000

def Group.seller (g : Group) : String := String.ofList (sellerIn id (restOf g.name))

/-- The codes of a group that are counted. -/
def Group.sales (today : Int) (g : Group) : List Sale :=
  if IsAutogen g.name then
    ((g.startTimes.filter (0 < ·)).map fun st => { day := dayOf st, seller := g.seller, pesos := g.price.getD 5 }).filter
      (·.day < today)
  else []

abbrev SellerDays : Type := Table Int (Table String Int)

def credit (sellerDays : SellerDays) (sale : Sale) : SellerDays :=
  sellerDays.insert sale.day (add ((sellerDays.lookup sale.day).getD ∅) (sale.seller, sale.pesos))

def salesOf (today : Int) (archive : List Group) : List Sale := archive.flatMap (Group.sales today)

def sellerDays (today : Int) (archive : List Group) : SellerDays := (salesOf today archive).foldl credit ∅

theorem nodup_sellers (sellers : Table String Int) :
    ((sellers.entries.map fun entry => (entry.1, entry.2)).map (·.1)).Nodup := by
  rw [List.map_map]
  exact sellers.nodupKeys

def entryOf (day : Int) (sellers : Table String Int) : Entry where
  day := day
  sellers := sellers.entries.map fun entry => (entry.1, entry.2)
  distinct := nodup_sellers sellers

/-- What is posted, in the order of the days. -/
def payload (today : Int) (archive : List Group) : List Entry :=
  (((sellerDays today archive).entries.mergeSort fun one other => one.1 ≤ other.1).map fun entry => entryOf entry.1 entry.2)

/-! ## What is posted -/

section
variable {today : Int} {archive : List Group}

/-- What the sales of a day bring to a seller. -/
def soldOn (sales : List Sale) (day : Int) (seller : String) : Int :=
  ((sales.filter fun sale => sale.day = day ∧ sale.seller = seller).map (·.pesos)).sum

theorem lookup_credit (sales : List Sale) (day : Int) : (sales.foldl credit ∅).lookup day =
    if ∃ sale ∈ sales, sale.day = day then
      some (((sales.filter fun sale => sale.day = day).map fun sale => (sale.seller, sale.pesos)).foldl add ∅)
    else none := by
  induction sales using List.reverseRecOn with
  | nil => rfl
  | append_singleton sales sale ih =>
    rw [List.foldl_append, List.foldl_cons, List.foldl_nil, credit, lookup_insert_eq, ih]
    by_cases own : day = sale.day
    · subst own
      by_cases before : ∃ other ∈ sales, other.day = sale.day
      · simp [ih, before]
      · have none_ : sales.filter (fun other => other.day = sale.day) = [] := by
          simpa [List.filter_eq_nil_iff] using before
        simp [ih, before, none_]
    · simp [own, Ne.symm own, or_and_right, exists_or]

theorem soldOn_eq (sales : List Sale) (day : Int) (seller : String) :
    soldOn sales day seller = sumOf seller ((sales.filter fun sale => sale.day = day).map fun sale => (sale.seller, sale.pesos)) := by
  simp only [soldOn, sumOf, List.filter_map, List.map_map, List.filter_filter]
  congr 2
  refine List.filter_congr fun sale _ => ?_
  simp [Bool.and_comm]

theorem mem_payload {e : Entry} : e ∈ payload today archive ↔
    ∃ day sellers, (sellerDays today archive).lookup day = some sellers ∧ entryOf day sellers = e := by
  simp only [payload, List.mem_map, List.mem_mergeSort, Sigma.exists]
  refine exists_congr fun day => exists_congr fun sellers => and_congr_left fun _ => ?_
  exact AList.mem_lookup_iff.symm

theorem payload_distinct : ((payload today archive).map (·.day)).Nodup := by
  have keys := (sellerDays today archive).nodupKeys
  rw [List.NodupKeys, List.keys] at keys
  rw [payload, List.map_map]
  exact ((List.mergeSort_perm _ _).map _).nodup_iff.mpr keys

/-- The figures of an element are the sums of the sales of its day. -/
theorem sumOf_payload {e : Entry} (posted : e ∈ payload today archive) (seller : String) :
    sumOf seller e.sellers = soldOn (salesOf today archive) e.day seller := by
  obtain ⟨day, sellers, found, rfl⟩ := mem_payload.mp posted
  rw [sellerDays, lookup_credit] at found
  obtain ⟨-, rfl⟩ := Option.ite_none_right_eq_some.mp found |>.imp_right Option.some.inj
  rw [entryOf, sumOf_entries, total_foldl_add, total_empty, zero_add, soldOn_eq]

theorem days_payload {day : Int} : (∃ e ∈ payload today archive, e.day = day) ↔ ∃ sale ∈ salesOf today archive, sale.day = day := by
  have found : (∃ e ∈ payload today archive, e.day = day) ↔ ((sellerDays today archive).lookup day).isSome := by
    rw [Option.isSome_iff_exists]
    constructor
    · rintro ⟨e, posted, rfl⟩
      obtain ⟨day, sellers, found, rfl⟩ := mem_payload.mp posted
      exact ⟨sellers, found⟩
    · rintro ⟨sellers, found⟩
      exact ⟨entryOf day sellers, mem_payload.mpr ⟨day, sellers, found, rfl⟩, rfl⟩
  rw [found, sellerDays, lookup_credit]
  split <;> simp [*]

/-! ## What the journal shows -/

/-- What the lines of a day give a seller. -/
def shownOn (zone : TimeZone) (journal : List DayLine) (day : Int) (seller : String) : Int :=
  ((journal.filter fun line => lineDay zone line = some day).map fun line => sumOf seller line.sellers).sum

theorem shownOn_append (zone : TimeZone) (journal added : List DayLine) (day : Int) (seller : String) :
    shownOn zone (journal ++ added) day seller = shownOn zone journal day seller + shownOn zone added day seller := by
  simp [shownOn]

end

/-- The device keeps the time of UTC+8. -/
def zone : TimeZone := fixedZone tzOffset

def mktime : Tm → Int := (fixedClock tzOffset).mktime

/-- The day of the script is the device's. -/
theorem dayOf_eq (ms : Int) : dayOf ms = localDayNum zone (ms / 1000) := by
  rw [localDayNum_eq, zone, fixedZone_reading, dayOf]
  omega

theorem filter_distinct {Key Item : Type} [DecidableEq Key] {key : Item → Key} {items : List Item}
    (distinct : (items.map key).Nodup) {item : Item} (inside : item ∈ items) :
    (items.filter fun other => key other = key item) = [item] := by
  induction items with
  | nil => cases inside
  | cons first rest ih =>
    obtain ⟨fresh, distinct⟩ := List.nodup_cons.mp distinct
    rcases List.mem_cons.mp inside with rfl | later
    · have none_ : (rest.filter fun other => key other = key item) = [] := by
        refine List.filter_eq_nil_iff.mpr fun other there => ?_
        simpa using fun same : key other = key item => fresh (same ▸ List.mem_map_of_mem there)
      simp [none_]
    · have other : key first ≠ key item := fun same => fresh (same ▸ List.mem_map_of_mem later)
      simp [other, ih distinct later]

section
variable {today : Int} {archive : List Group} {journal : List DayLine}

theorem lands_payload (fits : (today + 2) * 86400 < 2147483648) {e : Entry} (posted : e ∈ payload today archive)
    (positive : 0 < e.day) : lineDay zone (backfillLine mktime e) = some e.day := by
  obtain ⟨sale, sold, same⟩ := days_payload.mp ⟨e, posted, rfl⟩
  obtain ⟨g, -, counted⟩ := List.mem_flatMap.mp sold
  have ended : sale.day < today := by
    unfold Group.sales at counted
    split at counted
    · exact of_decide_eq_true (List.mem_filter.mp counted).2
    · cases counted
  exact (lineDay_iff positive).mpr (lands_fixedZone (by decide) positive (by omega))

/-- The lines that the import adds for a day. -/
theorem shownOn_added (fits : (today + 2) * 86400 < 2147483648) (day : Int) (seller : String) :
    shownOn zone ((newEntries zone journal (payload today archive)).map (backfillLine mktime)) day seller =
      if day ≤ 0 ∨ day ∈ journalDays zone journal then 0 else soldOn (salesOf today archive) day seller := by
  have lines : ((newEntries zone journal (payload today archive)).map (backfillLine mktime)).filter
      (fun line => lineDay zone line = some day) =
      ((newEntries zone journal (payload today archive)).filter (fun e => e.day = day)).map (backfillLine mktime) := by
    rw [List.filter_map]
    congr 1
    refine List.filter_congr fun e new => ?_
    obtain ⟨posted, positive, -⟩ := mem_newEntries.mp new
    simp [lands_payload fits posted positive]
  rw [shownOn, lines, List.map_map]
  split
  · next old =>
    have none_ : (newEntries zone journal (payload today archive)).filter (fun e => e.day = day) = [] := by
      refine List.filter_eq_nil_iff.mpr fun e new => ?_
      obtain ⟨-, positive, fresh⟩ := mem_newEntries.mp new
      simp only [decide_eq_true_eq]
      rintro rfl
      exact old.elim (by omega) fresh
    simp [none_]
  · next new =>
    obtain ⟨positive, fresh⟩ := not_or.mp new
    by_cases sold : ∃ e ∈ payload today archive, e.day = day
    · obtain ⟨e, posted, rfl⟩ := sold
      have member : e ∈ newEntries zone journal (payload today archive) := mem_newEntries.mpr ⟨posted, by omega, fresh⟩
      have distinct : ((newEntries zone journal (payload today archive)).map (·.day)).Nodup :=
        payload_distinct.sublist (List.filter_sublist.map _)
      rw [filter_distinct distinct member]
      simp [backfillLine, sumOf_payload posted]
    · have none_ : (newEntries zone journal (payload today archive)).filter (fun e => e.day = day) = [] := by
        refine List.filter_eq_nil_iff.mpr fun e new => ?_
        simpa using fun same => sold ⟨e, (mem_newEntries.mp new).1, same⟩
      have nothing : (salesOf today archive).filter (fun sale => sale.day = day ∧ sale.seller = seller) = [] := by
        refine List.filter_eq_nil_iff.mpr fun sale inside => ?_
        simp only [decide_eq_true_eq]
        exact fun own => sold (days_payload.mpr ⟨sale, inside, own.1⟩)
      rw [none_, soldOn, nothing]
      rfl

end

/-- After the script has run, a day that the journal did not have shows for each seller what
    the seller's codes cost that were first used on that local day, and every other day what
    it showed before. -/
theorem pesos_backfilled (archive : List Group) (journal : List DayLine) {today : Int} (fits : (today + 2) * 86400 < 2147483648)
    (day : Int) (seller : String) :
    shownOn zone (handleAdminMoneyImport zone mktime true (payload today archive) journal).1 day seller =
      if day ≤ 0 ∨ day ∈ journalDays zone journal then shownOn zone journal day seller
      else soldOn (salesOf today archive) day seller := by
  rw [handleAdminMoneyImport, if_pos rfl, shownOn_append, shownOn_added fits]
  split
  · rw [Int.add_zero]
  · next new =>
    have unseen : journal.filter (fun line => lineDay zone line = some day) = [] := by
      refine List.filter_eq_nil_iff.mpr fun line inside => ?_
      simp only [decide_eq_true_eq]
      exact fun own => (not_or.mp new).2 (List.mem_filterMap.mpr ⟨line, inside, own⟩)
    rw [shownOn, unseen]
    simp

/-- Two sellers' groups; the description of the second cannot be read. -/
def twoGroups : List Group :=
  [{ name := "AUTOGEN: 5 KANO", price := some 20, startTimes := [1700000000000, 0, 1700000100000] },
    { name := "AUTOGEN: 5 INDAY", price := none, startTimes := [1700000000000, 1700100000000] }]

/-- A line without a time, and one of a day on which one of the codes was used. -/
def twoLines : List DayLine := [{ ts := none, sellers := [("KANO", 7)] }, { ts := some 1700160300, sellers := [("INDAY", 15)] }]

theorem pesos_backfilled_kano :
    shownOn zone (handleAdminMoneyImport zone mktime true (payload 19679 twoGroups) twoLines).1 19676 "KANO" = 40 ∧
      shownOn zone (handleAdminMoneyImport zone mktime true (payload 19679 twoGroups) twoLines).1 19677 "INDAY" = 15 := by
  have dated (sellers : List (String × Int)) : lineDay zone { ts := some 1700160300, sellers } = some 19677 := by
    simp [lineDay, localDayNum_eq, zone, fixedZone_reading, tzOffset]
  have undated (sellers : List (String × Int)) : lineDay zone { ts := none, sellers } = none := rfl
  have days : journalDays zone twoLines = [19677] := by simp [journalDays, twoLines, dated, undated]
  constructor
  · rw [pesos_backfilled twoGroups twoLines (by decide), days, if_neg (by decide)]
    decide +kernel
  · rw [pesos_backfilled twoGroups twoLines (by decide), days, if_pos (by decide)]
    simp [shownOn, twoLines, dated, undated, sumOf]

end EllaFi.BackfillScript
