import EllaFi.SalesPage
import EllaFi.SellerJournal

/-!
The sellers' pesos on the sales page. A line of the journal goes into the row of the day
before, and what was redeemed since the last rollup into today's row. In any run of
redemptions, rollups and reboots without a failed append or a reboot before a save, what
the rows have of a seller is all that was redeemed, less what a rollup has taken up while
the page was made (`pesos_shown`).
-/
namespace EllaFi.SellerPesos
open EllaFi.Attribution (autogenSellerPrice)
open EllaFi.JsonDoc (Library)
open EllaFi.LocalDays EllaFi.SalesPage EllaFi.TableSums EllaFi.Totals
open EllaFi.MoneyStore (Money SellerDay VoucherGroup IsAutogen sellerOf moneyGroupUsed purgeOldLogEntries logAgeSeconds)
open EllaFi.Runs (run Throughout throughout_keeps)
open EllaFi.SellerJournal
open EllaFi.TextLines (Text)
open EllaFi.VoucherDays (Floats)

/-! ## What goes into the rows -/

/-- A day that has a row. -/
def HasRow (today day : Int) : Prop := today - 89 ≤ day ∧ day ≤ today

instance (today day : Int) : Decidable (HasRow today day) := inferInstanceAs (Decidable (_ ∧ _))

/-- What the rows have of a seller. -/
def rowPesos (today : Int) (rev : Table Int (Table String Int)) (seller : String) : Int :=
  ∑ i ∈ Finset.range 90, amountIn rev (today - (90 - 1 - i)) seller

/-- What lines of the journal put into the rows. -/
def journalPesos (zone : TimeZone) (today : Int) (seller : String) (lines : List SellerDay) : Int :=
  (lines.map fun line => if HasRow today (localDayNum zone line.ts - 1) then sumOf seller line.sellers else 0).sum

/-- What a group puts into today's row. -/
def growthOf {G : Type} (lib : Library G) (pricePerCoin : Int) (money : Money) (seller : String) (g : Group) : Int :=
  match autogenSellerPrice lib pricePerCoin g.name g.description with
  | none => 0
  | some (own, price) =>
    if moneyGroupUsed money g.id < g.usedCount ∧ own = seller then (g.usedCount - moneyGroupUsed money g.id) * price else 0

section
variable {G : Type} {lib : Library G} {pricePerCoin today : Int} {zone : TimeZone} {rev : Table Int (Table String Int)}
  {seller : String}

theorem rowPesos_addIn {day : Int} (has : HasRow today day) (rev : Table Int (Table String Int)) (kv : String × Int) :
    rowPesos today (addIn rev day kv) seller = rowPesos today rev seller + if kv.1 = seller then kv.2 else 0 := by
  have place (i : Nat) : day = today - (90 - 1 - i) ↔ (day - today + 89).toNat = i := by
    unfold HasRow at has
    omega
  have inside : (day - today + 89).toNat ∈ Finset.range 90 := by
    unfold HasRow at has
    exact Finset.mem_range.mpr (by omega)
  unfold rowPesos
  simp only [amountIn_addIn, Finset.sum_add_distrib, place, ite_and, Finset.sum_ite_eq, if_pos inside]

theorem rowPesos_addLine (rev : Table Int (Table String Int)) (line : SellerDay) :
    rowPesos today (addLine zone today rev line) seller = rowPesos today rev seller +
      if HasRow today (localDayNum zone line.ts - 1) then sumOf seller line.sellers else 0 := by
  unfold addLine
  by_cases has : HasRow today (localDayNum zone line.ts - 1)
  · have shown : ¬ (localDayNum zone line.ts - 1 < today - (90 - 1) ∨ today < localDayNum zone line.ts - 1) := by
      unfold HasRow at has
      omega
    simp only [if_neg shown, if_pos has, sumOf, ← sum_ite]
    exact measure_foldl (fun out => rowPesos today out seller) (fun out kv => rowPesos_addIn has out kv) line.sellers rev
  · have hidden : localDayNum zone line.ts - 1 < today - (90 - 1) ∨ today < localDayNum zone line.ts - 1 := by
      unfold HasRow at has
      omega
    simp only [if_pos hidden, if_neg has, add_zero]

theorem rowPesos_addGrowth (money : Money) (rev : Table Int (Table String Int)) (g : Group) :
    rowPesos today (addGrowth lib pricePerCoin today money rev g) seller =
      rowPesos today rev seller + growthOf lib pricePerCoin money seller g := by
  have today_ : HasRow today today := ⟨by omega, Int.le_refl _⟩
  unfold addGrowth growthOf
  cases autogenSellerPrice lib pricePerCoin g.name g.description with
  | none => exact (add_zero _).symm
  | some attributed =>
    simp only
    by_cases grew : moneyGroupUsed money g.id < g.usedCount
    · rw [if_pos grew, rowPesos_addIn today_]
      simp only [grew, true_and]
    · simp only [grew, false_and, if_false, add_zero]

theorem rowPesos_sellerDayRev (lines : List SellerDay) (money : Money) (groups : List Group) :
    rowPesos today (sellerDayRev lib pricePerCoin zone today lines money (some groups)) seller =
      journalPesos zone today seller lines + (groups.map (growthOf lib pricePerCoin money seller)).sum := by
  have nothing : rowPesos today ∅ seller = 0 := Finset.sum_eq_zero fun _ _ => rfl
  rw [sellerDayRev, Option.getD_some,
    measure_foldl (fun out => rowPesos today out seller) (fun out g => rowPesos_addGrowth money out g),
    measure_foldl (fun out => rowPesos today out seller) (fun out line => rowPesos_addLine out line), nothing, zero_add]
  rfl

end

/-- A group as the page gets it at some counts. -/
def liveGroup (describe : String → Text) (counts : String → Nat) (g : VoucherGroup) : Group where
  id := g.id
  name := g.name
  description := describe g.id
  usedCount := counts g.id

/-- The page gets every group once, as the controller has it, and takes the seller and the
    price for what the rollup takes them for. -/
structure Lists {G : Type} (lib : Library G) (pricePerCoin : Int) (describe : String → Text) (catalogue : List VoucherGroup)
    (counts : String → Nat) (groups : List Group) : Prop where
  listed : groups.Perm (catalogue.map (liveGroup describe counts))
  attributed : ∀ g ∈ catalogue, IsAutogen g.name →
    autogenSellerPrice lib pricePerCoin g.name (describe g.id) = some (sellerOf g.name, g.price)

section
variable {G : Type} {lib : Library G} {pricePerCoin : Int} {describe : String → Text} {catalogue : List VoucherGroup}
  {counts : String → Nat} {groups : List Group} {money : Money} {seller : String}

/-- What was redeemed since the last rollup. -/
theorem growth_eq (lists : Lists lib pricePerCoin describe catalogue counts groups)
    (behind : Behind catalogue counts money) :
    (groups.map (growthOf lib pricePerCoin money seller)).sum =
      owed catalogue (fun id => counts id) seller - ledgerDue catalogue money seller := by
  rw [(lists.listed.map _).sum_eq]
  have attributed := lists.attributed
  clear lists
  unfold ledgerDue
  induction catalogue with
  | nil => rfl
  | cons g rest ih =>
    obtain ⟨own, others⟩ := List.forall_mem_cons.mp attributed
    obtain ⟨older, olderRest⟩ := List.forall_mem_cons.mp behind
    rw [List.map_cons, List.map_cons, List.sum_cons, ih olderRest others, owed_cons, owed_cons]
    have here : growthOf lib pricePerCoin money seller (liveGroup describe counts g) =
        (if IsAutogen g.name ∧ sellerOf g.name = seller then (counts g.id : Int) * g.price else 0) -
          if IsAutogen g.name ∧ sellerOf g.name = seller then moneyGroupUsed money g.id * g.price
          else 0 := by
      unfold growthOf
      by_cases autogen : IsAutogen g.name
      · have taken : autogenSellerPrice lib pricePerCoin (liveGroup describe counts g).name
            (liveGroup describe counts g).description = some (sellerOf g.name, g.price) := own autogen
        rw [taken]
        simp only [liveGroup, autogen, true_and]
        by_cases theirs : sellerOf g.name = seller
        · by_cases grew : moneyGroupUsed money g.id < counts g.id
          · simp only [theirs, grew, and_self, if_true, Int.sub_mul]
          · have same : (counts g.id : Int) = moneyGroupUsed money g.id := by omega
            simp [theirs, same]
        · simp [theirs]
      · have none_ : autogenSellerPrice lib pricePerCoin (liveGroup describe counts g).name
            (liveGroup describe counts g).description = none := if_neg autogen
        rw [none_]
        simp [autogen]
    omega

end

/-! ### Runs of the nights -/

/-- Every append opens, and no reboot comes between a journal entry and the save of its
    ledger. -/
def Careful (s : Night) : Action → Prop
  | .append false => False
  | .cut _ => s.unsaved = []
  | _ => True

instance (s : Night) (action : Action) : Decidable (Careful s action) :=
  match action with
  | .append false => .isFalse id
  | .cut _ => inferInstanceAs (Decidable (s.unsaved = []))
  | .append true | .elapse _ | .redeem .. | .fetch _ | .save _ => .isTrue trivial

/-- The journal and what is about to be written are the growth of the ledger in RAM, and
    of the saved one up to what was written since. -/
structure Settled (catalogue : List VoucherGroup) (first s : Night) : Prop where
  behind : Behind catalogue s.counts s.books.money
  savedBehind : Behind catalogue s.counts s.books.saved
  nonneg : ∀ seller, 0 ≤ pending s.phase seller
  exact_ : ∀ seller, seller ≠ "" → sumOf seller s.written + pending s.phase seller =
    ledgerDue catalogue s.books.money seller - ledgerDue catalogue first.books.money seller
  savedExact : ∀ seller, seller ≠ "" → sumOf seller s.written =
    ledgerDue catalogue s.books.saved seller - ledgerDue catalogue first.books.money seller + sumOf seller s.unsaved

/-- At a later time the journal's file still has for the rows what it had and what was
    written since. -/
def Filed (zone : TimeZone) (now : Nat) (first s : Night) : Prop :=
  first.books.now ≤ s.books.now ∧ (s.books.now ≤ now → ∀ seller,
    journalPesos zone (localDayNum zone now) seller s.books.sellerDays =
      journalPesos zone (localDayNum zone now) seller first.books.sellerDays + sumOf seller s.written)

section
variable {prices : MoneyStore.Prices} {catalogue : List VoucherGroup} {first s next : Night} {action : Action}

theorem start_settled (start : Start catalogue s) : Settled catalogue s s := by
  refine ⟨start.counted, start.saved ▸ start.counted, fun seller => ?_, fun seller _ => ?_, fun seller _ => ?_⟩
  · rw [start.idle, pending]
  · rw [start.idle, start.written, pending]
    simp
  · rw [start.saved, start.written, start.unsaved]
    simp

theorem step_settled (distinct : (catalogue.map (·.id)).Nodup) (positive : ∀ g ∈ catalogue, 0 < g.price)
    (settled : Settled catalogue first s) (careful : Careful s action) (taken : step prices catalogue s action = some next) :
    Settled catalogue first next := by
  cases action with
  | elapse seconds =>
    cases taken
    exact ⟨settled.behind, settled.savedBehind, settled.nonneg, settled.exact_, settled.savedExact⟩
  | redeem id times =>
    cases taken
    exact ⟨behind_redeem settled.behind id times, behind_redeem settled.savedBehind id times,
      settled.nonneg, settled.exact_, settled.savedExact⟩
  | fetch reply =>
    obtain ⟨idle, agrees, rfl⟩ := fetch_some.mp taken
    obtain ⟨behind, nonneg, grown⟩ :=
      @rollupPass_accounted prices _ _ s.books.now _ distinct positive settled.behind _ agrees
    refine ⟨behind, settled.savedBehind, nonneg, fun seller named => ?_, settled.savedExact⟩
    have before := settled.exact_ seller named
    have more := grown seller named
    rw [idle, pending] at before
    simp only [pending]
    omega
  | append opens =>
    obtain ⟨sellerDay, journaling, rfl⟩ := append_some.mp taken
    cases opens with
    | false => exact absurd careful id
    | true =>
      refine ⟨settled.behind, settled.savedBehind, fun _ => Int.le_refl _, fun seller named => ?_, fun seller named => ?_⟩
      · have before := settled.exact_ seller named
        rw [journaling, pending] at before
        simp only [if_true, sumOf_append, sumOf_lineOf, pending]
        omega
      · have before := settled.savedExact seller named
        simp only [if_true, sumOf_append]
        omega
  | save saves =>
    obtain ⟨saving, rfl⟩ := save_some.mp taken
    have here (seller : String) (named : seller ≠ "") : sumOf seller s.written =
        ledgerDue catalogue s.books.money seller - ledgerDue catalogue first.books.money seller := by
      have before := settled.exact_ seller named
      rw [saving, pending] at before
      omega
    refine ⟨settled.behind, ?_, fun _ => Int.le_refl _, fun seller named => ?_, ?_⟩
    · cases saves with
      | true => exact settled.behind
      | false => exact settled.savedBehind
    · simpa [pending] using here seller named
    · cases saves with
      | true =>
        intro seller named
        simpa using here seller named
      | false => exact settled.savedExact
  | cut opens =>
    cases taken
    have none_ : s.unsaved = [] := careful
    refine ⟨settled.savedBehind, settled.savedBehind, fun _ => Int.le_refl _, fun seller named => ?_, fun seller named => ?_⟩
    · have before := settled.savedExact seller named
      rw [none_] at before
      simpa [pending, MoneyStore.boot] using before
    · have before := settled.savedExact seller named
      rwa [none_] at before

theorem step_now (taken : step prices catalogue s action = some next) : s.books.now ≤ next.books.now := by
  cases action with
  | elapse seconds =>
    cases taken
    exact Nat.le_add_right _ _
  | redeem id times =>
    cases taken
    exact Nat.le_refl _
  | fetch reply =>
    obtain ⟨-, -, rfl⟩ := fetch_some.mp taken
    exact Nat.le_refl _
  | append opens =>
    obtain ⟨sellerDay, -, rfl⟩ := append_some.mp taken
    exact Nat.le_refl _
  | save saves =>
    obtain ⟨-, rfl⟩ := save_some.mp taken
    exact Nat.le_refl _
  | cut opens =>
    cases taken
    exact Nat.le_refl _

variable {clock : LocalClock} {now : Nat} {seller : String}

/-- A boot purges nothing that a row has. -/
theorem journalPesos_purge (near : clock.bound ≤ 86400) {booted : Nat} (earlier : booted ≤ now) (opens : Bool)
    (lines : List SellerDay) :
    journalPesos clock.toTimeZone (localDayNum clock.toTimeZone now) seller
        (purgeOldLogEntries SellerDay.ts opens booted logAgeSeconds 0 lines) =
      journalPesos clock.toTimeZone (localDayNum clock.toTimeZone now) seller lines := by
  have recent : ∀ line : SellerDay, HasRow (localDayNum clock.toTimeZone now) (localDayNum clock.toTimeZone line.ts - 1) →
      booted ≤ line.ts + logAgeSeconds := by
    rintro line ⟨late, -⟩
    have ago := @ago_le clock now near line.ts 89 (by omega)
    show booted ≤ line.ts + 365 * 86400
    omega
  rw [journalPesos, sum_ite, filter_purge recent, ← sum_ite, journalPesos]

/-- A line that is written now will have a row. -/
theorem journalPesos_append {first : Night} (started : first.books.now ≤ s.books.now) (earlier : s.books.now ≤ now)
    (short : localDayNum clock.toTimeZone now ≤ localDayNum clock.toTimeZone first.books.now + 88)
    (sellerDay : Table String Int) (lines : List SellerDay) :
    journalPesos clock.toTimeZone (localDayNum clock.toTimeZone now) seller
        (MoneyStore.journal true s.books.now sellerDay lines) =
      journalPesos clock.toTimeZone (localDayNum clock.toTimeZone now) seller lines +
        sumOf seller (lineOf sellerDay) := by
  have before := localDayNum_mono clock (show (first.books.now : Int) ≤ s.books.now by omega)
  have after := localDayNum_mono clock (show (s.books.now : Int) ≤ now by omega)
  have has : HasRow (localDayNum clock.toTimeZone now) (localDayNum clock.toTimeZone s.books.now - 1) :=
    ⟨by omega, by omega⟩
  unfold MoneyStore.journal
  by_cases some_ : sellerDay.entries = []
  · simp [some_, lineOf]
  · simp [some_, journalPesos, has, lineOf]

theorem step_filed (near : clock.bound ≤ 86400)
    (short : localDayNum clock.toTimeZone now ≤ localDayNum clock.toTimeZone first.books.now + 88)
    (filed : Filed clock.toTimeZone now first s) (careful : Careful s action)
    (taken : step prices catalogue s action = some next) : Filed clock.toTimeZone now first next := by
  obtain ⟨started, same⟩ := filed
  have later := step_now taken
  refine ⟨started.trans later, fun earlier seller => ?_⟩
  have before := same (later.trans earlier) seller
  cases action with
  | elapse seconds =>
    cases taken
    exact before
  | redeem id times =>
    cases taken
    exact before
  | fetch reply =>
    obtain ⟨-, -, rfl⟩ := fetch_some.mp taken
    exact before
  | append opens =>
    obtain ⟨sellerDay, -, rfl⟩ := append_some.mp taken
    cases opens with
    | false => exact absurd careful id
    | true =>
      simp only [if_true, sumOf_append, ← Int.add_assoc, ← before]
      exact journalPesos_append started earlier short sellerDay _
  | save saves =>
    obtain ⟨-, rfl⟩ := save_some.mp taken
    exact before
  | cut opens =>
    cases taken
    exact (journalPesos_purge near earlier opens _).trans before

/-- What is written is never less than it was. -/
theorem step_written (settled : Settled catalogue first s) (taken : step prices catalogue s action = some next)
    (seller : String) : sumOf seller s.written ≤ sumOf seller next.written := by
  cases action with
  | elapse seconds =>
    cases taken
    exact Int.le_refl _
  | redeem id times =>
    cases taken
    exact Int.le_refl _
  | fetch reply =>
    obtain ⟨-, -, rfl⟩ := fetch_some.mp taken
    exact Int.le_refl _
  | append opens =>
    obtain ⟨sellerDay, journaling, rfl⟩ := append_some.mp taken
    have nonneg := settled.nonneg seller
    rw [journaling, pending, ← sumOf_lineOf] at nonneg
    cases opens with
    | false => simp
    | true =>
      simp only [if_true, sumOf_append]
      omega
  | save saves =>
    obtain ⟨-, rfl⟩ := save_some.mp taken
    exact Int.le_refl _
  | cut opens =>
    cases taken
    exact Int.le_refl _

end

/-! ### What the page shows of a seller -/

def pesosOfRow (row : DayRow) (seller : String) : Int := sumOf seller (row.sellers.getD [])

def pesosOf (page : Page) (seller : String) : Int := (page.days.map fun row => pesosOfRow row seller).sum

section
variable {F G : Type} {floats : Floats F} {fallbackPrice : Int} {lib : Library G} {pricePerCoin minutesPerCoin : Int}
  {clock : LocalClock} {sources : Sources} {seller : String}

theorem pesosOfRow_eq (i : Nat) : pesosOfRow (sources.dayRow floats fallbackPrice lib pricePerCoin clock i) seller =
    amountIn (sources.sellerRev lib pricePerCoin clock) (sources.dayOf clock i) seller := by
  unfold pesosOfRow amountIn Sources.dayRow
  cases (sources.sellerRev lib pricePerCoin clock).lookup (sources.dayOf clock i) with
  | none => rfl
  | some sellers =>
    have perm := List.mergeSort_perm (sellers.entries.map fun entry => (entry.1, entry.2))
      fun one other => decide (one.1 ≤ other.1)
    exact (((perm.filter _).map _).sum_eq).trans (sumOf_entries sellers seller)

theorem pesosOf_eq :
    pesosOf (handleAdminSales floats fallbackPrice lib pricePerCoin minutesPerCoin clock sources) seller =
      rowPesos (sources.todayDay clock) (sources.sellerRev lib pricePerCoin clock) seller := by
  rw [pesosOf, handleAdminSales, List.map_map, sum_range_list]
  exact Finset.sum_congr rfl fun i _ => pesosOfRow_eq i

variable {prices : MoneyStore.Prices} {catalogue : List VoucherGroup} {describe : String → Text} {groups : List Group}
  {s t last : Night} {before between : List Action}

/-- A page reads the journal at one moment and the ledger and the groups at a later one. -/
structure Reads (clock : LocalClock) (sources : Sources) (groups : List Group) (t last : Night) : Prop where
  now : sources.request.now = t.books.now
  sellerDays : sources.sellerDays = t.books.sellerDays
  money : sources.money = last.books.money
  groups : sources.groups = some groups

/-- What a rollup has taken up since the journal was read. -/
def takenUp (t last : Night) (seller : String) : Int :=
  sumOf seller last.written - sumOf seller t.written + pending last.phase seller

/-- In every run of redemptions, nightly rollups and reboots in which no append fails and
    no reboot comes between a journal entry and the save of its ledger, within 88 days,
    the page shows of a seller what the journal had before, and all that was redeemed,
    less what a rollup is just taking up. -/
theorem pesos_shown (near : clock.bound ≤ 86400) (distinct : (catalogue.map (·.id)).Nodup)
    (positive : ∀ g ∈ catalogue, 0 < g.price) (start : Start catalogue s)
    (careful : Throughout (step prices catalogue) Careful s before) (ran : run (step prices catalogue) s before = some t)
    (carefulBetween : Throughout (step prices catalogue) Careful t between)
    (ranBetween : run (step prices catalogue) t between = some last)
    (short : localDayNum clock.toTimeZone t.books.now ≤ localDayNum clock.toTimeZone s.books.now + 88)
    (reads : Reads clock sources groups t last) (lists : Lists lib pricePerCoin describe catalogue last.counts groups)
    (named : seller ≠ "") :
    pesosOf (handleAdminSales floats fallbackPrice lib pricePerCoin minutesPerCoin clock sources) seller =
        journalPesos clock.toTimeZone (sources.todayDay clock) seller s.books.sellerDays +
          (due catalogue last seller - ledgerDue catalogue s.books.money seller) - takenUp t last seller ∧
      0 ≤ takenUp t last seller := by
  have settled : Settled catalogue s t :=
    throughout_keeps (fun _ _ _ settled careful taken => step_settled distinct positive settled careful taken)
      (start_settled start) careful ran
  have grows (x : Night) (action : Action) (y : Night)
      (both : Settled catalogue s x ∧ sumOf seller t.written ≤ sumOf seller x.written) (careful : Careful x action)
      (taken : step prices catalogue x action = some y) :
      Settled catalogue s y ∧ sumOf seller t.written ≤ sumOf seller y.written :=
    ⟨step_settled distinct positive both.1 careful taken, both.2.trans (step_written both.1 taken seller)⟩
  obtain ⟨settledLast, more⟩ := throughout_keeps grows ⟨settled, Int.le_refl _⟩ carefulBetween ranBetween
  have filed : Filed clock.toTimeZone t.books.now s t :=
    throughout_keeps (fun _ _ _ filed careful taken => step_filed near short filed careful taken)
      ⟨Nat.le_refl _, fun _ seller => by rw [start.written]; simp⟩ careful ran
  have journaled := filed.2 (Nat.le_refl _) seller
  have exact_ := settledLast.exact_ seller named
  have grown := @growth_eq _ _ _ _ _ _ _ _ seller lists settledLast.behind
  have nonneg := settledLast.nonneg seller
  have today : sources.todayDay clock = localDayNum clock.toTimeZone t.books.now := congrArg (localDayNum _) reads.now
  rw [pesosOf_eq, Sources.sellerRev, reads.groups, rowPesos_sellerDayRev, reads.sellerDays, reads.money, today, journaled,
    grown, takenUp]
  refine ⟨?_, by omega⟩
  rw [due]
  omega

end

/-! ### A night and a day -/

def fivePesos : VoucherGroup := { anaGroup with price := 5 }

def listedFive (times : Nat) : Action :=
  .fetch (.body true (some { errorCode := 0, data := [{ fivePesos with usedCount := times }] }))

/-- Three codes are redeemed before a rollup and a reboot, two after it. -/
def nightAndDay : List Action :=
  [.redeem "g1" 3, listedFive 3, .append true, .save true, .cut true, .elapse 3600, .redeem "g1" 2]

/-- The page is asked for when a rollup is about to begin. -/
def lateRollup : List Action := [listedFive 5]

def priceOf (_ : String) : Text := JsonDoc.print Attribution.five

theorem fivePesos_attributed :
    autogenSellerPrice Attribution.fiveLibrary 1 fivePesos.name (priceOf fivePesos.id) = some (sellerOf fivePesos.name, 5) := by
  have autogen : IsAutogen fivePesos.name := by decide
  have read : Attribution.fiveLibrary.deserialize (priceOf fivePesos.id) = some Attribution.five :=
    JsonDoc.read_printing [] (List.forall_mem_nil _)
  have seller : String.ofList (Attribution.sellerIn id (Attribution.restOf fivePesos.name)) = sellerOf fivePesos.name := by
    decide
  rw [autogenSellerPrice, Attribution.attribution, if_pos autogen, seller, Attribution.priceIn, read]
  rfl

def afterwards (s : Night) (actions : List Action) : Night := (run (step noOffset [fivePesos]) s actions).getD s

def dayAfter : Night := afterwards quietNight nightAndDay

def rollupBegun : Night := afterwards dayAfter lateRollup

theorem run_afterwards {s : Night} {actions : List Action} (possible : (run (step noOffset [fivePesos]) s actions).isSome) :
    run (step noOffset [fivePesos]) s actions = some (afterwards s actions) := by
  obtain ⟨last, ran⟩ := Option.isSome_iff_exists.mp possible
  rw [afterwards, ran, Option.getD_some]

def fiveSources : Sources where
  request := { VoucherMonths.viewed with now := dayAfter.books.now }
  cache := ∅
  sales := []
  sellerDays := dayAfter.books.sellerDays
  money := rollupBegun.books.money
  groups := some [liveGroup priceOf rollupBegun.counts fivePesos]

theorem pesos_shown_late :
    pesosOf (handleAdminSales VoucherDays.wholeFloats 5 Attribution.fiveLibrary 1 24 VoucherDays.manila fiveSources) "Ana" =
        journalPesos VoucherDays.manila.toTimeZone (fiveSources.todayDay VoucherDays.manila) "Ana" quietNight.books.sellerDays +
          (due [fivePesos] rollupBegun "Ana" - ledgerDue [fivePesos] quietNight.books.money "Ana") -
        takenUp dayAfter rollupBegun "Ana" ∧
      0 ≤ takenUp dayAfter rollupBegun "Ana" := by
  refine @pesos_shown _ _ VoucherDays.wholeFloats 5 Attribution.fiveLibrary 1 24 VoucherDays.manila fiveSources "Ana"
    noOffset [fivePesos] priceOf _ quietNight dayAfter rollupBegun nightAndDay lateRollup manila_near (by decide) (by decide)
    ⟨rfl, rfl, rfl, rfl, by decide⟩ ?_ (run_afterwards (by decide +kernel)) ?_ (run_afterwards (by decide +kernel)) ?_
    ⟨rfl, rfl, rfl, rfl⟩ ⟨.refl _, ?_⟩ (by decide)
  · decide +kernel
  · decide +kernel
  · rw [localDayNum_eq, localDayNum_eq]
    decide +kernel
  · intro g inside _
    obtain rfl := List.mem_singleton.mp inside
    exact fivePesos_attributed

end EllaFi.SellerPesos
