import EllaFi.Attribution
import EllaFi.MoneyStore
import EllaFi.TableSums
import EllaFi.VendoMonths

/-!
The sales page: bars of the last twelve months and rows of the last 90 days, from the
sale log, the vouchers' day cache, and the sellers' journal with what was redeemed since
the last rollup. Whatever was purged at boots before, a row shows all that was sold on its
day (`sold_shown`), and the bar of a month that begins within the rows is the sum of them
(`bars_are_rows`). The sums are whole numbers here; an `int` or `long` has them up to
2^31 - 1.
-/
namespace EllaFi.SalesPage
open EllaFi.Attribution (autogenSellerPrice)
open EllaFi.Files (Sale)
open EllaFi.JsonDoc (Library)
open EllaFi.TextLines (Text)
open EllaFi.LocalDays EllaFi.LocalMonths EllaFi.TableSums EllaFi.Totals
open EllaFi.MoneyStore (Money SellerDay VoucherGroup moneyGroupUsed purgeOldLogEntries logAgeSeconds ntpEpochMin)
open EllaFi.VoucherDays (DayCache Floats ensureCall)
open EllaFi.VoucherMonths (SalesRequest monthSlot monthOfSlot monthSlot_iff)

/-! ## The sale log -/

/-- Of the last 90 days, the oldest is 0. -/
def daySlot (todayDay day : Int) : Option Int :=
  let idx := todayDay - day
  if 0 ≤ idx ∧ idx < 90 then some (90 - 1 - idx) else none

def addAt {Amount : Type} [AddCommMonoid Amount] (table : Table Int Amount) (slot : Option Int) (amount : Amount) :
    Table Int Amount :=
  match slot with
  | some slot => add table (slot, amount)
  | none => table

/-- What the sale log comes to. -/
structure Vendo where
  /-- Coins and minutes. -/
  months : Table Int (Int × Int)
  /-- Coins, minutes and sessions. -/
  days : Table Int (Int × Int × Int)
  /-- Coins and sessions of each node, by day. -/
  nodes : Table String (Table Int (Int × Int))

def noVendo : Vendo := { months := ∅, days := ∅, nodes := ∅ }

def addSale (zone : TimeZone) (todayDay : Int) (out : Vendo) (sale : Sale) : Vendo :=
  let day := localDayNum zone sale.ts
  let months := addAt out.months (monthSlot todayDay day) ((sale.coins : Int), (sale.min : Int))
  match daySlot todayDay day with
  | none => { out with months }
  | some slot =>
    { months
      days := add out.days (slot, ((sale.coins : Int), (sale.min : Int), 1))
      nodes := if sale.node = "" then out.nodes else addIn out.nodes sale.node (slot, ((sale.coins : Int), 1)) }

def vendoOf (zone : TimeZone) (todayDay : Int) (sales : List Sale) : Vendo := sales.foldl (addSale zone todayDay) noVendo

/-! ## The sellers -/

/-- A voucher group as the controller lists it. -/
structure Group where
  id : String
  name : String
  description : Text
  usedCount : Int

section
variable {G : Type} (lib : Library G) (pricePerCoin : Int) (zone : TimeZone) (todayDay : Int)

/-- A line of the journal is about the day before. -/
def addLine (out : Table Int (Table String Int)) (line : SellerDay) : Table Int (Table String Int) :=
  let day := localDayNum zone line.ts - 1
  if day < todayDay - (90 - 1) ∨ todayDay < day then out
  else line.sellers.foldl (fun out kv => addIn out day kv) out

/-- What was redeemed since the last rollup is of today. -/
def addGrowth (money : Money) (out : Table Int (Table String Int)) (g : Group) : Table Int (Table String Int) :=
  match autogenSellerPrice lib pricePerCoin g.name g.description with
  | none => out
  | some (seller, price) =>
    let prev := moneyGroupUsed money g.id
    if prev < g.usedCount then addIn out todayDay (seller, (g.usedCount - prev) * price) else out

/-- Pesos by day and seller; without a document there is only the journal. -/
def sellerDayRev (lines : List SellerDay) (money : Money) (groups : Option (List Group)) : Table Int (Table String Int) :=
  (groups.getD []).foldl (addGrowth lib pricePerCoin todayDay money) (lines.foldl (addLine zone todayDay) ∅)

end

/-! ## The page -/

/-- The entries as a `std::map` has them. -/
def ordered {Value : Type} (table : Table String Value) : List (String × Value) :=
  (table.entries.map fun entry => (entry.1, entry.2)).mergeSort fun one other => one.1 ≤ other.1

/-- The first one with the most pesos, if any has some. -/
def leader (sellers : List (String × Int)) : Option (String × Int) :=
  sellers.foldl (fun top kv => if top.elim 0 (·.2) < kv.2 then some kv else top) none

structure MonthRow where
  label : String
  coins : Int
  minutes : Int
  vouchers : Int
  voucherRev : Int
deriving DecidableEq

structure DayRow where
  date : String
  coins : Int
  minutes : Int
  vouchers : Int
  voucherRev : Int
  sessions : Int
  sellers : Option (List (String × Int))
  topSeller : Option (String × Int)
  nodes : List (String × Int)
  nodeSessions : List (String × Int)
deriving DecidableEq

structure Page where
  pricePerCoin : Int
  minutesPerCoin : Int
  months : List MonthRow
  days : List DayRow

def monthNames : List String := ["Jan", "Feb", "Mar", "Apr", "May", "Jun", "Jul", "Aug", "Sep", "Oct", "Nov", "Dec"]

def monthLabel (mkey : Int) : String := monthNames.getD (mkey % 12).toNat "" ++ " " ++ toString (mkey / 12)

def dateText (day : Int) : String :=
  let date := (gmtime (day * 86400 + 43200)).date
  toString date.month ++ "/" ++ toString date.day

/-- What the handler gets: the request's time and the controller's answers about
    vouchers, the cached days, the two logs, the ledger, and the list of groups. -/
structure Sources where
  request : SalesRequest
  cache : DayCache
  sales : List Sale
  sellerDays : List SellerDay
  money : Money
  groups : Option (List Group)

section
variable {F G : Type} (floats : Floats F) (fallbackPrice : Int) (lib : Library G) (pricePerCoin minutesPerCoin : Int)
  (clock : LocalClock) (sources : Sources)

namespace Sources

def todayDay : Int := sources.request.todayDay clock

/-- The day of a row. -/
def dayOf (i : Nat) : Int := sources.todayDay clock - (90 - 1 - i)

def vendo : Vendo := vendoOf clock.toTimeZone (sources.todayDay clock) sources.sales

/-- The cache when what is missing was fetched. -/
def cached : DayCache := ensureCall floats fallbackPrice clock sources.cache (sources.request.call clock)

/-- Vouchers and pesos of a row: of a past day from the cache, of today as just asked. -/
def voucherDay (i : Nat) : Int × Int :=
  if i < 89 then ((sources.cached floats fallbackPrice clock).lookup (sources.dayOf clock i)).getD 0
  else sources.request.todayAmounts floats fallbackPrice clock

def sellerRev : Table Int (Table String Int) :=
  sellerDayRev lib pricePerCoin clock.toTimeZone (sources.todayDay clock) sources.sellerDays sources.money sources.groups

def monthRow (i : Nat) : MonthRow where
  label := monthLabel (monthOfSlot (sources.todayDay clock) i)
  coins := (total (sources.vendo clock).months (i : Int)).1
  minutes := (total (sources.vendo clock).months (i : Int)).2
  vouchers := (total (VoucherMonths.handleAdminSales floats fallbackPrice clock sources.request sources.cache).1 (i : Int)).1
  voucherRev := (total (VoucherMonths.handleAdminSales floats fallbackPrice clock sources.request sources.cache).1 (i : Int)).2

def dayRow (i : Nat) : DayRow :=
  let sold := total (sources.vendo clock).days (i : Int)
  let vouchers := sources.voucherDay floats fallbackPrice clock i
  let sellers := ((sources.sellerRev lib pricePerCoin clock).lookup (sources.dayOf clock i)).map ordered
  let nodes := ordered (sources.vendo clock).nodes
  { date := dateText (sources.dayOf clock i)
    coins := sold.1
    minutes := sold.2.1
    vouchers := vouchers.1
    voucherRev := vouchers.2
    sessions := sold.2.2
    sellers
    topSeller := sellers.bind leader
    nodes := nodes.map fun kv => (kv.1, (total kv.2 (i : Int)).1)
    nodeSessions := nodes.map fun kv => (kv.1, (total kv.2 (i : Int)).2) }

end Sources

def handleAdminSales : Page where
  pricePerCoin := pricePerCoin
  minutesPerCoin := minutesPerCoin
  months := (List.range 12).map (sources.monthRow floats fallbackPrice clock)
  days := (List.range 90).map (sources.dayRow floats fallbackPrice lib pricePerCoin clock)

end

/-! ## Runs of the sale log -/

inductive Event where
  /-- At a reading of the clock in milliseconds. -/
  | sold (opens : Bool) (clock coins minutes : Nat) (node : String)
  /-- A purge that can open the log is taken to go through. -/
  | boot (opens : Bool) (now : Nat)

def act (flash : Files.Flash) : Event → Files.Flash
  | .sold opens clock coins minutes node => Files.appendSaleLog flash clock opens coins minutes node
  | .boot opens now => { flash with sales := purgeOldLogEntries Sale.ts opens now logAgeSeconds 0 flash.sales }

def logAfter (events : List Event) : List Sale := (events.foldl act Files.Flash.empty).sales

/-- All that was ever written to the log. -/
def soldIn (events : List Event) : List Sale :=
  events.filterMap fun
    | .sold true clock coins minutes node => some { ts := clock / 1000, coins, min := minutes, node }
    | _ => none

/-- The boots come before a page. -/
def BootsBefore (now : Int) (events : List Event) : Prop :=
  ∀ event ∈ events, match event with
    | .boot _ booted => (booted : Int) ≤ now
    | .sold .. => True

def onDay (zone : TimeZone) (day : Int) (sales : List Sale) : List Sale :=
  sales.filter fun sale => localDayNum zone sale.ts = day

def coinsIn (sales : List Sale) : Int := (sales.map fun sale => (sale.coins : Int)).sum

def minutesIn (sales : List Sale) : Int := (sales.map fun sale => (sale.min : Int)).sum

/-- The nodes with a sale on one of the 90 days. -/
def NodeSold (zone : TimeZone) (today : Int) (sold : List Sale) (node : String) : Prop :=
  node ≠ "" ∧ ∃ sale ∈ sold, sale.node = node ∧ localDayNum zone sale.ts ∈ Set.Ioc (today - 90) today

/-- The leader has some pesos, and nobody has more; without one nobody has any. -/
structure Leads (sellers : List (String × Int)) (top : Option (String × Int)) : Prop where
  known : ∀ kv ∈ top, kv ∈ sellers ∧ 0 < kv.2
  most : ∀ kv ∈ sellers, kv.2 ≤ top.elim 0 (·.2)

/-- A row has what was sold on its day, altogether and by each node, and a seller with the
    most pesos. -/
structure RightRow (zone : TimeZone) (today day : Int) (sold : List Sale) (row : DayRow) : Prop where
  coins : row.coins = coinsIn (onDay zone day sold)
  minutes : row.minutes = minutesIn (onDay zone day sold)
  sessions : row.sessions = (onDay zone day sold).length
  nodes : ∀ node amount, (node, amount) ∈ row.nodes ↔
    NodeSold zone today sold node ∧ amount = coinsIn ((onDay zone day sold).filter (·.node = node))
  nodeSessions : ∀ node count, (node, count) ∈ row.nodeSessions ↔
    NodeSold zone today sold node ∧ count = ((onDay zone day sold).filter (·.node = node)).length
  topSeller : Leads (row.sellers.getD []) row.topSeller

/-- A bar has what was sold in its month. -/
structure RightBar (zone : TimeZone) (mk : Int) (sold : List Sale) (bar : MonthRow) : Prop where
  coins : bar.coins = coinsIn (sold.filter fun sale => monthOfDay (localDayNum zone sale.ts) = mk)
  minutes : bar.minutes = minutesIn (sold.filter fun sale => monthOfDay (localDayNum zone sale.ts) = mk)

/-! ### What the purges keep -/

section
variable {Line : Type} {P : Line → Prop} [DecidablePred P] {ts : Line → Nat}

/-- A purge drops none of the lines that are young enough. -/
theorem filter_purge {now age : Nat} (recent : ∀ line, P line → now ≤ ts line + age) (opens : Bool) (lines : List Line) :
    (purgeOldLogEntries ts opens now age 0 lines).filter P = lines.filter P := by
  unfold purgeOldLogEntries
  cases opens with
  | false => rfl
  | true =>
    simp only [if_true, Nat.lt_irrefl, if_false, List.drop_zero, List.filter_filter]
    refine List.filter_congr fun line _ => ?_
    by_cases own : P line
    · have young := recent line own
      have stays : ¬ (ntpEpochMin ≤ ts line ∧ ts line + age < now) := fun old => by omega
      simp [own, stays]
    · simp [own]

/-- A sum that only depends on some lines. -/
theorem sum_filter {Amount : Type} [AddCommMonoid Amount] {amount : Line → Amount}
    (nothing : ∀ line, ¬ P line → amount line = 0) (lines : List Line) :
    (lines.map amount).sum = ((lines.filter P).map amount).sum := by
  induction lines with
  | nil => rfl
  | cons line rest ih =>
    by_cases own : P line
    · simp [own, ih]
    · simp [own, nothing line own, ih]

theorem sum_ite {Amount : Type} [AddCommMonoid Amount] (amount : Line → Amount) (lines : List Line) :
    (lines.map fun line => if P line then amount line else 0).sum = ((lines.filter P).map amount).sum := by
  have others (line : Line) (other : ¬ P line) : (if P line then amount line else 0) = 0 := if_neg other
  rw [sum_filter others]
  refine congrArg List.sum (List.map_congr_left fun line inside => ?_)
  rw [if_pos (of_decide_eq_true (List.mem_filter.mp inside).2)]

end

/-- A line that is not too old for the log. -/
def Young (now : Int) (sale : Sale) : Prop := now ≤ sale.ts + logAgeSeconds

instance (now : Int) (sale : Sale) : Decidable (Young now sale) := inferInstanceAs (Decidable (_ ≤ _))

section
variable {now : Int} {events : List Event}

theorem soldIn_cons (event : Event) (events : List Event) : soldIn (event :: events) = soldIn [event] ++ soldIn events :=
  List.filterMap_append (l := [event])

theorem young_logAfter (before : BootsBefore now events) :
    (logAfter events).filter (Young now) = (soldIn events).filter (Young now) := by
  suffices all : ∀ flash : Files.Flash,
      (events.foldl act flash).sales.filter (Young now) = (flash.sales ++ soldIn events).filter (Young now) from
    all Files.Flash.empty
  induction events with
  | nil => simp [soldIn]
  | cons event rest ih =>
    obtain ⟨own, later⟩ := List.forall_mem_cons.mp before
    intro flash
    rw [List.foldl_cons, ih later, soldIn_cons]
    cases event with
    | sold opens clock coins minutes node =>
      cases opens with
      | false => rfl
      | true => exact congrArg (List.filter _) (List.append_assoc _ _ _)
    | boot opens booted =>
      have kept : ∀ sale, Young now sale → booted ≤ sale.ts + logAgeSeconds := by
        intro sale young
        have late : now ≤ sale.ts + logAgeSeconds := young
        have earlier : (booted : Int) ≤ now := own
        omega
      rw [List.filter_append, List.filter_append]
      exact congrArg (· ++ _) (filter_purge kept opens flash.sales)

/-- What only depends on young lines is the same of the log as of all that was sold. -/
theorem sum_logAfter (before : BootsBefore now events) {Amount : Type} [AddCommMonoid Amount] {amount : Sale → Amount}
    (nothing : ∀ sale, ¬ Young now sale → amount sale = 0) :
    ((logAfter events).map amount).sum = ((soldIn events).map amount).sum := by
  rw [sum_filter nothing, young_logAfter before, ← sum_filter nothing]

theorem mem_logAfter (before : BootsBefore now events) {sale : Sale} (young : Young now sale) :
    sale ∈ logAfter events ↔ sale ∈ soldIn events := by
  have same := congrArg (sale ∈ ·) (young_logAfter before)
  simpa [young] using same

end

/-! ### How long ago -/

section
variable {clock : LocalClock} {now : Int}

/-- The local days tell how long ago something was. -/
theorem ago_le (near : clock.bound ≤ 86400) {then_ days : Int}
    (recent : localDayNum clock.toTimeZone now - localDayNum clock.toTimeZone then_ < days) :
    now - then_ < 86400 * (days + 2) := by
  have here := clock.reading_near now
  have there := clock.reading_near then_
  rw [localDayNum_eq, localDayNum_eq] at recent
  omega

theorem firstOf_add_le (mk : Int) (n : Nat) : dayNumber (firstOf (mk + n)) ≤ dayNumber (firstOf mk) + 31 * n := by
  induction n with
  | zero => simp
  | succ n ih =>
    have next := dayNumber_firstOf_succ (mk + n)
    have length := @monthLength_le (((mk + n) % 12).toNat + 1) ((mk + n) / 12)
    have same : mk + (n + 1 : Nat) = mk + n + 1 := by omega
    rw [same]
    omega

/-- Eleven months are less than 342 days. -/
theorem month_ago {today day : Int} (recent : monthOfDay today - 10 ≤ monthOfDay day) : today - day < 342 := by
  have first := (monthOfDay_iff.mp (rfl : monthOfDay day = monthOfDay day)).1
  have last := (monthOfDay_iff.mp (rfl : monthOfDay today = monthOfDay today)).2
  have order := firstOf_strictMono.monotone recent
  have length := firstOf_add_le (monthOfDay today - 10) 11
  have same : monthOfDay today - 10 + (11 : Nat) = monthOfDay today + 1 := by omega
  rw [same] at length
  show today - day < 342
  have begun : dayNumber (firstOf (monthOfDay today - 10)) ≤ dayNumber (firstOf (monthOfDay day)) := order
  omega

end

/-! ### What the pass over the log adds up -/

section
variable {zone : TimeZone} {todayDay : Int}

theorem daySlot_iff {day slot : Int} (low : 0 ≤ slot) (high : slot < 90) :
    daySlot todayDay day = some slot ↔ day = todayDay - (90 - 1 - slot) := by
  unfold daySlot
  simp only
  split
  · rw [Option.some.injEq]
    omega
  · simp only [reduceCtorEq, false_iff]
    omega

theorem daySlot_some {day : Int} : (daySlot todayDay day).isSome ↔ day ∈ Set.Ioc (todayDay - 90) todayDay := by
  unfold daySlot
  simp only [Set.mem_Ioc]
  split
  · simp only [Option.isSome_some, true_iff]
    omega
  · simp only [Option.isSome_none, Bool.false_eq_true, false_iff]
    omega

theorem total_addAt {Amount : Type} [AddCommMonoid Amount] (table : Table Int Amount) (own : Option Int) (amount : Amount)
    (slot : Int) : total (addAt table own amount) slot = total table slot + if own = some slot then amount else 0 := by
  unfold addAt
  cases own with
  | none => simp
  | some ms => simp [total_add]

section
variable (zone : TimeZone) (todayDay : Int) (out : Vendo) (sale : Sale)

theorem addSale_months : (addSale zone todayDay out sale).months =
    addAt out.months (monthSlot todayDay (localDayNum zone sale.ts)) ((sale.coins : Int), (sale.min : Int)) := by
  simp only [addSale]
  split <;> rfl

theorem addSale_days : (addSale zone todayDay out sale).days =
    addAt out.days (daySlot todayDay (localDayNum zone sale.ts)) ((sale.coins : Int), (sale.min : Int), 1) := by
  simp only [addSale]
  split <;> simp_all [addAt]

theorem addSale_nodes : (addSale zone todayDay out sale).nodes =
    match daySlot todayDay (localDayNum zone sale.ts) with
    | none => out.nodes
    | some slot => if sale.node = "" then out.nodes else addIn out.nodes sale.node (slot, ((sale.coins : Int), 1)) := by
  simp only [addSale]
  split <;> rfl

end

theorem total_months (slot : Int) (sales : List Sale) :
    total (vendoOf zone todayDay sales).months slot =
      (sales.map fun sale => if monthSlot todayDay (localDayNum zone sale.ts) = some slot then
        ((sale.coins : Int), (sale.min : Int)) else 0).sum := by
  refine (measure_foldl (fun out => total out.months slot) (fun out sale => ?_) sales noVendo).trans (zero_add _)
  rw [addSale_months, total_addAt]

theorem total_days (slot : Int) (sales : List Sale) :
    total (vendoOf zone todayDay sales).days slot =
      (sales.map fun sale => if daySlot todayDay (localDayNum zone sale.ts) = some slot then
        ((sale.coins : Int), (sale.min : Int), (1 : Int)) else 0).sum := by
  refine (measure_foldl (fun out => total out.days slot) (fun out sale => ?_) sales noVendo).trans (zero_add _)
  rw [addSale_days, total_addAt]

theorem amountIn_nodes {node : String} (named : node ≠ "") (slot : Int) (sales : List Sale) :
    amountIn (vendoOf zone todayDay sales).nodes node slot =
      (sales.map fun sale => if sale.node = node ∧ daySlot todayDay (localDayNum zone sale.ts) = some slot then
        ((sale.coins : Int), (1 : Int)) else 0).sum := by
  refine (measure_foldl (fun out => amountIn out.nodes node slot) (fun out sale => ?_) sales noVendo).trans (zero_add _)
  rw [addSale_nodes]
  cases daySlot todayDay (localDayNum zone sale.ts) with
  | none => simp
  | some own =>
    by_cases unnamed : sale.node = ""
    · simp [unnamed, Ne.symm named]
    · simp [unnamed, amountIn_addIn]

theorem mem_addSale {node : String} (out : Vendo) (sale : Sale) :
    node ∈ (addSale zone todayDay out sale).nodes ↔ node ∈ out.nodes ∨ NodeSold zone todayDay [sale] node := by
  simp only [NodeSold, List.mem_singleton, exists_eq_left, ← daySlot_some]
  rw [addSale_nodes]
  cases daySlot todayDay (localDayNum zone sale.ts) with
  | none => simp
  | some own =>
    by_cases unnamed : sale.node = ""
    · simp only [unnamed, if_true, Option.isSome_some, and_true]
      exact (or_iff_left fun both => both.1 both.2.symm).symm
    · simp only [unnamed, if_false, mem_addIn, Option.isSome_some, and_true]
      constructor
      · rintro (rfl | before)
        · exact .inr ⟨unnamed, rfl⟩
        · exact .inl before
      · rintro (before | ⟨-, rfl⟩)
        · exact .inr before
        · exact .inl rfl

theorem mem_nodes {node : String} (sales : List Sale) :
    node ∈ (vendoOf zone todayDay sales).nodes ↔ NodeSold zone todayDay sales node := by
  suffices all : ∀ out : Vendo, node ∈ (sales.foldl (addSale zone todayDay) out).nodes ↔
      node ∈ out.nodes ∨ NodeSold zone todayDay sales node by
    exact (all noVendo).trans (or_iff_right (AList.notMem_empty _))
  induction sales with
  | nil => simp [NodeSold]
  | cons sale rest ih =>
    intro out
    rw [List.foldl_cons, ih, mem_addSale, or_assoc]
    simp [NodeSold, and_or_left]

end

/-! ### Maps in order -/

theorem mem_ordered {Value : Type} {table : Table String Value} {key : String} {value : Value} :
    (key, value) ∈ ordered table ↔ table.lookup key = some value := by
  rw [ordered, List.mem_mergeSort, ← Option.mem_def, AList.mem_lookup_iff]
  simp

theorem leads_leader (sellers : List (String × Int)) : Leads sellers (leader sellers) := by
  induction sellers using List.reverseRecOn with
  | nil => exact ⟨fun _ none => (Option.not_mem_none _ none).elim, List.forall_mem_nil _⟩
  | append_singleton sellers kv ih =>
    have floor : 0 ≤ (leader sellers).elim 0 (·.2) := by
      cases own : leader sellers with
      | none => exact Int.le_refl _
      | some top => exact Int.le_of_lt (ih.known top own).2
    have next : leader (sellers ++ [kv]) = if (leader sellers).elim 0 (·.2) < kv.2 then some kv else leader sellers := by
      rw [leader, List.foldl_append]
      rfl
    rw [next]
    split
    · next more =>
      refine ⟨?_, ?_⟩
      · rintro top ⟨⟩
        exact ⟨by simp, Int.lt_of_le_of_lt floor more⟩
      · intro other inside
        rcases List.mem_append.mp inside with before | own
        · exact (ih.most other before).trans (Int.le_of_lt more)
        · obtain rfl := List.mem_singleton.mp own
          exact Int.le_refl _
    · next less =>
      refine ⟨fun top own => ?_, ?_⟩
      · obtain ⟨inside, some_⟩ := ih.known top own
        exact ⟨List.mem_append_left _ inside, some_⟩
      · intro other inside
        rcases List.mem_append.mp inside with before | own
        · exact ih.most other before
        · obtain rfl := List.mem_singleton.mp own
          exact Int.not_lt.mp less

/-! ### Right rows -/

theorem sum_amounts (sales : List Sale) : (sales.map fun sale => ((sale.coins : Int), (sale.min : Int), (1 : Int))).sum =
    (coinsIn sales, minutesIn sales, (sales.length : Int)) := by
  induction sales with
  | nil => rfl
  | cons sale rest ih => simp [ih, coinsIn, minutesIn, add_comm]

theorem sum_months (sales : List Sale) :
    (sales.map fun sale => ((sale.coins : Int), (sale.min : Int))).sum = (coinsIn sales, minutesIn sales) := by
  induction sales with
  | nil => rfl
  | cons sale rest ih => simp [ih, coinsIn, minutesIn]

theorem sum_nodes (sales : List Sale) :
    (sales.map fun sale => ((sale.coins : Int), (1 : Int))).sum = (coinsIn sales, (sales.length : Int)) := by
  induction sales with
  | nil => rfl
  | cons sale rest ih => simp [ih, coinsIn, add_comm]

section
variable {clock : LocalClock} {now : Int} {events : List Event}

/-- Whatever is on one of the rows is young. -/
theorem young_of_row (near : clock.bound ≤ 86400) {sale : Sale}
    (inside : localDayNum clock.toTimeZone now - localDayNum clock.toTimeZone sale.ts < 90) : Young now sale := by
  have ago := ago_le near inside
  show now ≤ sale.ts + (365 * 86400 : Nat)
  omega

/-- And so is whatever is in one of the last eleven months. -/
theorem young_of_bar (near : clock.bound ≤ 86400) {sale : Sale}
    (inside : monthOfDay (localDayNum clock.toTimeZone now) - 10 ≤ monthOfDay (localDayNum clock.toTimeZone sale.ts)) :
    Young now sale := by
  have ago := ago_le near (month_ago inside)
  show now ≤ sale.ts + (365 * 86400 : Nat)
  omega

variable {i : Nat}

theorem row_of_log (near : clock.bound ≤ 86400) (before : BootsBefore now events) (shown : i < 90) :
    let today := localDayNum clock.toTimeZone now
    let sold := onDay clock.toTimeZone (today - (90 - 1 - i)) (soldIn events)
    total (vendoOf clock.toTimeZone today (logAfter events)).days (i : Int) =
      (coinsIn sold, minutesIn sold, (sold.length : Int)) := by
  have slot (day : Int) := @daySlot_iff (localDayNum clock.toTimeZone now) day i (by omega) (by omega)
  simp only [total_days, slot]
  rw [sum_logAfter before, sum_ite, sum_amounts]
  · rfl
  · intro sale old
    refine if_neg fun here => old (young_of_row near ?_)
    omega

theorem node_of_log (near : clock.bound ≤ 86400) (before : BootsBefore now events) (shown : i < 90) {node : String}
    (named : node ≠ "") :
    let today := localDayNum clock.toTimeZone now
    let sold := (onDay clock.toTimeZone (today - (90 - 1 - i)) (soldIn events)).filter (·.node = node)
    amountIn (vendoOf clock.toTimeZone today (logAfter events)).nodes node (i : Int) = (coinsIn sold, (sold.length : Int)) := by
  have slot (day : Int) := @daySlot_iff (localDayNum clock.toTimeZone now) day i (by omega) (by omega)
  simp only [amountIn_nodes named, slot]
  rw [sum_logAfter before, sum_ite, sum_nodes]
  · simp [onDay, List.filter_filter]
  · intro sale old
    refine if_neg fun here => old (young_of_row near ?_)
    omega

theorem nodeSold_log (near : clock.bound ≤ 86400) (before : BootsBefore now events) (node : String) :
    NodeSold clock.toTimeZone (localDayNum clock.toTimeZone now) (logAfter events) node ↔
      NodeSold clock.toTimeZone (localDayNum clock.toTimeZone now) (soldIn events) node := by
  refine and_congr_right fun _ => exists_congr fun sale => ?_
  refine and_congr_left fun ⟨_, inside⟩ => mem_logAfter before (young_of_row near ?_)
  have late := inside.1
  omega

/-- What a row lists of the nodes. -/
theorem mem_row_nodes {nodes : Table String (Table Int (Int × Int))} {Part : Int × Int → Int} {node : String} {amount : Int} :
    (node, amount) ∈ (ordered nodes).map (fun kv => (kv.1, Part (total kv.2 (i : Int)))) ↔
      node ∈ nodes ∧ amount = Part (amountIn nodes node (i : Int)) := by
  rw [List.mem_map, ← AList.lookup_isSome, Option.isSome_iff_exists]
  constructor
  · rintro ⟨⟨own, days⟩, inside, same⟩
    obtain ⟨rfl, rfl⟩ := Prod.mk.inj same
    have found := mem_ordered.mp inside
    exact ⟨⟨days, found⟩, by rw [amountIn, found, Option.getD_some]⟩
  · rintro ⟨⟨days, found⟩, rfl⟩
    exact ⟨(node, days), mem_ordered.mpr found, by rw [amountIn, found, Option.getD_some]⟩

theorem bar_of_log (near : clock.bound ≤ 86400) (before : BootsBefore now events) (recent : 1 ≤ i) (shown : i < 12) :
    let today := localDayNum clock.toTimeZone now
    let sold := (soldIn events).filter fun sale =>
      monthOfDay (localDayNum clock.toTimeZone sale.ts) = monthOfSlot today i
    total (vendoOf clock.toTimeZone today (logAfter events)).months (i : Int) = (coinsIn sold, minutesIn sold) := by
  have slot (day : Int) := @monthSlot_iff (localDayNum clock.toTimeZone now) i day (by omega) (by omega)
  simp only [total_months, slot]
  rw [sum_logAfter before, sum_ite, sum_months]
  intro sale old
  refine if_neg fun here => old (young_of_bar near ?_)
  simp only [monthOfSlot] at here
  omega

end

theorem getElem?_rows {Row : Type} {n i : Nat} {make : Nat → Row} {row : Row} :
    ((List.range n).map make)[i]? = some row ↔ i < n ∧ make i = row := by
  by_cases shown : i < n
  · simp [shown]
  · simp [shown]

section
variable {F G : Type} {floats : Floats F} {fallbackPrice : Int} {lib : Library G} {pricePerCoin minutesPerCoin : Int}
  {clock : LocalClock} {sources : Sources} {events : List Event}

theorem row_topSeller (i : Nat) :
    Leads ((sources.dayRow floats fallbackPrice lib pricePerCoin clock i).sellers.getD [])
      (sources.dayRow floats fallbackPrice lib pricePerCoin clock i).topSeller := by
  unfold Sources.dayRow
  cases (sources.sellerRev lib pricePerCoin clock).lookup (sources.dayOf clock i) with
  | none => exact ⟨fun _ none => (Option.not_mem_none _ none).elim, List.forall_mem_nil _⟩
  | some sellers => exact leads_leader (ordered sellers)

/-- Whatever the boots have purged, each of the 90 rows has what was sold on its day, and
    each bar but the oldest what was sold in its month. -/
theorem sold_shown (near : clock.bound ≤ 86400) (before : BootsBefore sources.request.now events)
    (log : sources.sales = logAfter events) :
    let page := handleAdminSales floats fallbackPrice lib pricePerCoin minutesPerCoin clock sources
    let today := sources.todayDay clock
    (∀ (i : Nat) (row : DayRow), page.days[i]? = some row →
      RightRow clock.toTimeZone today (today - (90 - 1 - i)) (soldIn events) row) ∧
    ∀ (i : Nat) (bar : MonthRow), 1 ≤ i → page.months[i]? = some bar →
      RightBar clock.toTimeZone (monthOfSlot today i) (soldIn events) bar := by
  have sold : sources.vendo clock = vendoOf clock.toTimeZone (sources.todayDay clock) (logAfter events) := by
    rw [Sources.vendo, log]
  refine ⟨fun i row at_ => ?_, fun i bar recent at_ => ?_⟩
  · obtain ⟨shown, rfl⟩ := getElem?_rows.mp at_
    have own := (congrArg (fun out => total out.days (i : Int)) sold).trans (row_of_log near before shown)
    have nodes (node : String) (named : node ≠ "") :=
      (congrArg (fun out => amountIn out.nodes node (i : Int)) sold).trans (node_of_log near before shown named)
    have listed (node : String) : node ∈ (sources.vendo clock).nodes ↔
        NodeSold clock.toTimeZone (sources.todayDay clock) (soldIn events) node := by
      rw [sold, mem_nodes]
      exact nodeSold_log near before node
    constructor
    · exact congrArg (·.1) own
    · exact congrArg (·.2.1) own
    · exact congrArg (·.2.2) own
    · intro node amount
      refine mem_row_nodes.trans ?_
      rw [listed]
      exact and_congr_right fun named => by rw [nodes node named.1]; rfl
    · intro node count
      refine mem_row_nodes.trans ?_
      rw [listed]
      exact and_congr_right fun named => by rw [nodes node named.1]; rfl
    · exact row_topSeller i
  · obtain ⟨shown, rfl⟩ := getElem?_rows.mp at_
    have own := (congrArg (fun out => total out.months (i : Int)) sold).trans (bar_of_log near before recent shown)
    constructor
    · exact congrArg (·.1) own
    · exact congrArg (·.2) own

end

/-- A sale, one that is not written, a boot, and a sale. -/
def soldAndBooted : List Event :=
  [.sold true 1784500000000 2 48 "02:00:00:00:00:01", .sold false 1784500100000 1 24 "", .boot true 1784510000,
    .sold true 1784515000000 5 120 ""]

def bootedSources : Sources where
  request := VoucherMonths.viewed
  cache := ∅
  sales := logAfter soldAndBooted
  sellerDays := []
  money := Money.empty
  groups := none

theorem manila_near : VoucherDays.manila.bound ≤ 86400 := by
  show |(28800 : Int)| ≤ 86400
  decide

theorem sold_shown_booted :
    let page := handleAdminSales VoucherDays.wholeFloats 5 Attribution.fiveLibrary 1 24 VoucherDays.manila bootedSources
    let today := bootedSources.todayDay VoucherDays.manila
    (∀ (i : Nat) (row : DayRow), page.days[i]? = some row →
      RightRow VoucherDays.manila.toTimeZone today (today - (90 - 1 - i)) (soldIn soldAndBooted) row) ∧
    ∀ (i : Nat) (bar : MonthRow), 1 ≤ i → page.months[i]? = some bar →
      RightBar VoucherDays.manila.toTimeZone (monthOfSlot today i) (soldIn soldAndBooted) bar :=
  sold_shown manila_near (by simp [BootsBefore, soldAndBooted, bootedSources, VoucherMonths.viewed, VoucherMonths.noon]) rfl

/-! ## Bars and rows -/

section
variable {zone : TimeZone} {today : Int} {sales : List Sale}

/-- The rows of a month. -/
def rowsOf (today mk : Int) : Finset Nat := (Finset.range 90).filter fun i => monthOfDay (today - (90 - 1 - i)) = mk

theorem part_days (part : Int × Int × Int →+ Int) (i : Nat) (shown : i < 90) :
    part (total (vendoOf zone today sales).days (i : Int)) =
      (sales.map fun sale => if localDayNum zone sale.ts = today - (90 - 1 - i) then part (sale.coins, sale.min, 1) else 0).sum := by
  have slot (day : Int) := @daySlot_iff today day i (by omega) (by omega)
  simp only [total_days, slot, map_list_sum, List.map_map]
  congr 2
  funext sale
  simp only [Function.comp_apply, apply_ite part, map_zero]

theorem part_months (part : Int × Int →+ Int) (i : Nat) (shown : i < 12) :
    part (total (vendoOf zone today sales).months (i : Int)) =
      (sales.map fun sale => if monthOfDay (localDayNum zone sale.ts) = monthOfSlot today i then
        part (sale.coins, sale.min) else 0).sum := by
  have slot (day : Int) := @monthSlot_iff today i day (by omega) (by omega)
  simp only [total_months, slot, map_list_sum, List.map_map]
  congr 2
  funext sale
  simp only [Function.comp_apply, apply_ite part, map_zero]

/-- A day of a month within the rows is one of them. -/
theorem sum_rowsOf {mk day : Int} (within : today - (90 - 1) ≤ dayNumber (firstOf mk)) (past : day ≤ today) {Amount : Type}
    [AddCommMonoid Amount] (amount : Amount) :
    (∑ i ∈ rowsOf today mk, if day = today - (90 - 1 - i) then amount else 0) = if monthOfDay day = mk then amount else 0 := by
  by_cases own : monthOfDay day = mk
  · have begun := (monthOfDay_iff.mp own).1
    have place (i : Nat) : day = today - (90 - 1 - i) ↔ (day - today + 89).toNat = i := by omega
    have inside : (day - today + 89).toNat ∈ rowsOf today mk := by
      refine Finset.mem_filter.mpr ⟨Finset.mem_range.mpr (by omega), ?_⟩
      rw [← own]
      congr 1
      omega
    simp only [place, Finset.sum_ite_eq, if_pos inside, if_pos own]
  · rw [if_neg own]
    refine Finset.sum_eq_zero fun i inside => if_neg ?_
    rintro rfl
    exact own (Finset.mem_filter.mp inside).2

/-- What the rows of a month have of the sale log is what its bar has. -/
theorem vendo_rows {i : Nat} (shown : i < 12) (within : today - (90 - 1) ≤ dayNumber (firstOf (monthOfSlot today i)))
    (past : ∀ sale ∈ sales, localDayNum zone sale.ts ≤ today) (days : Int × Int × Int →+ Int) (months : Int × Int →+ Int)
    (same : ∀ coins minutes, days (coins, minutes, 1) = months (coins, minutes)) :
    ∑ j ∈ rowsOf today (monthOfSlot today i), days (total (vendoOf zone today sales).days (j : Int)) =
      months (total (vendoOf zone today sales).months (i : Int)) := by
  rw [part_months months i shown, ← sum_lists (rowsOf today (monthOfSlot today i))]
  · refine Finset.sum_congr rfl fun j inside => ?_
    rw [part_days days j (Finset.mem_range.mp (Finset.mem_filter.mp inside).1)]
  · intro sale inside
    rw [sum_rowsOf within (past sale inside), same]

end

section
variable {F G : Type} {floats : Floats F} {fallbackPrice : Int} {lib : Library G} {pricePerCoin minutesPerCoin : Int}
  {clock : LocalClock} {sources : Sources}

/-- What a call fills in is past. -/
theorem mem_cached {day : Int} (inside : day ∈ sources.cached floats fallbackPrice clock) :
    day ∈ sources.cache ∨ day < sources.todayDay clock := by
  have missed {day : Int} (missing : day ∈ VoucherDays.missingDays sources.cache (sources.request.call clock).winStart
      (sources.request.call clock).winEnd) : day < sources.todayDay clock := (VoucherDays.mem_missingDays.mp missing).2.1
  simp only [Sources.cached, ensureCall, VoucherDays.ensureVoucherDays] at inside
  split at inside
  · split at inside
    · exact .inl inside
    · rw [VoucherDays.foldl_addBucket, VoucherDays.touch_eq, ← List.foldl_append, mem_foldl_add] at inside
      rcases inside with cached | ⟨entry, listed, same⟩
      · exact .inl cached
      · refine .inr (same ▸ missed ?_)
        rcases List.mem_append.mp listed with touched | filled
        · obtain ⟨d, missing, rfl⟩ := List.mem_map.mp touched
          exact missing
        · obtain ⟨b, missing, rfl⟩ := List.mem_map.mp filled
          exact of_decide_eq_true (List.mem_filter.mp missing).2
  · exact .inl inside

/-- Today is the last row, and no past day is. -/
theorem voucherDay_eq (past : ∀ day ∈ sources.cache, day < sources.todayDay clock) {j : Nat} (shown : j < 90) :
    sources.voucherDay floats fallbackPrice clock j =
      total (sources.cached floats fallbackPrice clock) (sources.dayOf clock j) +
        if sources.todayDay clock = sources.todayDay clock - (90 - 1 - j) then
          sources.request.todayAmounts floats fallbackPrice clock else 0 := by
  unfold Sources.voucherDay Sources.dayOf
  by_cases before : j < 89
  · have other : sources.todayDay clock ≠ sources.todayDay clock - (90 - 1 - j) := by omega
    rw [if_pos before, if_neg other, add_zero, total]
  · have own : sources.todayDay clock = sources.todayDay clock - (90 - 1 - j) := by omega
    have absent : sources.todayDay clock ∉ sources.cached floats fallbackPrice clock := by
      intro inside
      rcases mem_cached inside with cached | earlier
      · exact Int.lt_irrefl _ (past _ cached)
      · exact Int.lt_irrefl _ earlier
    rw [if_neg before, ← own, if_pos rfl, total, AList.lookup_eq_none.mpr absent, Option.getD_none, zero_add]

theorem voucher_rows {i : Nat} (shown : i < 12)
    (within : sources.todayDay clock - (90 - 1) ≤ dayNumber (firstOf (monthOfSlot (sources.todayDay clock) i)))
    (past : ∀ day ∈ sources.cache, day < sources.todayDay clock) :
    ∑ j ∈ rowsOf (sources.todayDay clock) (monthOfSlot (sources.todayDay clock) i),
        sources.voucherDay floats fallbackPrice clock j =
      total (VoucherMonths.handleAdminSales floats fallbackPrice clock sources.request sources.cache).1 (i : Int) := by
  have slot (day : Int) := @monthSlot_iff (sources.request.todayDay clock) i day (by omega) (by omega)
  have rows : ∀ j ∈ rowsOf (sources.todayDay clock) (monthOfSlot (sources.todayDay clock) i), j < 90 := by
    intro j inside
    exact Finset.mem_range.mp (Finset.mem_filter.mp inside).1
  rw [Finset.sum_congr rfl fun j inside => voucherDay_eq past (rows j inside), Finset.sum_add_distrib]
  simp only [VoucherMonths.handleAdminSales, VoucherMonths.total_addMonth, VoucherMonths.total_foldl_addMonth, total_empty,
    zero_add, slot]
  congr 1
  · rw [← sum_ite, ← @sum_lists _ _ _ _ (rowsOf (sources.todayDay clock) (monthOfSlot (sources.todayDay clock) i))
      (fun j (kv : Int × (Int × Int)) => if kv.1 = sources.todayDay clock - (90 - 1 - j) then kv.2 else 0)]
    · refine Finset.sum_congr rfl fun j _ => ?_
      rw [← sumOf_entries, sumOf, sum_ite]
      rfl
    · intro kv inside
      obtain ⟨entry, listed, rfl⟩ := List.mem_map.mp inside
      refine sum_rowsOf within ?_ _
      rcases mem_cached (List.mem_map_of_mem listed : entry.1 ∈ sources.cached floats fallbackPrice clock) with cached | earlier
      · exact Int.le_of_lt (past _ cached)
      · exact Int.le_of_lt earlier
  · exact sum_rowsOf within (Int.le_refl _) _

/-- What rows of the page add up to in a column. -/
def columnSum (page : Page) (rows : Finset Nat) (column : DayRow → Int) : Int :=
  ∑ j ∈ rows, (page.days[j]?).elim 0 column

/-- Some rows add up to a bar. -/
structure Adds (page : Page) (rows : Finset Nat) (bar : MonthRow) : Prop where
  coins : columnSum page rows DayRow.coins = bar.coins
  minutes : columnSum page rows DayRow.minutes = bar.minutes
  vouchers : columnSum page rows DayRow.vouchers = bar.vouchers
  voucherRev : columnSum page rows DayRow.voucherRev = bar.voucherRev

theorem columnSum_eq (mk : Int) (column : DayRow → Int) :
    columnSum (handleAdminSales floats fallbackPrice lib pricePerCoin minutesPerCoin clock sources)
        (rowsOf (sources.todayDay clock) mk) column =
      ∑ j ∈ rowsOf (sources.todayDay clock) mk, column (sources.dayRow floats fallbackPrice lib pricePerCoin clock j) := by
  refine Finset.sum_congr rfl fun j inside => ?_
  have shown := Finset.mem_range.mp (Finset.mem_filter.mp inside).1
  rw [handleAdminSales, getElem?_rows.mpr ⟨shown, rfl⟩, Option.elim_some]

/-- The bar of a month that begins within the rows is the sum of its rows, coins, minutes
    and vouchers alike, as long as no sale and no cached day is of a later day. -/
theorem bars_are_rows (sold : ∀ sale ∈ sources.sales, localDayNum clock.toTimeZone sale.ts ≤ sources.todayDay clock)
    (past : ∀ day ∈ sources.cache, day < sources.todayDay clock) :
    let page := handleAdminSales floats fallbackPrice lib pricePerCoin minutesPerCoin clock sources
    let today := sources.todayDay clock
    ∀ (i : Nat) (bar : MonthRow), page.months[i]? = some bar → today - 89 ≤ dayNumber (firstOf (monthOfSlot today i)) →
      Adds page (rowsOf today (monthOfSlot today i)) bar := by
  intro page today i bar at_ within
  obtain ⟨shown, rfl⟩ := getElem?_rows.mp at_
  have vendo := @vendo_rows clock.toTimeZone _ _ _ shown within sold
  have vouchers := @voucher_rows _ floats fallbackPrice _ _ _ shown within past
  refine ⟨?_, ?_, ?_, ?_⟩
  · rw [columnSum_eq]
    exact vendo (.fst _ _) (.fst _ _) fun _ _ => rfl
  · rw [columnSum_eq]
    exact vendo ((AddMonoidHom.fst _ _).comp (.snd _ _)) (.snd _ _) fun _ _ => rfl
  · rw [columnSum_eq]
    exact (map_sum (AddMonoidHom.fst Int Int) _ _).symm.trans (congrArg Prod.fst vouchers)
  · rw [columnSum_eq]
    exact (map_sum (AddMonoidHom.snd Int Int) _ _).symm.trans (congrArg Prod.snd vouchers)

end

theorem bars_are_rows_booted :
    let page := handleAdminSales VoucherDays.wholeFloats 5 Attribution.fiveLibrary 1 24 VoucherDays.manila bootedSources
    let today := bootedSources.todayDay VoucherDays.manila
    ∀ (i : Nat) (bar : MonthRow), page.months[i]? = some bar → today - 89 ≤ dayNumber (firstOf (monthOfSlot today i)) →
      Adds page (rowsOf today (monthOfSlot today i)) bar := by
  refine bars_are_rows (fun sale inside => ?_) fun day inside => (AList.notMem_empty day inside).elim
  have earlier : (sale.ts : Int) ≤ VoucherMonths.viewed.now := by
    have listed : sale.ts ∈ bootedSources.sales.map (·.ts) := List.mem_map_of_mem inside
    have times : bootedSources.sales.map (·.ts) = [1784500000, 1784515000] := by decide +kernel
    rw [times] at listed
    rcases List.mem_cons.mp listed with first | later
    · rw [first]
      decide
    · rw [List.mem_singleton.mp later]
      decide
  exact localDayNum_mono VoucherDays.manila earlier

end EllaFi.SalesPage
