import EllaFi.Files
import EllaFi.Totals
import Mathlib.Data.Nat.Find

/-!
The durable record of money: a ledger of voucher groups by the controller's group
id and an income for each month. It lives in RAM and is saved as one blob. The
nightly rollup reads the controller's groups, writes the sellers' day to a journal,
recomputes the income from the sale log and the ledger, and saves. The sale log is
trimmed at every boot.

Counts and pesos are whole numbers here and words of 32 bits in the firmware; the two agree
while no count, product or sum leaves the range of a word.
-/
namespace EllaFi.MoneyStore
open EllaFi.Files EllaFi.Totals

/-! ## The record -/

/-- One group's contribution, frozen at the last count that was seen. -/
structure Group where
  name : String
  seller : String
  month : String
  used : Int
  price : Int
  rate : Int
  revenue : Int
  commission : Int
  deleted : Bool
  seen : Nat
deriving DecidableEq, Repr

/-- A month's pesos: coins, and vouchers. -/
structure Income where
  vendo : Int
  voucher : Int
deriving DecidableEq, Repr

structure Money where
  groups : Table String Group
  income : Table String Income

def Money.empty : Money := { groups := ∅, income := ∅ }

/-- A group as it is written; the derived amounts are computed anew. -/
def upserted (name seller month : String) (used price rate : Int) (seen : Nat) : Group where
  name := name
  seller := seller
  month := month
  used := used
  price := price
  rate := rate
  revenue := used * price
  commission := (used * price * rate).tdiv 100
  deleted := false
  seen := seen

section
variable (money : Money)

def moneyUpsertGroup (id name seller month : String) (used price rate : Int) (seen : Nat) : Money :=
  { money with groups := money.groups.insert id (upserted name seller month used price rate seen) }

/-- Groups that were not seen are frozen. -/
def moneyMarkAbsent (liveIds : List String) : Money :=
  let frozen (id : String) (group : Group) : Group := if id ∈ liveIds then group else { group with deleted := true }
  { money with groups := mapValues frozen money.groups }

def moneySetIncome (month : String) (vendo voucher : Int) : Money :=
  { money with income := money.income.insert month { vendo, voucher } }

def moneyGroupUsed (id : String) : Int := ((money.groups.lookup id).map (·.used)).getD 0

/-- The coin income of a month; 0 where the record has none. -/
def vendoOf (month : String) : Int := ((money.income.lookup month).map (·.vendo)).getD 0

end

/-! ## Imports -/

/-- A group of an imported record; a field that it omits has its default. -/
structure ImportedGroup where
  name : String := ""
  seller : String := ""
  month : String := ""
  used : Int := 0
  price : Int := 0
  rate : Int := 0
  seen : Nat := 0
  deleted : Bool := false
deriving DecidableEq, Repr

structure ImportedIncome where
  vendo : Option Int
  voucher : Option Int
deriving DecidableEq, Repr

structure Payload where
  groups : List (String × ImportedGroup)
  income : List (String × ImportedIncome)

/-- An imported group is written like a live one, and then keeps its own mark. -/
def importedGroup (s : ImportedGroup) : Group :=
  { upserted s.name s.seller s.month s.used s.price s.rate s.seen with deleted := s.deleted }

/-- The higher count wins. -/
def importGroup (money : Money) (entry : String × ImportedGroup) : Money :=
  let written := { money with groups := money.groups.insert entry.1 (importedGroup entry.2) }
  match money.groups.lookup entry.1 with
  | none => written
  | some g => if entry.2.used ≤ g.used then money else written

/-- A side that the import omits keeps its value. -/
def importIncome (money : Money) (entry : String × ImportedIncome) : Money :=
  let (month, s) := entry
  let cur := money.income.lookup month
  moneySetIncome money month (s.vendo.getD ((cur.map (·.vendo)).getD 0))
    (s.voucher.getD ((cur.map (·.voucher)).getD 0))

/-- A payload that does not parse is refused. -/
def moneyImport (payload : Option Payload) (money : Money) : Money :=
  match payload with
  | none => money
  | some payload => payload.income.foldl importIncome (payload.groups.foldl importGroup money)

/-! ## The sale log by month -/

/-- The globals that money depends on. -/
structure Prices where
  /-- The local time's offset in seconds, which the controller sets: the same all year, and
      not behind UTC. -/
  utcOffset : Nat
  pricePerCoin : Nat

def isLeap (year : Nat) : Bool := year % 4 = 0 && (year % 100 ≠ 0 || year % 400 = 0)

/-- The days of the years before `year`, from year 1 on. -/
def daysBeforeYear (year : Nat) : Nat := 365 * (year - 1) + (year - 1) / 4 - (year - 1) / 100 + (year - 1) / 400

/-- The day since 1970 that a month since January 1970 begins with. -/
def monthStart (month : Nat) : Nat :=
  let year := 1970 + month / 12
  let before := [0, 31, 59, 90, 120, 151, 181, 212, 243, 273, 304, 334].getD (month % 12) 0
  daysBeforeYear year - daysBeforeYear 1970 + before + if isLeap year ∧ 2 ≤ month % 12 then 1 else 0

/-- The month that a day is in; no month has fewer than 28 days. -/
def monthOfDay (day : Nat) : Nat := Nat.findGreatest (fun month => monthStart month ≤ day) (day / 28)

/-- Local time as `%Y-%m`. -/
def monthOf (prices : Prices) (t : Nat) : String :=
  let month := monthOfDay ((t + prices.utcOffset) / 86400)
  toString (1970 + month / 12) ++ "-" ++ (if month % 12 < 9 then "0" else "") ++ toString (month % 12 + 1)

/-- Lines without a time or coins are passed over. -/
def Counted (sale : Sale) : Prop := 0 < sale.ts ∧ 0 < sale.coins

instance (sale : Sale) : Decidable (Counted sale) := inferInstanceAs (Decidable (_ ∧ _))

/-- What a line of the sale log adds to its month. -/
def saleEntry (prices : Prices) (sale : Sale) : String × Int :=
  (monthOf prices sale.ts, (sale.coins : Int) * prices.pricePerCoin)

def saleEntries (prices : Prices) (sales : List Sale) : List (String × Int) :=
  (sales.filter fun sale => Counted sale).map (saleEntry prices)

def moneyVendoMonths (prices : Prices) (sales : List Sale) : Table String Int :=
  (saleEntries prices sales).foldl add ∅

/-! ## The controller's groups -/

/-- A voucher group as the controller lists it; a count that is missing is 0, and
    so is a price where the description has none. -/
structure VoucherGroup where
  id : String
  name : String
  usedCount : Int
  price : Int
  createdMillis : Nat
deriving DecidableEq, Repr

structure VoucherDocument where
  errorCode : Int
  data : List VoucherGroup

/-- What the request for the groups comes to. A body that does not parse leaves the
    fields read so far, an error code of 0 unless one was read, or nothing at all. -/
inductive VoucherReply where
  | loginFailed
  | transport
  | badResponse
  | body (parses : Bool) (document : Option VoucherDocument)

/-- The document is returned whether or not the body parses. -/
def getVoucherGroupsJson : VoucherReply → Option VoucherDocument
  | .body _ document => document
  | _ => none

def voucherPageSize : Nat := 100

def autogenPrefix : String := "AUTOGEN: "

def IsAutogen (name : String) : Prop := autogenPrefix.toList <+: name.toList

instance (name : String) : Decidable (IsAutogen name) := inferInstanceAs (Decidable (_ <+: _))

/-- What follows the first space behind the prefix. -/
def sellerOf (name : String) : String :=
  String.ofList (((name.toList.drop 9).dropWhile (· ≠ ' ')).drop 1)

def commissionRatePercent : Int := 20

/-! ## The rollup -/

/-- A line of `/seller_days.json`. -/
structure SellerDay where
  ts : Nat
  sellers : List (String × Int)

/-- The master's data that money depends on. -/
structure Books where
  /-- Seconds of Unix time. -/
  now : Nat
  sales : List Sale
  sellerDays : List SellerDay
  /-- The record in RAM. -/
  money : Money
  /-- The record as it was last saved. -/
  saved : Money

section
variable (prices : Prices)

/-- The pass over the controller's groups. -/
structure Pass where
  money : Money
  sellerDay : Table String Int
  live : List String

def rollupEntry (now : Nat) (g : VoucherGroup) : Group :=
  upserted g.name (sellerOf g.name) (monthOf prices (g.createdMillis / 1000)) g.usedCount g.price
    commissionRatePercent now

def rollupGroup (now : Nat) (pass : Pass) (g : VoucherGroup) : Pass :=
  if IsAutogen g.name then
    let prevUsed := moneyGroupUsed pass.money g.id
    { money := moneyUpsertGroup pass.money g.id g.name (sellerOf g.name)
        (monthOf prices (g.createdMillis / 1000)) g.usedCount g.price commissionRatePercent now
      sellerDay :=
        if prevUsed < g.usedCount ∧ sellerOf g.name ≠ "" ∧ 0 < g.price then
          add pass.sellerDay (sellerOf g.name, (g.usedCount - prevUsed) * g.price)
        else pass.sellerDay
      live := g.id :: pass.live }
  else pass

/-- The groups are read only from a document that reports no error. -/
def Fetched (raw : Option VoucherDocument) : Prop := ∃ document, raw = some document ∧ document.errorCode = 0

instance (raw : Option VoucherDocument) : Decidable (Fetched raw) :=
  match raw with
  | none => .isFalse nofun
  | some document =>
    decidable_of_iff (document.errorCode = 0) ⟨fun ok => ⟨_, rfl, ok⟩, fun ⟨_, same, ok⟩ => by cases same; exact ok⟩

def rollupPass (raw : Option VoucherDocument) (now : Nat) (money : Money) : Pass :=
  let before : Pass := { money := money, sellerDay := ∅, live := [] }
  match raw with
  | none => before
  | some document =>
    if document.errorCode = 0 then
      let pass := document.data.foldl (rollupGroup prices now) before
      { pass with money := moneyMarkAbsent pass.money pass.live }
    else before

/-- The sellers' day is written where there is one and the file opens. -/
def journal (opens : Bool) (now : Nat) (sellerDay : Table String Int) (sellerDays : List SellerDay) : List SellerDay :=
  if sellerDay.entries ≠ [] ∧ opens then
    sellerDays ++ [{ ts := now, sellers := sellerDay.entries.map fun entry => (entry.1, entry.2) }]
  else sellerDays

/-- The revenue of the ledger by month. -/
def voucherMonths (groups : Table String Group) : Table String Int :=
  (groups.entries.map fun entry => (entry.2.month, entry.2.revenue)).foldl add ∅

/-- The income of a month from the sale log and the ledger; a month that is not in
    the log keeps its coin income. -/
def monthIncome (vendo voucher : Table String Int) (month : String) (cur : Option Income) : Income where
  vendo := (vendo.lookup month).getD ((cur.map (·.vendo)).getD 0)
  voucher := total voucher month

def incomeMonths (vendo voucher : Table String Int) (income : Table String Income) : List String :=
  (vendo.keys ++ voucher.keys ++ income.keys).dedup

def refreshIncome (sales : List Sale) (money : Money) : Money :=
  let vendo := moneyVendoMonths prices sales
  let voucher := voucherMonths money.groups
  { money with income :=
      (incomeMonths vendo voucher money.income).foldl (revise (monthIncome vendo voucher)) money.income }

def moneyNightlyRollup (raw : Option VoucherDocument) (journalOpens saves : Bool) (books : Books) : Books :=
  let pass := rollupPass prices raw books.now books.money
  let money := refreshIncome prices books.sales pass.money
  { books with
    sellerDays := journal journalOpens books.now pass.sellerDay books.sellerDays
    money := money
    saved := if saves then money else books.saved }

end

/-! ## Boots -/

def ntpEpochMin : Nat := 1000000000

/-- Lines of known age that are too old are dropped, then the oldest beyond
    `maxEntries`; 0 is no cap. Nothing happens where a file does not open. -/
def purgeOldLogEntries {Line : Type} (ts : Line → Nat) (opens : Bool) (now maxAgeSeconds maxEntries : Nat)
    (lines : List Line) : List Line :=
  if opens then
    let surviving := lines.filter fun line => ¬ (ntpEpochMin ≤ ts line ∧ ts line + maxAgeSeconds < now)
    surviving.drop (if 0 < maxEntries then surviving.length - maxEntries else 0)
  else lines

def logAgeSeconds : Nat := 365 * 86400

/-- The logs are trimmed, and the record is what was saved. -/
def boot (opens : Bool) (books : Books) : Books :=
  { books with
    sales := purgeOldLogEntries (·.ts) opens books.now logAgeSeconds 0 books.sales
    sellerDays := purgeOldLogEntries (·.ts) opens books.now logAgeSeconds 0 books.sellerDays
    money := books.saved }

end EllaFi.MoneyStore
