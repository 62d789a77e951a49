import EllaFi.MoneyStore
import EllaFi.Runs
import EllaFi.VoucherBody

/-!
The derived fields of the ledger, in the arithmetic of 32 bits that the device has. The
revenue and the commission of a group are computed when it is written, from a count, a price
and a rate that are bounded only by their type. They are the product and the rounded share
exactly where both products fit (`derived_iff`), and so along every run of imports, rollups,
saves and boots (`ledger_derived_iff`).
-/
namespace EllaFi.LedgerFields
open EllaFi.Totals EllaFi.MoneyStore
open EllaFi.Runs (run Throughout Always always_iff run_total throughout_congr)

/-- An `int`, and a `long` of the device. -/
abbrev Word : Type := BitVec 32

/-! ## One group -/

/-- What a group's derived fields are computed from. -/
structure Amounts where
  used : Word
  price : Word
  rate : Word

namespace Amounts
variable (amounts : Amounts)

def revenue : Int := (amounts.used * amounts.price).toInt

/-- The division of a `long` rounds toward zero. -/
def commission : Int := (amounts.used * amounts.price * amounts.rate).toInt.tdiv 100

/-- One of the multiplications overflows. -/
def Overflows : Prop :=
  amounts.used.smulOverflow amounts.price ∨ (amounts.used * amounts.price).smulOverflow amounts.rate

/-- Both products are in the range of a `long`. -/
structure Fits : Prop where
  revenue : -2147483648 ≤ amounts.used.toInt * amounts.price.toInt ∧ amounts.used.toInt * amounts.price.toInt < 2147483648
  commission : -2147483648 ≤ amounts.used.toInt * amounts.price.toInt * amounts.rate.toInt ∧
    amounts.used.toInt * amounts.price.toInt * amounts.rate.toInt < 2147483648

/-- A group as it is written. -/
def written (name seller month : String) (seen : Nat) (deleted : Bool) : Group where
  name := name
  seller := seller
  month := month
  used := amounts.used.toInt
  price := amounts.price.toInt
  rate := amounts.rate.toInt
  revenue := amounts.revenue
  commission := amounts.commission
  deleted := deleted
  seen := seen

end Amounts

/-- The revenue is what was used at its price, the commission its share in percent. -/
structure Derived (g : Group) : Prop where
  revenue : g.revenue = g.used * g.price
  commission : g.commission = (g.revenue * g.rate).tdiv 100
  between : 0 ≤ g.used → 0 ≤ g.price → 0 ≤ g.rate → g.rate ≤ 100 → 0 ≤ g.commission ∧ g.commission ≤ g.revenue

/-- A share of at most all is between nothing and all. -/
theorem share_between {amount rate : Int} (pos : 0 ≤ amount) (low : 0 ≤ rate) (high : rate ≤ 100) :
    0 ≤ (amount * rate).tdiv 100 ∧ (amount * rate).tdiv 100 ≤ amount := by
  have product := mul_nonneg pos low
  have most : amount * rate ≤ amount * 100 := mul_le_mul_of_nonneg_left high pos
  rw [Int.tdiv_eq_ediv_of_nonneg product]
  omega

/-- A wrapped product is the product exactly when that fits. -/
theorem toInt_mul_iff (x y : Word) :
    (x * y).toInt = x.toInt * y.toInt ↔ -2147483648 ≤ x.toInt * y.toInt ∧ x.toInt * y.toInt < 2147483648 := by
  have low := BitVec.le_toInt (x * y)
  have high := BitVec.toInt_lt (x := x * y)
  constructor
  · intro same
    rw [← same]
    omega
  · rintro ⟨least, most⟩
    rw [BitVec.toInt_mul, Int.bmod_eq_of_le (by omega) (by omega)]

theorem smulOverflow_iff (x y : Word) :
    x.smulOverflow y = true ↔ ¬ (-2147483648 ≤ x.toInt * y.toInt ∧ x.toInt * y.toInt < 2147483648) := by
  rw [BitVec.smulOverflow, Bool.or_eq_true, decide_eq_true_eq, decide_eq_true_eq]
  omega

/-- Rounded to hundreds, a wrapped number is the number only if nothing was wrapped. -/
theorem tdiv_wrapped {x : Int} (same : (x.bmod 4294967296).tdiv 100 = x.tdiv 100) : -2147483648 ≤ x ∧ x < 2147483648 := by
  have rounded (y : Int) : (0 ≤ y → y.tdiv 100 = y / 100) ∧ (y < 0 → y.tdiv 100 = -(-y / 100)) := by
    refine ⟨Int.tdiv_eq_ediv_of_nonneg, fun negative => ?_⟩
    rw [← Int.tdiv_eq_ediv_of_nonneg (by omega : 0 ≤ -y), Int.neg_tdiv, neg_neg]
  have exact_ := rounded x
  have wrapped := rounded (x.bmod 4294967296)
  rw [same] at wrapped
  generalize quotient : x.tdiv 100 = q at exact_ wrapped
  rw [Int.bmod_def] at wrapped
  split at wrapped <;> omega

section
variable {amounts : Amounts} {name seller month : String} {seen : Nat} {deleted : Bool}

/-- The derived fields are right exactly when both products fit. -/
theorem derived_iff : Derived (amounts.written name seller month seen deleted) ↔ amounts.Fits := by
  constructor
  · rintro ⟨revenue, commission, -⟩
    have product : (amounts.used * amounts.price).toInt = amounts.used.toInt * amounts.price.toInt := revenue
    refine ⟨(toInt_mul_iff _ _).mp product, ?_⟩
    rw [← product]
    have share : ((amounts.used * amounts.price).toInt * amounts.rate.toInt).bmod 4294967296 =
        (amounts.used * amounts.price * amounts.rate).toInt := (BitVec.toInt_mul _ _).symm
    exact tdiv_wrapped (share ▸ commission)
  · rintro ⟨first, second⟩
    have product := (toInt_mul_iff amounts.used amounts.price).mpr first
    have share : (amounts.used * amounts.price * amounts.rate).toInt = (amounts.used * amounts.price).toInt * amounts.rate.toInt :=
      (toInt_mul_iff _ _).mpr (product ▸ second)
    refine ⟨product, congrArg (Int.tdiv · 100) share, fun used price low high => ?_⟩
    have pos : 0 ≤ (amounts.used * amounts.price).toInt := product ▸ mul_nonneg used price
    simp only [Amounts.written, Amounts.commission, Amounts.revenue, share]
    exact share_between pos low high

theorem overflows_iff : amounts.Overflows ↔ ¬ amounts.Fits := by
  rw [Amounts.Overflows, smulOverflow_iff, smulOverflow_iff]
  constructor
  · rintro (first | second) fits
    · exact first fits.revenue
    · rw [(toInt_mul_iff _ _).mpr fits.revenue] at second
      exact second fits.commission
  · intro big
    by_cases first : -2147483648 ≤ amounts.used.toInt * amounts.price.toInt ∧ amounts.used.toInt * amounts.price.toInt < 2147483648
    · rw [(toInt_mul_iff _ _).mpr first]
      exact .inr fun second => big ⟨first, second⟩
    · exact .inl first

/-- Where the products fit, this is the group of unbounded arithmetic. -/
theorem written_of_fits (fits : amounts.Fits) :
    amounts.written name seller month seen deleted =
      { upserted name seller month amounts.used.toInt amounts.price.toInt amounts.rate.toInt seen with deleted := deleted } := by
  have product : amounts.revenue = amounts.used.toInt * amounts.price.toInt := (toInt_mul_iff _ _).mpr fits.revenue
  have share : (amounts.used * amounts.price * amounts.rate).toInt = amounts.revenue * amounts.rate.toInt :=
    (toInt_mul_iff _ _).mpr (by rw [show (amounts.used * amounts.price).toInt = _ from product]; exact fits.commission)
  rw [Amounts.written, Amounts.commission, share, product]
  rfl

end

theorem Derived.marked {g : Group} (derived : Derived g) (deleted : Bool) : Derived { g with deleted } :=
  ⟨derived.revenue, derived.commission, derived.between⟩

/-! ## Writes -/

/-- A group of an imported record. -/
structure ImportedWords where
  name : String := ""
  seller : String := ""
  month : String := ""
  amounts : Amounts
  seen : Nat := 0
  deleted : Bool := false

/-- A voucher group of the controller's list. -/
structure ListedWords where
  id : String
  name : String
  usedCount : Word
  price : Word
  createdMillis : Nat

def ListedWords.amounts (g : ListedWords) : Amounts :=
  { used := g.usedCount, price := g.price, rate := .ofInt 32 commissionRatePercent }

/-- The record in RAM, and as it was last saved. -/
structure Ledger where
  money : Money
  saved : Money

/-- An import and a rollup write one group after the other; a rollup then freezes the
    absent ones. -/
inductive Write where
  | imported (id : String) (s : ImportedWords)
  | listed (prices : Prices) (now : Nat) (g : ListedWords)
  | absent (liveIds : List String)
  | saved
  | booted

/-- An import writes no count that is not higher. -/
def ImportTaken (money : Money) (id : String) (s : ImportedWords) : Prop :=
  ∀ g ∈ money.groups.lookup id, g.used < s.amounts.used.toInt

instance (money : Money) (id : String) (s : ImportedWords) : Decidable (ImportTaken money id s) :=
  inferInstanceAs (Decidable (∀ g ∈ _, _))

def insertGroup (money : Money) (id : String) (g : Group) : Money := { money with groups := money.groups.insert id g }

def importWords (money : Money) (id : String) (s : ImportedWords) : Money :=
  if ImportTaken money id s then
    insertGroup money id (s.amounts.written s.name s.seller s.month s.seen s.deleted)
  else money

def listWords (prices : Prices) (now : Nat) (money : Money) (g : ListedWords) : Money :=
  if IsAutogen g.name then
    insertGroup money g.id
      (g.amounts.written g.name (sellerOf g.name) (monthOf prices (g.createdMillis / 1000)) now false)
  else money

def step (ledger : Ledger) : Write → Option Ledger
  | .imported id s => some { ledger with money := importWords ledger.money id s }
  | .listed prices now g => some { ledger with money := listWords prices now ledger.money g }
  | .absent liveIds => some { ledger with money := moneyMarkAbsent ledger.money liveIds }
  | .saved => some { ledger with saved := ledger.money }
  | .booted => some { ledger with money := ledger.saved }

/-- What a write computes with, when it writes a group. -/
def computed (ledger : Ledger) : Write → Option Amounts
  | .imported id s => if ImportTaken ledger.money id s then some s.amounts else none
  | .listed _ _ g => if IsAutogen g.name then some g.amounts else none
  | _ => none

def InRange (ledger : Ledger) (w : Write) : Prop := ∀ amounts ∈ computed ledger w, amounts.Fits

def AllDerived (money : Money) : Prop := ∀ id, ∀ g ∈ money.groups.lookup id, Derived g

/-! ## The writes of the record -/

/-- What the record's own functions read. -/
def ImportedWords.read (s : ImportedWords) : ImportedGroup where
  name := s.name
  seller := s.seller
  month := s.month
  used := s.amounts.used.toInt
  price := s.amounts.price.toInt
  rate := s.amounts.rate.toInt
  seen := s.seen
  deleted := s.deleted

def ListedWords.read (g : ListedWords) : VoucherGroup where
  id := g.id
  name := g.name
  usedCount := g.usedCount.toInt
  price := g.price.toInt
  createdMillis := g.createdMillis

section
variable {ledger next : Ledger} {money : Money}

/-- In range an imported group is written as in unbounded arithmetic. -/
theorem importWords_eq {id : String} {s : ImportedWords} (fits : ImportTaken money id s → s.amounts.Fits) :
    importWords money id s = importGroup money (id, s.read) := by
  unfold importWords importGroup
  by_cases taken : ImportTaken money id s
  · rw [if_pos taken, written_of_fits (fits taken)]
    cases found : money.groups.lookup id with
    | none => rfl
    | some g =>
      have higher := taken g found
      exact (if_neg (Int.not_le.mpr higher)).symm
  · rw [if_neg taken]
    cases found : money.groups.lookup id with
    | none => exact absurd (fun g inside => by simp [found] at inside) taken
    | some g =>
      refine (if_pos (Int.not_lt.mp fun higher => taken fun other inside => ?_)).symm
      obtain rfl : g = other := Option.some.inj (found.symm.trans inside)
      exact higher

/-- So is a listed one. -/
theorem listWords_eq {prices : Prices} {now : Nat} {g : ListedWords} (fits : IsAutogen g.name → g.amounts.Fits) (pass : Pass) :
    listWords prices now pass.money g = (rollupGroup prices now pass g.read).money := by
  unfold listWords rollupGroup
  by_cases own : IsAutogen g.name
  · rw [if_pos own, written_of_fits (fits own), if_pos (show IsAutogen g.read.name from own)]
    rfl
  · rw [if_neg own, if_neg (show ¬ IsAutogen g.read.name from own)]

/-! ## Runs -/

theorem allDerived_insert {id : String} {g : Group} (derived : AllDerived money) (new : Derived g) :
    AllDerived (insertGroup money id g) := by
  intro other found inside
  rw [insertGroup, lookup_insert_eq] at inside
  split at inside
  · obtain rfl := Option.some.inj inside
    exact new
  · exact derived other found inside

theorem allDerived_absent {liveIds : List String} (derived : AllDerived money) : AllDerived (moneyMarkAbsent money liveIds) := by
  intro id found inside
  simp only [moneyMarkAbsent, lookup_mapValues, Option.mem_def, Option.map_eq_some_iff] at inside
  obtain ⟨g, there, rfl⟩ := inside
  split
  · exact derived id g there
  · exact (derived id g there).marked true

theorem derived_of_insert {id : String} {g : Group} (derived : AllDerived (insertGroup money id g)) : Derived g :=
  derived id g (by simp [insertGroup])

/-- What a write does: it writes a group that is right exactly if it is in range, or none. -/
theorem step_cases {w : Write} (taken : step ledger w = some next) :
    (∃ amounts id g, computed ledger w = some amounts ∧ (Derived g ↔ amounts.Fits) ∧
      next = { ledger with money := insertGroup ledger.money id g }) ∨
    (computed ledger w = none ∧ (next = ledger ∨ (∃ liveIds, next = { ledger with money := moneyMarkAbsent ledger.money liveIds }) ∨
      next = { ledger with saved := ledger.money } ∨ next = { ledger with money := ledger.saved })) := by
  cases w with
  | imported id s =>
    obtain rfl := Option.some.inj taken
    by_cases higher : ImportTaken ledger.money id s
    · exact .inl ⟨s.amounts, id, _, if_pos higher, derived_iff, by rw [importWords, if_pos higher]⟩
    · exact .inr ⟨if_neg higher, .inl (by rw [importWords, if_neg higher])⟩
  | listed prices now g =>
    obtain rfl := Option.some.inj taken
    by_cases own : IsAutogen g.name
    · exact .inl ⟨g.amounts, g.id, _, if_pos own, derived_iff, by rw [listWords, if_pos own]⟩
    · exact .inr ⟨if_neg own, .inl (by rw [listWords, if_neg own])⟩
  | absent liveIds => exact .inr ⟨rfl, .inr (.inl ⟨liveIds, (Option.some.inj taken).symm⟩)⟩
  | saved => exact .inr ⟨rfl, .inr (.inr (.inl (Option.some.inj taken).symm))⟩
  | booted => exact .inr ⟨rfl, .inr (.inr (.inr (Option.some.inj taken).symm))⟩

/-- In RAM and as saved. -/
def BothDerived (ledger : Ledger) : Prop := AllDerived ledger.money ∧ AllDerived ledger.saved

theorem step_keeps {w : Write} (derived : BothDerived ledger) (inRange : InRange ledger w)
    (taken : step ledger w = some next) : BothDerived next := by
  obtain ⟨ram, flash⟩ := derived
  rcases step_cases taken with ⟨amounts, id, g, used, right, rfl⟩ | ⟨-, rfl | ⟨liveIds, rfl⟩ | rfl | rfl⟩
  · exact ⟨allDerived_insert ram (right.mpr (inRange amounts used)), flash⟩
  · exact ⟨ram, flash⟩
  · exact ⟨allDerived_absent ram, flash⟩
  · exact ⟨ram, ram⟩
  · exact ⟨flash, flash⟩

theorem step_loses {w : Write} (out : ¬ InRange ledger w) (taken : step ledger w = some next) : ¬ AllDerived next.money := by
  intro derived
  refine out fun amounts used => ?_
  rcases step_cases taken with ⟨own, id, g, same, right, rfl⟩ | ⟨none_, -⟩
  · obtain rfl : own = amounts := Option.some.inj (same.symm.trans used)
    exact right.mp (derived_of_insert derived)
  · rw [Option.mem_def, none_] at used
    cases used

end

def blank : Ledger := { money := .empty, saved := .empty }

/-- No multiplication of a write overflows. -/
def Exact (ledger : Ledger) (w : Write) : Prop := ∀ amounts ∈ computed ledger w, ¬ amounts.Overflows

theorem exact_iff (ledger : Ledger) (w : Write) : Exact ledger w ↔ InRange ledger w :=
  forall₂_congr fun _ _ => by rw [overflows_iff, not_not]

theorem blank_derived : BothDerived blank :=
  have none_ : AllDerived .empty := fun id g inside => by simp [Money.empty] at inside
  ⟨none_, none_⟩

/-- Along a run every group has the revenue and the commission of its count, price and
    rate, and no multiplication overflows, exactly when both products fit at every write. -/
theorem ledger_derived_iff (writes : List Write) :
    (Always step (fun ledger => AllDerived ledger.money) blank writes ∧ Throughout step Exact blank writes) ↔
      Throughout step InRange blank writes := by
  have total (ledger : Ledger) (w : Write) : ∃ next, step ledger w = some next := by cases w <;> exact ⟨_, rfl⟩
  obtain ⟨last, ran⟩ := run_total total blank writes
  have always : Always step (fun ledger => AllDerived ledger.money) blank writes ↔ Throughout step InRange blank writes :=
    always_iff (fun _ _ _ _ _ => trivial : ∀ ledger w next, True → step ledger w = some next → True)
      (fun _ _ _ _ derived inRange taken => step_keeps derived inRange taken) (fun _ derived => derived.1)
      (fun _ _ _ _ _ out taken => step_loses out taken) trivial blank_derived ran
  rw [always, throughout_congr exact_iff, and_self]

/-! ## A dear group -/

/-- Seventeen pages of vouchers at a million pesos each. -/
def dearOrder : VoucherBody.Order where
  pages := 17
  durationMin := 1440
  price := 1000000
  seller := "Ana".toList
  pages_pos := by decide
  duration_pos := by decide
  price_pos := by decide
  price_fits := by decide
  named := by decide

/-- The controller lists the group with almost all of it used. -/
def dearGroup : ListedWords where
  id := "g1"
  name := String.ofList (dearOrder.name 0)
  usedCount := 2200
  price := .ofInt 32 dearOrder.price
  createdMillis := 0

/-- Its revenue is stored as a negative number. -/
theorem dear_group_wraps :
    (dearGroup.usedCount.toInt ≤ dearOrder.qty ∧ dearGroup.price.toInt = dearOrder.price) ∧
      ¬ ∀ writes, Always step (fun ledger => AllDerived ledger.money) blank writes := by
  refine ⟨by decide, fun always => ?_⟩
  have own : IsAutogen dearGroup.name := by decide
  have stored : AllDerived (listWords { utcOffset := 28800, pricePerCoin := 5 } 1760000000 blank.money dearGroup) :=
    (always [.listed { utcOffset := 28800, pricePerCoin := 5 } 1760000000 dearGroup]).2 _ rfl
  rw [listWords, if_pos own] at stored
  exact absurd (derived_iff.mp (derived_of_insert stored)).revenue (by decide)

end EllaFi.LedgerFields
