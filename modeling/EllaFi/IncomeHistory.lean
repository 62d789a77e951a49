import EllaFi.Runs
import EllaFi.MoneyStore
import Mathlib.Data.List.Dedup

/-!
The coin income of past months over days, sales, boots and nightly rollups. A rollup
replaces the income of every month in the sale log by what the log has of it
(`refreshIncome_vendo`), and boots drop old lines from the log. So recorded income
stays exactly when no rollup finds a month with some lines dropped and some left,
and no boot finds a lower income saved (`vendo_never_erodes_iff`). A device that runs
for a year and a month gets there by itself (`old_month_erodes`).
-/
namespace EllaFi.IncomeHistory
open EllaFi.Files EllaFi.MoneyStore EllaFi.Totals
open EllaFi.Runs (run Climbs Throughout watch watch_some climbs_iff throughout_iff throughout_and)

/-! ## Income from the log -/

section
variable (prices : Prices)

/-- The log has a line that counts for the month. -/
def InMonth (sales : List Sale) (month : String) : Prop := ∃ sale ∈ sales, Counted sale ∧ monthOf prices sale.ts = month

instance (sales : List Sale) (month : String) : Decidable (InMonth prices sales month) :=
  inferInstanceAs (Decidable (∃ sale ∈ sales, _ ∧ _))

/-- What the lines of a month add up to. -/
def monthSum (sales : List Sale) (month : String) : Int := sumOf month (saleEntries prices sales)

end

section
variable {prices : Prices} {sales : List Sale} {month : String} {money : Money}

theorem saleEntries_append (before after : List Sale) :
    saleEntries prices (before ++ after) = saleEntries prices before ++ saleEntries prices after := by
  simp [saleEntries]

theorem monthSum_append (before after : List Sale) (month : String) :
    monthSum prices (before ++ after) month = monthSum prices before month + monthSum prices after month := by
  rw [monthSum, saleEntries_append, sumOf_append]
  rfl

theorem monthSum_nonneg (sales : List Sale) (month : String) : 0 ≤ monthSum prices sales month := by
  induction sales with
  | nil => exact Int.le_refl _
  | cons sale rest ih =>
    rw [← List.singleton_append, monthSum_append]
    refine Int.add_nonneg ?_ ih
    unfold monthSum saleEntries
    by_cases counted : Counted sale
    · by_cases here : monthOf prices sale.ts = month
      · simpa [counted, here, sumOf, saleEntry] using Int.mul_nonneg (Int.natCast_nonneg _) (Int.natCast_nonneg _)
      · simp [counted, here, sumOf, saleEntry]
    · simp [counted]

theorem monthSum_absent (absent : ¬ InMonth prices sales month) : monthSum prices sales month = 0 := by
  have none_ : (saleEntries prices sales).filter (fun entry => entry.1 = month) = [] := by
    rw [List.filter_eq_nil_iff]
    intro entry inside same
    obtain ⟨sale, there, rfl⟩ := List.mem_map.mp inside
    obtain ⟨inLog, counted⟩ := List.mem_filter.mp there
    exact absent ⟨sale, inLog, by simpa using counted, of_decide_eq_true same⟩
  simp [monthSum, sumOf, none_]

theorem inMonth_iff : InMonth prices sales month ↔ ∃ entry ∈ saleEntries prices sales, entry.1 = month := by
  simp [InMonth, saleEntries, saleEntry, and_assoc]

theorem lookup_vendoMonths (month : String) :
    (InMonth prices sales month ∧ (moneyVendoMonths prices sales).lookup month = some (monthSum prices sales month)) ∨
      (¬ InMonth prices sales month ∧ (moneyVendoMonths prices sales).lookup month = none) := by
  rw [moneyVendoMonths, lookup_foldl_add, inMonth_iff]
  by_cases inLog : ∃ entry ∈ saleEntries prices sales, entry.1 = month
  · exact .inl ⟨inLog, if_pos inLog⟩
  · exact .inr ⟨inLog, if_neg inLog⟩

/-- The income of a month is what the log has of it, where the log has any. -/
theorem refreshIncome_vendo (sales : List Sale) (money : Money) (month : String) :
    (InMonth prices sales month ∧ vendoOf (refreshIncome prices sales money) month = monthSum prices sales month) ∨
      (¬ InMonth prices sales month ∧ vendoOf (refreshIncome prices sales money) month = vendoOf money month) := by
  have revised : (refreshIncome prices sales money).income.lookup month =
      if month ∈ incomeMonths (moneyVendoMonths prices sales) (voucherMonths money.groups) money.income then
        some (monthIncome (moneyVendoMonths prices sales) (voucherMonths money.groups) month (money.income.lookup month))
      else money.income.lookup month :=
    lookup_foldl_revise (List.nodup_dedup _) _ _ _
  rcases @lookup_vendoMonths prices sales month with ⟨inLog, there⟩ | ⟨absent, missing⟩
  · refine .inl ⟨inLog, ?_⟩
    have listed : month ∈ incomeMonths (moneyVendoMonths prices sales) (voucherMonths money.groups) money.income := by
      have known : month ∈ (moneyVendoMonths prices sales).keys :=
        AList.mem_keys.mp (AList.lookup_isSome.mp (by rw [there]; rfl))
      exact List.mem_dedup.mpr (List.mem_append_left _ (List.mem_append_left _ known))
    rw [vendoOf, revised, if_pos listed]
    simp [monthIncome, there]
  · refine .inr ⟨absent, ?_⟩
    rw [vendoOf, revised]
    split
    · simp [monthIncome, missing, vendoOf]
    · rfl

end

/-! ## Days, sales, boots and rollups -/

inductive Action where
  | elapse (seconds : Nat)
  | sale (opens : Bool) (coins minutes : Nat) (nodeMac : String)
  | boot (opens : Bool)
  | rollup (reply : VoucherReply) (journalOpens saves : Bool)

/-- The sale log with one more line. -/
def logSale (opens : Bool) (coins minutes : Nat) (nodeMac : String) (books : Books) : List Sale :=
  (appendSaleLog { Flash.empty with sales := books.sales } (books.now * 1000) opens coins minutes nodeMac).sales

/-- The lines that a boot drops. -/
def dropped (opens : Bool) (now : Nat) (sales : List Sale) : List Sale :=
  if opens then sales.filter fun sale => ntpEpochMin ≤ sale.ts ∧ sale.ts + logAgeSeconds < now else []

section
variable (prices : Prices)

def step (books : Books) : Action → Option Books
  | .elapse seconds => some { books with now := books.now + seconds }
  | .sale opens coins minutes nodeMac => some { books with sales := logSale opens coins minutes nodeMac books }
  | .boot opens => some (boot opens books)
  | .rollup reply journalOpens saves =>
    some (moneyNightlyRollup prices (getVoucherGroupsJson reply) journalOpens saves books)

/-- The lines that boots have dropped so far. -/
def note (books : Books) (action : Action) (purged : List Sale) : List Sale :=
  match action with
  | .boot opens => purged ++ dropped opens books.now books.sales
  | _ => purged

/-- A step beside which the dropped lines are kept. -/
def watched : Books × List Sale → Action → Option (Books × List Sale) := watch (step prices) note

/-- No time from now on is in the month. -/
def Over (now : Nat) (month : String) : Prop := ∀ t, now ≤ t → monthOf prices t ≠ month

/-- Time goes on, and the income of months that are over does not decrease. -/
def VendoKept (before after : Books × List Sale) : Prop :=
  before.1.now ≤ after.1.now ∧
    ∀ month, Over prices before.1.now month → vendoOf before.1.money month ≤ vendoOf after.1.money month

/-- The step does not replace a month's income by the sum of the part of its lines
    that survived. -/
def NoPartialSum (s : Books × List Sale) (action : Action) : Prop :=
  ∀ reply journalOpens saves, action = .rollup reply journalOpens saves →
    ∀ month, InMonth prices s.2 month → InMonth prices s.1.sales month →
      vendoOf (moneyNightlyRollup prices (getVoucherGroupsJson reply) journalOpens saves s.1).money month ≠
        monthSum prices s.1.sales month

/-- A rollup finds no month of which some lines are dropped and some are left, and a
    boot finds no lower income saved for a month that is over. -/
def Whole (s : Books × List Sale) : Action → Prop
  | .rollup .. => ∀ month, InMonth prices s.2 month → ¬ InMonth prices s.1.sales month
  | .boot _ => ∀ month, Over prices s.1.now month → vendoOf s.1.money month ≤ vendoOf s.1.saved month
  | .elapse _ | .sale .. => True

/-- A record holds no more for a month than its lines add up to, unless the month
    was over before its first line. -/
def Backed (now : Nat) (lines : List Sale) (money : Money) : Prop :=
  ∀ month, vendoOf money month ≤ monthSum prices lines month ∨ (Over prices now month ∧ ¬ InMonth prices lines month)

/-- Both records are backed by the lines that were ever written. -/
def BooksBacked (s : Books × List Sale) : Prop :=
  Backed prices s.1.now (s.2 ++ s.1.sales) s.1.money ∧ Backed prices s.1.now (s.2 ++ s.1.sales) s.1.saved

/-- A device with an empty log, and no income but of months that are over. -/
def Fresh (books : Books) : Prop :=
  books.sales = [] ∧ ∀ month, Over prices books.now month ∨ (vendoOf books.money month = 0 ∧ vendoOf books.saved month = 0)

end

section
variable {prices : Prices} {now later : Nat} {lines more : List Sale} {money : Money} {s next : Books × List Sale}
  {action : Action}

theorem over_later {month : String} (after : now ≤ later) (finished : Over prices now month) : Over prices later month :=
  fun t future => finished t (Nat.le_trans after future)

theorem inMonth_append {before after : List Sale} {month : String} :
    InMonth prices (before ++ after) month ↔ InMonth prices before month ∨ InMonth prices after month := by
  simp only [InMonth, List.mem_append]
  constructor
  · rintro ⟨sale, front | back, counted⟩
    · exact .inl ⟨sale, front, counted⟩
    · exact .inr ⟨sale, back, counted⟩
  · rintro (⟨sale, front, counted⟩ | ⟨sale, back, counted⟩)
    · exact ⟨sale, .inl front, counted⟩
    · exact ⟨sale, .inr back, counted⟩

theorem backed_later (after : now ≤ later) (backed : Backed prices now lines money) : Backed prices later lines money :=
  fun month => (backed month).imp_right fun ⟨finished, absent⟩ => ⟨over_later after finished, absent⟩

/-- A new line is of the month that it is now, which is not over. -/
theorem backed_append (current : ∀ sale ∈ more, sale.ts = now) (backed : Backed prices now lines money) :
    Backed prices now (lines ++ more) money := by
  intro month
  rcases backed month with within | ⟨finished, absent⟩
  · refine .inl ?_
    have positive := @monthSum_nonneg prices more month
    rw [monthSum_append]
    omega
  · refine .inr ⟨finished, fun inMonth => ?_⟩
    rcases inMonth_append.mp inMonth with old | ⟨sale, inside, -, same⟩
    · exact absent old
    · exact finished sale.ts (Nat.le_of_eq (current sale inside).symm) same

theorem backed_perm {other : List Sale} (perm : lines.Perm other) (backed : Backed prices now lines money) :
    Backed prices now other money := by
  intro month
  have sameSum : monthSum prices other month = monthSum prices lines month := by
    unfold monthSum sumOf saleEntries
    exact ((((perm.symm.filter _).map _).filter _).map _).sum_eq
  have sameLines : InMonth prices other month ↔ InMonth prices lines month := by
    simp only [InMonth, perm.mem_iff]
  rw [sameSum, sameLines]
  exact backed month

theorem logSale_eq (opens : Bool) (coins minutes : Nat) (nodeMac : String) (books : Books) :
    ∃ more, logSale opens coins minutes nodeMac books = books.sales ++ more ∧ ∀ sale ∈ more, sale.ts = books.now := by
  unfold logSale appendSaleLog
  cases opens with
  | false => exact ⟨[], by simp, nofun⟩
  | true => exact ⟨_, rfl, by simp⟩

/-- The lines that survive a boot and those that it drops are the lines there were. -/
theorem boot_perm (opens : Bool) (books : Books) (purged : List Sale) :
    (purged ++ books.sales).Perm (purged ++ dropped opens books.now books.sales ++ (boot opens books).sales) := by
  rw [List.append_assoc]
  refine List.Perm.append_left purged ?_
  cases opens with
  | false => simp [dropped, boot, purgeOldLogEntries]
  | true =>
    simp only [dropped, boot, purgeOldLogEntries, if_true, Nat.lt_irrefl, if_false, List.drop_zero]
    have negated : (fun sale : Sale => decide ¬(ntpEpochMin ≤ sale.ts ∧ sale.ts + logAgeSeconds < books.now)) =
        fun sale => !decide (ntpEpochMin ≤ sale.ts ∧ sale.ts + logAgeSeconds < books.now) := by
      funext sale
      exact decide_not
    rw [negated]
    exact (List.filter_append_perm _ books.sales).symm

theorem foldl_rollupGroup_income (data : List VoucherGroup) (pass : Pass) :
    (data.foldl (rollupGroup prices now) pass).money.income = pass.money.income := by
  induction data generalizing pass with
  | nil => rfl
  | cons g rest ih =>
    rw [List.foldl_cons, ih]
    unfold rollupGroup
    split <;> rfl

theorem rollupPass_income (raw : Option VoucherDocument) (now : Nat) (money : Money) :
    (rollupPass prices raw now money).money.income = money.income := by
  unfold rollupPass
  split
  · rfl
  · split
    · exact foldl_rollupGroup_income _ _
    · rfl

theorem rollup_vendo (raw : Option VoucherDocument) (journalOpens saves : Bool) (books : Books) (month : String) :
    (InMonth prices books.sales month ∧
        vendoOf (moneyNightlyRollup prices raw journalOpens saves books).money month =
          monthSum prices books.sales month) ∨
      (¬ InMonth prices books.sales month ∧
        vendoOf (moneyNightlyRollup prices raw journalOpens saves books).money month = vendoOf books.money month) := by
  rcases @refreshIncome_vendo prices books.sales (rollupPass prices raw books.now books.money).money month with
    ⟨inLog, sum⟩ | ⟨absent, kept⟩
  · exact .inl ⟨inLog, sum⟩
  · refine .inr ⟨absent, kept.trans ?_⟩
    rw [vendoOf, rollupPass_income]
    rfl

theorem backed_rollup {purged sales : List Sale} {other : Money}
    (backed : Backed prices now (purged ++ sales) money)
    (written : ∀ month, (InMonth prices sales month ∧ vendoOf other month = monthSum prices sales month) ∨
      (¬ InMonth prices sales month ∧ vendoOf other month = vendoOf money month)) :
    Backed prices now (purged ++ sales) other := by
  intro month
  rcases written month with ⟨-, sum⟩ | ⟨-, kept⟩
  · refine .inl ?_
    have positive := @monthSum_nonneg prices purged month
    rw [monthSum_append, sum]
    omega
  · rw [kept]
    exact backed month

theorem step_backed (backed : BooksBacked prices s) (taken : watched prices s action = some next) :
    BooksBacked prices next := by
  obtain ⟨books, purged⟩ := s
  obtain ⟨after, purgedAfter⟩ := next
  obtain ⟨moved, noted⟩ := watch_some.mp taken
  simp only at moved noted
  subst noted
  obtain ⟨money, saved⟩ := backed
  cases action with
  | elapse seconds =>
    cases moved
    exact ⟨backed_later (Nat.le_add_right _ _) money, backed_later (Nat.le_add_right _ _) saved⟩
  | sale opens coins minutes nodeMac =>
    cases moved
    obtain ⟨more, logged, current⟩ := logSale_eq opens coins minutes nodeMac books
    simp only [BooksBacked, note, logged, ← List.append_assoc]
    exact ⟨backed_append current money, backed_append current saved⟩
  | boot opens =>
    cases moved
    have same := boot_perm opens books purged
    exact ⟨backed_perm same saved, backed_perm same saved⟩
  | rollup reply journalOpens saves =>
    cases moved
    have rolled := backed_rollup money
      fun month => @rollup_vendo prices (getVoucherGroupsJson reply) journalOpens saves books month
    refine ⟨rolled, ?_⟩
    cases saves with
    | true => exact rolled
    | false => exact saved

/-- With the lines of a month all there, a rollup lowers no income. -/
theorem rollup_kept {books : Books} {purged : List Sale} {month : String}
    (backed : Backed prices books.now (purged ++ books.sales) books.money)
    (whole : InMonth prices purged month → ¬ InMonth prices books.sales month) (raw : Option VoucherDocument)
    (journalOpens saves : Bool) :
    vendoOf books.money month ≤ vendoOf (moneyNightlyRollup prices raw journalOpens saves books).money month := by
  rcases @rollup_vendo prices raw journalOpens saves books month with ⟨inLog, sum⟩ | ⟨-, kept⟩
  · have none_ : ¬ InMonth prices purged month := fun cut => whole cut inLog
    rcases backed month with within | ⟨-, absent⟩
    · rw [monthSum_append, monthSum_absent none_, zero_add] at within
      exact sum ▸ within
    · exact absurd (inMonth_append.mpr (.inr inLog)) absent
  · exact Int.le_of_eq kept.symm

/-- A step keeps the income of past months, and replaces none by a partial sum,
    exactly when it finds the months of the log whole. -/
theorem step_kept_iff (backed : BooksBacked prices s) (action : Action) :
    ((∀ next, watched prices s action = some next → VendoKept prices s next) ∧ NoPartialSum prices s action) ↔
      Whole prices s action := by
  obtain ⟨books, purged⟩ := s
  cases action with
  | elapse seconds =>
    refine iff_of_true ⟨?_, nofun⟩ trivial
    rintro next ⟨⟩
    exact ⟨Nat.le_add_right _ _, fun _ _ => Int.le_refl _⟩
  | sale opens coins minutes nodeMac =>
    refine iff_of_true ⟨?_, nofun⟩ trivial
    rintro next ⟨⟩
    exact ⟨Nat.le_refl _, fun _ _ => Int.le_refl _⟩
  | boot opens =>
    constructor
    · rintro ⟨kept, -⟩
      exact (kept _ rfl).2
    · intro whole
      refine ⟨?_, nofun⟩
      rintro next ⟨⟩
      exact ⟨Nat.le_refl _, whole⟩
  | rollup reply journalOpens saves =>
    constructor
    · rintro ⟨-, noPartial⟩ month cut inLog
      rcases @rollup_vendo prices (getVoucherGroupsJson reply) journalOpens saves books month with
        ⟨-, sum⟩ | ⟨absent, -⟩
      · exact noPartial reply journalOpens saves rfl month cut inLog sum
      · exact absent inLog
    · intro whole
      refine ⟨?_, fun _ _ _ _ month cut inLog => absurd inLog (whole month cut)⟩
      rintro next ⟨⟩
      exact ⟨Nat.le_refl _, fun month _ => rollup_kept backed.1 (whole month) _ _ _⟩

theorem fresh_backed {books : Books} (fresh : Fresh prices books) : BooksBacked prices (books, []) := by
  obtain ⟨blank, empty⟩ := fresh
  have none_ (month : String) : ¬ InMonth prices ([] ++ books.sales) month := by simp [blank, InMonth]
  constructor
  · intro month
    rcases empty month with finished | ⟨zero, -⟩
    · exact .inr ⟨finished, none_ month⟩
    · exact .inl (zero ▸ monthSum_nonneg _ _)
  · intro month
    rcases empty month with finished | ⟨-, zero⟩
    · exact .inr ⟨finished, none_ month⟩
    · exact .inl (zero ▸ monthSum_nonneg _ _)

theorem vendoKept_trans {first second third : Books × List Sale} (early : VendoKept prices first second)
    (late : VendoKept prices second third) : VendoKept prices first third :=
  ⟨Nat.le_trans early.1 late.1, fun month finished =>
    Int.le_trans (early.2 month finished) (late.2 month (over_later early.1 finished))⟩

/-- Over every run of days, sales, boots and rollups, the coin income of a month that
    is over never decreases and is never replaced by a partial sum, if and only if
    every rollup finds each month of the log whole and every boot finds the income of
    past months saved. -/
theorem vendo_never_erodes_iff {books : Books} (fresh : Fresh prices books) (actions : List Action) :
    (Climbs (watched prices) (VendoKept prices) (books, []) actions ∧
        Throughout (watched prices) (NoPartialSum prices) (books, []) actions) ↔
      Throughout (watched prices) (Whole prices) (books, []) actions := by
  have trans (first second third : Books × List Sale) (early : VendoKept prices first second)
      (late : VendoKept prices second third) : VendoKept prices first third := vendoKept_trans early late
  rw [climbs_iff trans, ← throughout_and]
  exact throughout_iff (fun _ _ _ => step_backed) (fun _ action backed => step_kept_iff backed action)
    (fresh_backed fresh)

end

/-! ## A year and a month -/

def coinPrices : Prices := { utcOffset := 28800, pricePerCoin := 1 }

/-- A device that starts in November 2023. -/
def started : Books where
  now := 1699000000
  sales := []
  sellerDays := []
  money := Money.empty
  saved := Money.empty

theorem started_fresh : Fresh coinPrices started := ⟨rfl, fun _ => .inr ⟨rfl, rfl⟩⟩

/-- No reply of the controller. -/
def nightly : Action := .rollup .transport true true

/-- A sale on two days of a month, a rollup, and nothing more until the first of the
    two is more than a year old. -/
def oldMonth : List Action :=
  [.sale true 5 24 "", .elapse 864000, .sale true 3 24 "", nightly, .elapse 31000000, .boot true]

theorem vendo_never_erodes_day :
    (Climbs (watched coinPrices) (VendoKept coinPrices) (started, []) [.sale true 5 24 "", nightly, .boot true] ∧
        Throughout (watched coinPrices) (NoPartialSum coinPrices) (started, []) [.sale true 5 24 "", nightly, .boot true]) ↔
      Throughout (watched coinPrices) (Whole coinPrices) (started, []) [.sale true 5 24 "", nightly, .boot true] :=
  vendo_never_erodes_iff started_fresh _

/-- The eight pesos of November 2023 become three in the night after the boot that
    drops the first sale. -/
theorem old_month_erodes :
    (run (watched coinPrices) (started, []) oldMonth).map (fun s => vendoOf s.1.money "2023-11") = some 8 ∧
      (run (watched coinPrices) (started, []) (oldMonth ++ [nightly])).map (fun s => vendoOf s.1.money "2023-11") =
        some 3 ∧
      ¬ Throughout (watched coinPrices) (NoPartialSum coinPrices) (started, []) (oldMonth ++ [nightly]) := by
  refine ⟨by decide +kernel, by decide +kernel, fun noPartial => ?_⟩
  have night := ((((((noPartial.2 _ rfl).2 _ rfl).2 _ rfl).2 _ rfl).2 _ rfl).2 _ rfl).1
  exact night .transport true true rfl "2023-11" (by decide +kernel) (by decide +kernel) (by decide +kernel)

end EllaFi.IncomeHistory
