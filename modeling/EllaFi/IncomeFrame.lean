import EllaFi.IncomeHistory
import EllaFi.VoucherLedger

/-!
The income months that a rollup leaves alone. The coin income of a month that is not
in the sale log stays, and so does every other side that has data, in the sense that
it becomes the sum of it (`rollup_income`). The voucher income is different: a month
without a group in the ledger is written with none. So a rollup keeps what it has no
data for exactly when every month with voucher income has a group
(`income_kept_iff`); an import of one month is enough to break it
(`imported_voucher_lost`).
-/
namespace EllaFi.IncomeFrame
open EllaFi.MoneyStore EllaFi.Totals EllaFi.IncomeHistory EllaFi.VoucherLedger

/-- A group of the ledger is of the month. -/
def HasGroup (groups : Table String Group) (month : String) : Prop :=
  ∃ id g, groups.lookup id = some g ∧ g.month = month

/-- What the groups of the ledger took, by their months. -/
def revenues (groups : Table String Group) : List (String × Int) :=
  groups.entries.map fun entry => (entry.2.month, entry.2.revenue)

def revenueOf (groups : Table String Group) (month : String) : Int := sumOf month (revenues groups)

section
variable (prices : Prices)

/-- Every month that was stored has on each side the sum of its data, or where there
    is none what it had. -/
def IncomeKept (before after : Books) : Prop :=
  ∀ month cur, before.money.income.lookup month = some cur →
    ∃ income, after.money.income.lookup month = some income ∧
      ((InMonth prices before.sales month ∧ income.vendo = monthSum prices before.sales month) ∨
        (¬ InMonth prices before.sales month ∧ income.vendo = cur.vendo)) ∧
      ((HasGroup after.money.groups month ∧ income.voucher = revenueOf after.money.groups month) ∨
        (¬ HasGroup after.money.groups month ∧ income.voucher = cur.voucher))

/-- The groups that the reply lists, as they are written. -/
def listedGroups (raw : Option VoucherDocument) (now : Nat) : List (String × Group) :=
  match raw with
  | none => []
  | some document => if document.errorCode = 0 then ledgerEntries prices now document.data else []

/-- Every month with voucher income is that of a group that the reply lists, or of a
    group in the ledger that it does not list. -/
def VouchersCovered (raw : Option VoucherDocument) (books : Books) : Prop :=
  ∀ month cur, books.money.income.lookup month = some cur → cur.voucher ≠ 0 →
    ∃ id g, (lastOf id (listedGroups prices raw books.now)).or (books.money.groups.lookup id) = some g ∧
      g.month = month

end

/-! ## One rollup -/

section
variable {prices : Prices} {groups : Table String Group} {month : String} {raw : Option VoucherDocument}
  {books : Books} {journalOpens saves : Bool}

theorem hasGroup_iff : HasGroup groups month ↔ ∃ entry ∈ revenues groups, entry.1 = month := by
  constructor
  · rintro ⟨id, g, found, rfl⟩
    exact ⟨_, List.mem_map_of_mem (AList.mem_lookup_iff.mp found), rfl⟩
  · rintro ⟨entry, inside, rfl⟩
    obtain ⟨⟨id, g⟩, there, rfl⟩ := List.mem_map.mp inside
    exact ⟨id, g, AList.mem_lookup_iff.mpr there, rfl⟩

/-- A month without a group is written with no voucher income. -/
theorem total_voucherMonths :
    (HasGroup groups month ∧ total (voucherMonths groups) month = revenueOf groups month) ∨
      (¬ HasGroup groups month ∧ total (voucherMonths groups) month = 0) := by
  have looked : (voucherMonths groups).lookup month =
      if ∃ entry ∈ revenues groups, entry.1 = month then some (sumOf month (revenues groups)) else none :=
    lookup_foldl_add _ _
  rw [hasGroup_iff, total, looked]
  by_cases has : ∃ entry ∈ revenues groups, entry.1 = month
  · exact .inl ⟨has, by rw [if_pos has]; rfl⟩
  · exact .inr ⟨has, by rw [if_neg has]; rfl⟩

/-- The groups after a rollup are those that it lists, and the others in their months. -/
theorem rollup_hasGroup :
    HasGroup (moneyNightlyRollup prices raw journalOpens saves books).money.groups month ↔
      ∃ id g, (lastOf id (listedGroups prices raw books.now)).or (books.money.groups.lookup id) = some g ∧
        g.month = month := by
  refine exists_congr fun id => ?_
  by_cases fetched : Fetched raw
  · obtain ⟨document, rfl, ok⟩ := fetched
    rw [rollup_lookup ok, listedGroups, if_pos ok]
    cases lastOf id (ledgerEntries prices books.now document.data) with
    | some g => rfl
    | none =>
      cases books.money.groups.lookup id with
      | none => simp
      | some g => simp
  · have unlisted : listedGroups prices raw books.now = [] := by
      cases raw with
      | none => rfl
      | some document => exact if_neg fun ok => fetched ⟨document, rfl, ok⟩
    rw [rollup_unfetched fetched, unlisted]
    rfl

/-- What a rollup makes of a stored month. -/
theorem rollup_income {cur : Income} (stored : books.money.income.lookup month = some cur) :
    ∃ income, (moneyNightlyRollup prices raw journalOpens saves books).money.income.lookup month = some income ∧
      ((InMonth prices books.sales month ∧ income.vendo = monthSum prices books.sales month) ∨
        (¬ InMonth prices books.sales month ∧ income.vendo = cur.vendo)) ∧
      income.voucher =
        total (voucherMonths (moneyNightlyRollup prices raw journalOpens saves books).money.groups) month := by
  let pass := rollupPass prices raw books.now books.money
  let vendo := moneyVendoMonths prices books.sales
  let voucher := voucherMonths pass.money.groups
  have before : pass.money.income.lookup month = some cur := by rw [rollupPass_income, stored]
  have listed : month ∈ incomeMonths vendo voucher pass.money.income := by
    have known : month ∈ pass.money.income.keys := AList.mem_keys.mp (AList.lookup_isSome.mp (by rw [before]; rfl))
    exact List.mem_dedup.mpr (List.mem_append_right _ known)
  have revised : (moneyNightlyRollup prices raw journalOpens saves books).money.income.lookup month =
      if month ∈ incomeMonths vendo voucher pass.money.income then
        some (monthIncome vendo voucher month (pass.money.income.lookup month))
      else pass.money.income.lookup month :=
    lookup_foldl_revise (List.nodup_dedup _) _ _ _
  rw [if_pos listed, before] at revised
  refine ⟨_, revised, ?_, rfl⟩
  rcases @lookup_vendoMonths prices books.sales month with ⟨inLog, there⟩ | ⟨absent, missing⟩
  · exact .inl ⟨inLog, by simp [monthIncome, vendo, there]⟩
  · exact .inr ⟨absent, by simp [monthIncome, vendo, missing]⟩

end

/-! ## What is kept -/

/-- A rollup gives each side of every stored month the sum of its data, and leaves a
    side without data as it is, if and only if every month with voucher income has a
    group that the reply lists or the ledger still has. -/
theorem income_kept_iff (prices : Prices) (reply : VoucherReply) (journalOpens saves : Bool) (books : Books) :
    IncomeKept prices books (moneyNightlyRollup prices (getVoucherGroupsJson reply) journalOpens saves books) ↔
      VouchersCovered prices (getVoucherGroupsJson reply) books := by
  refine forall_congr' fun month => forall_congr' fun cur => forall_congr' fun stored => ?_
  obtain ⟨income, written, vendo, voucher⟩ :=
    @rollup_income prices month (getVoucherGroupsJson reply) books journalOpens saves cur stored
  rw [← @rollup_hasGroup _ _ _ _ journalOpens saves]
  constructor
  · rintro ⟨other, same, -, covered | ⟨bare, kept⟩⟩ nonzero
    · exact covered.1
    · rw [written] at same
      cases same
      rcases @total_voucherMonths _ month with ⟨has, -⟩ | ⟨-, zero⟩
      · exact has
      · rw [voucher, zero] at kept
        exact absurd kept.symm nonzero
  · intro covered
    refine ⟨income, written, vendo, ?_⟩
    rcases @total_voucherMonths _ month with ⟨has, sum⟩ | ⟨bare, zero⟩
    · exact .inl ⟨has, voucher.trans sum⟩
    · refine .inr ⟨bare, ?_⟩
      by_cases nonzero : cur.voucher = 0
      · rw [voucher, zero, nonzero]
      · exact absurd (covered nonzero) bare

/-! ## An imported month -/

/-- The voucher income of a month before there was a ledger. -/
def oldVouchers : Payload where
  groups := []
  income := [("2023-01", { vendo := none, voucher := some 500 })]

def imported : Books := { started with money := moneyImport (some oldVouchers) started.money }

/-- A night without the controller takes the imported pesos away. -/
theorem imported_voucher_lost :
    imported.money.income.lookup "2023-01" = some { vendo := 0, voucher := 500 } ∧
      (moneyNightlyRollup coinPrices (getVoucherGroupsJson .transport) true true imported).money.income.lookup "2023-01" =
        some { vendo := 0, voucher := 0 } ∧
      ¬ IncomeKept coinPrices imported
        (moneyNightlyRollup coinPrices (getVoucherGroupsJson .transport) true true imported) := by
  have lost : (moneyNightlyRollup coinPrices (getVoucherGroupsJson .transport) true true imported).money.income.lookup
      "2023-01" = some { vendo := 0, voucher := 0 } := by decide +kernel
  have bare : ¬ HasGroup
      (moneyNightlyRollup coinPrices (getVoucherGroupsJson .transport) true true imported).money.groups "2023-01" := by
    rw [hasGroup_iff]
    decide +kernel
  refine ⟨by decide +kernel, lost, fun kept => ?_⟩
  obtain ⟨income, there, -, sides⟩ := kept "2023-01" { vendo := 0, voucher := 500 } (by decide +kernel)
  rw [lost] at there
  cases there
  rcases sides with ⟨has, -⟩ | ⟨-, same⟩
  · exact bare has
  · exact absurd same (by decide)

end EllaFi.IncomeFrame
