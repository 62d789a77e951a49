import EllaFi.ImportJoin
import EllaFi.Runs
import EllaFi.VoucherLedger

/-!
The ledger over rollups and imports. An import never lowers a count and neither
drops a group (`import_grows`); a rollup drops no group either, but writes the
controller's count as it is. So over a run the ledger only grows exactly when no
rollup reads a count below the ledger's (`ledger_monotone_iff`).
-/
namespace EllaFi.LedgerGrowth
open EllaFi.MoneyStore EllaFi.Totals EllaFi.Joins EllaFi.ImportJoin EllaFi.VoucherLedger
open EllaFi.Runs (Climbs Throughout climbs_iff throughout_congr)

/-- Every group is still there, with a count that is no lower. -/
def Grows (before after : Table String Group) : Prop :=
  ∀ id g, before.lookup id = some g → ∃ g', after.lookup id = some g' ∧ g.used ≤ g'.used

theorem Grows.refl (ledger : Table String Group) : Grows ledger ledger :=
  fun _ g there => ⟨g, there, Int.le_refl _⟩

theorem Grows.trans {first second third : Table String Group} (early : Grows first second)
    (late : Grows second third) : Grows first third := by
  intro id g there
  obtain ⟨g', there', le⟩ := early id g there
  obtain ⟨g'', there'', le'⟩ := late id g' there'
  exact ⟨g'', there'', Int.le_trans le le'⟩

def LedgerGrows (before after : Books) : Prop := Grows before.money.groups after.money.groups

/-! ## Steps -/

inductive Action where
  | elapse (seconds : Nat)
  | rollup (reply : VoucherReply) (journalOpens saves : Bool)
  | importRecord (payload : Option Payload) (saves : Bool)

section
variable (prices : Prices)

def step (books : Books) : Action → Option Books
  | .elapse seconds => some { books with now := books.now + seconds }
  | .rollup reply journalOpens saves =>
    some (moneyNightlyRollup prices (getVoucherGroupsJson reply) journalOpens saves books)
  | .importRecord payload saves =>
    let money := moneyImport payload books.money
    some { books with money := money, saved := if saves then money else books.saved }

/-- A rollup reads no count below the ledger's: of each group the record that is
    listed last decides. -/
def NoLowerCount (books : Books) : Action → Prop
  | .rollup reply _ _ =>
    ∀ document, getVoucherGroupsJson reply = some document → document.errorCode = 0 →
      ∀ id g listed, books.money.groups.lookup id = some g →
        lastOf id (ledgerEntries prices books.now document.data) = some listed → g.used ≤ listed.used
  | .elapse _ | .importRecord .. => True

end

section
variable {prices : Prices} {money : Money}

/-- An import drops no group and lowers no count. -/
theorem import_grows (payload : Option Payload) (money : Money) :
    Grows money.groups (moneyImport payload money).groups := by
  intro id g there
  have joined := @rankOf_foldl_raise _ _ _ _ Group.used _ (importedGroups payload) money.groups id
  rw [← import_groups, rankOf, rankOf, there, Option.elim_some] at joined
  cases after : (moneyImport payload money).groups.lookup id with
  | none =>
    rw [after, Option.elim_none] at joined
    exact absurd (sup_eq_bot_iff.mp joined.symm).1 (WithBot.coe_ne_bot)
  | some g' =>
    rw [after, Option.elim_some] at joined
    exact ⟨g', rfl, WithBot.coe_le_coe.mp (le_sup_left.trans_eq joined.symm)⟩

/-- A rollup that reads a document keeps the ledger growing exactly when none of its
    counts is below the ledger's. -/
theorem rollup_grows_iff {document : VoucherDocument} (ok : document.errorCode = 0) (journalOpens saves : Bool)
    (books : Books) :
    Grows books.money.groups (moneyNightlyRollup prices (some document) journalOpens saves books).money.groups ↔
      ∀ id g listed, books.money.groups.lookup id = some g →
        lastOf id (ledgerEntries prices books.now document.data) = some listed → g.used ≤ listed.used := by
  constructor
  · intro grows id g listed there last
    obtain ⟨g', written, le⟩ := grows id g there
    rw [rollup_lookup ok, last] at written
    cases written
    exact le
  · intro noLower id g there
    rw [rollup_lookup ok]
    cases last : lastOf id (ledgerEntries prices books.now document.data) with
    | none => exact ⟨{ g with deleted := true }, by simp [there], Int.le_refl _⟩
    | some listed => exact ⟨listed, rfl, noLower id g listed there last⟩

/-- A step keeps the ledger growing exactly when it reads no lower count. -/
theorem step_grows_iff (books : Books) (action : Action) :
    (∀ next, step prices books action = some next → LedgerGrows books next) ↔
      NoLowerCount prices books action := by
  cases action with
  | elapse seconds =>
    refine iff_of_true ?_ trivial
    rintro next ⟨⟩
    exact .refl _
  | importRecord payload saves =>
    refine iff_of_true ?_ trivial
    rintro next ⟨⟩
    exact import_grows payload books.money
  | rollup reply journalOpens saves =>
    simp only [step, Option.some.injEq, forall_eq', NoLowerCount, LedgerGrows]
    by_cases fetched : Fetched (getVoucherGroupsJson reply)
    · obtain ⟨document, read, ok⟩ := fetched
      rw [read, rollup_grows_iff ok]
      constructor
      · rintro noLower other ⟨⟩ -
        exact noLower
      · intro noLower
        exact noLower document rfl ok
    · rw [rollup_unfetched fetched]
      exact iff_of_true (.refl _) fun document read ok => absurd ⟨document, read, ok⟩ fetched

end

/-- Over a run of rollups and imports no count ever decreases and no group ever
    disappears if and only if no rollup reads a count below the ledger's. -/
theorem ledger_monotone_iff (prices : Prices) (books : Books) (actions : List Action) :
    Climbs (step prices) LedgerGrows books actions ↔
      Throughout (step prices) (NoLowerCount prices) books actions := by
  have trans (first second third : Books) (early : LedgerGrows first second) (late : LedgerGrows second third) :
      LedgerGrows first third := Grows.trans early late
  exact (climbs_iff trans).trans (throughout_congr step_grows_iff)

/-! ## A controller that was restored -/

/-- The controller lists the group of the ledger with one use, after a restore. -/
def restored : Action :=
  .rollup (firstPage [{ id := "g1", name := "AUTOGEN: 2401 Ana", usedCount := 1, price := 20
                        createdMillis := 1600000000000 }]) true true

/-- The count of the group falls from three to one. -/
theorem restored_count_falls :
    ¬ Climbs (step noPrices) LedgerGrows oneGroup [restored] := by
  intro climbs
  obtain ⟨grows, -⟩ := climbs _ rfl
  obtain ⟨g, found, le⟩ := grows "g1" (upserted "AUTOGEN: 2401 Ana" "Ana" "2023-11" 3 20 20 1600000000) (by decide +kernel)
  have lower : ((moneyNightlyRollup noPrices (getVoucherGroupsJson (firstPage
      [{ id := "g1", name := "AUTOGEN: 2401 Ana", usedCount := 1, price := 20, createdMillis := 1600000000000 }]))
        true true oneGroup).money.groups.lookup "g1").map (·.used) = some 1 := by decide +kernel
  rw [found] at lower
  have count : g.used = 1 := Option.some.inj lower
  simp only [upserted] at le
  omega

end EllaFi.LedgerGrowth
