import EllaFi.IncomeHistory
import EllaFi.Promises
import Mathlib.Data.List.Sort

/-!
What the answers of the ledger's requests promise. An import and the vendo migration
answer with success whether or not their saves succeed, and so does the night's
rollup go on. The migration is reported only with its months, since one save holds
both. But a used count or an income that a request applied is gone after a reboot
that comes before any save succeeds, and only then (`acked_writes_durable_iff`).
-/
namespace EllaFi.AckedWrites
open EllaFi.MoneyStore EllaFi.Totals EllaFi.IncomeHistory EllaFi.Promises
open EllaFi.Runs (Throughout run watch watch_some throughout_iff)

/-! ## The requests -/

/-- The master's data with the mark that the record carries once the vendo history
    is migrated, in RAM and as it was last saved. -/
structure Device where
  books : Books
  vendoMigrated : Option Nat
  savedMigrated : Option Nat

/-- The record is saved as a whole, or not at all. -/
def moneyStoreSave (saves : Bool) (device : Device) : Device :=
  if saves then
    { device with
      books := { device.books with saved := device.books.money }
      savedMigrated := device.vendoMigrated }
  else device

def moneyVendoMigrated (device : Device) : Bool := device.vendoMigrated.isSome

def moneyMarkVendoMigrated (device : Device) : Device := { device with vendoMigrated := some device.books.now }

/-- An import with the save that ends it. -/
def importAndSave (payload : Payload) (saves : Bool) (device : Device) : Device :=
  moneyStoreSave saves
    { device with books := { device.books with money := moneyImport (some payload) device.books.money } }

/-- The state after the request, and the status of the answer. -/
def handleAdminMoneyImport (payload : Option Payload) (saves : Bool) (device : Device) : Device × Nat :=
  match payload with
  | none => (device, 400)
  | some payload => (importAndSave payload saves device, 200)

/-- A month of the sale log as an import. -/
def monthPayload (entry : String × Int) : Payload where
  groups := []
  income := [(entry.1, { vendo := some entry.2, voucher := none })]

/-- The months of the sale log in their order. -/
def sortedMonths (prices : Prices) (device : Device) : List (String × Int) :=
  ((moneyVendoMonths prices device.books.sales).entries.map fun entry => (entry.1, entry.2)).insertionSort
    fun first second => first.1 ≤ second.1

def importMonth (saves : String → Bool) (device : Device) (entry : String × Int) : Device :=
  importAndSave (monthPayload entry) (saves entry.1) device

/-- The months are imported and saved one by one, and then the mark is. -/
def handleAdminMoneyMigrate (prices : Prices) (saves : String → Bool) (markSaves : Bool) (device : Device) :
    Device × Nat :=
  if moneyVendoMigrated device then (device, 409)
  else
    (moneyStoreSave markSaves
      (moneyMarkVendoMigrated ((sortedMonths prices device).foldl (importMonth saves) device)), 200)

/-- The record is loaded as it was saved. -/
def reboot (opens : Bool) (device : Device) : Device where
  books := boot opens device.books
  vendoMigrated := device.savedMigrated
  savedMigrated := device.savedMigrated

inductive Action where
  | elapse (seconds : Nat)
  | sale (opens : Bool) (coins minutes : Nat) (nodeMac : String)
  | importRequest (payload : Option Payload) (saves : Bool)
  | migrateRequest (saves : String → Bool) (markSaves : Bool)
  | rollup (reply : VoucherReply) (journalOpens saves : Bool)
  | reboot (opens : Bool)

/-- A rollup saves the record with its mark. -/
def rolledUp (prices : Prices) (reply : VoucherReply) (journalOpens saves : Bool) (device : Device) : Device where
  books := moneyNightlyRollup prices (getVoucherGroupsJson reply) journalOpens saves device.books
  vendoMigrated := device.vendoMigrated
  savedMigrated := if saves then device.vendoMigrated else device.savedMigrated

def step (prices : Prices) (device : Device) : Action → Option Device
  | .elapse seconds => some { device with books := { device.books with now := device.books.now + seconds } }
  | .sale opens coins minutes nodeMac =>
    some { device with books := { device.books with sales := logSale opens coins minutes nodeMac device.books } }
  | .importRequest payload saves => some (handleAdminMoneyImport payload saves device).1
  | .migrateRequest saves markSaves => some (handleAdminMoneyMigrate prices saves markSaves device).1
  | .rollup reply journalOpens saves => some (rolledUp prices reply journalOpens saves device)
  | .reboot opens => some (reboot opens device)

/-! ## What they promise -/

/-- A value of the record. -/
inductive Key where
  | used (id : String)
  | vendo (month : String)
  | voucher (month : String)
deriving DecidableEq, Repr

def valueOf (money : Money) : Key → Option Int
  | .used id => (money.groups.lookup id).map (·.used)
  | .vendo month => (money.income.lookup month).map (·.vendo)
  | .voucher month => (money.income.lookup month).map (·.voucher)

/-- What an import applied: the counts that it raised and the sides that it gives. -/
def importedKeys (payload : Payload) (before after : Money) : List Key :=
  ((payload.groups.map fun entry => Key.used entry.1).filter fun key => valueOf after key ≠ valueOf before key) ++
    payload.income.flatMap fun entry =>
      (entry.2.vendo.map fun _ => Key.vendo entry.1).toList ++ (entry.2.voucher.map fun _ => Key.voucher entry.1).toList

/-- The values that requests with a successful answer applied, and those that the
    last migration did. -/
structure Answered where
  promised : Promised Key (Option Int)
  migration : Key → List (Option Int)

def Answered.nothing : Answered := { promised := Promised.nothing, migration := fun _ => [] }

def Answered.write (keys months : List Key) (after : Money) (saves : Bool) (answered : Answered) : Answered where
  promised := answered.promised.write valueOf keys after saves
  migration := heldSince valueOf months after answered.migration

def noteMonth (saves : String → Bool) (noted : Device × Answered) (entry : String × Int) : Device × Answered :=
  let after := importMonth saves noted.1 entry
  (after, noted.2.write [.vendo entry.1] [.vendo entry.1] after.books.money (saves entry.1))

/-- A migration's months, from none. -/
def noteMonths (prices : Prices) (saves : String → Bool) (device : Device) (answered : Answered) : Device × Answered :=
  (sortedMonths prices device).foldl (noteMonth saves) (device, { answered with migration := fun _ => [] })

def noteMigrate (prices : Prices) (saves : String → Bool) (markSaves : Bool) (device : Device) (answered : Answered) :
    Answered :=
  if moneyVendoMigrated device then answered
  else
    let noted := noteMonths prices saves device answered
    noted.2.write [] [] noted.1.books.money markSaves

def note (prices : Prices) (device : Device) (action : Action) (answered : Answered) : Answered :=
  match action with
  | .elapse _ | .sale .. | .importRequest none _ => answered
  | .importRequest (some payload) saves =>
    let after := moneyImport (some payload) device.books.money
    answered.write (importedKeys payload device.books.money after) [] after saves
  | .migrateRequest saves markSaves => noteMigrate prices saves markSaves device answered
  | .rollup reply journalOpens saves =>
    answered.write [] [] (rolledUp prices reply journalOpens saves device).books.money saves
  | .reboot _ =>
    { promised := answered.promised.restart valueOf device.books.saved
      migration := heldSince valueOf [] device.books.saved answered.migration }

def watched (prices : Prices) : Device × Answered → Action → Option (Device × Answered) := watch (step prices) (note prices)

/-- A reboot loads every applied value, or one that has replaced it since, and reports
    the migration as done only with its months. -/
def Durable (s : Device × Answered) (action : Action) : Prop :=
  ∀ opens, action = .reboot opens →
    Had valueOf (reboot opens s.1).books.money s.2.promised.since ∧
      (moneyVendoMigrated (reboot opens s.1) → Had valueOf (reboot opens s.1).books.money s.2.migration)

/-- No reboot comes before a save of values that a request has applied since the last
    one, unless they were saved before. -/
def SavedInTime (s : Device × Answered) (action : Action) : Prop :=
  ∀ opens, action = .reboot opens →
    ∀ key ∈ s.2.promised.unsaved, valueOf s.1.books.saved key ∈ s.2.promised.since key

/-! ## One step -/

def storeOf (device : Device) : Store Money := { ram := device.books.money, saved := device.books.saved }

/-- The promises stand in the record, the saved mark has its months with it, and
    the mark in RAM goes before the saved one. -/
structure Sound (s : Device × Answered) : Prop where
  tracked : Tracked valueOf (storeOf s.1) s.2.promised
  months : Had valueOf s.1.books.money s.2.migration
  savedMonths : s.1.savedMigrated.isSome → Had valueOf s.1.books.saved s.2.migration
  marked : s.1.savedMigrated.isSome → s.1.vendoMigrated.isSome

/-- The record is written, with the mark or without, and then saved or not. -/
structure Written (before after : Device) (saves : Bool) : Prop where
  store : storeOf after = (storeOf before).write after.books.money saves
  marked : before.vendoMigrated.isSome → after.vendoMigrated.isSome
  savedMark : after.savedMigrated = if saves then after.vendoMigrated else before.savedMigrated

section
variable {prices : Prices} {device : Device} {answered : Answered} {s next : Device × Answered} {action : Action}

theorem sound_write {after : Device} {saves : Bool} (sound : Sound (device, answered))
    (written : Written device after saves) (keys : List Key) {months : List Key}
    (unmarked : months = [] ∨ device.savedMigrated = none) :
    Sound (after, answered.write keys months after.books.money saves) where
  tracked := by
    simp only [written.store]
    exact tracked_write sound.tracked keys _ saves
  months := had_now
  savedMonths := by
    intro isMarked
    have savedMark := written.savedMark
    have saved : after.books.saved = ((storeOf device).write after.books.money saves).saved :=
      congrArg Store.saved written.store
    simp only at isMarked ⊢
    rw [saved]
    cases saves with
    | true => exact had_now
    | false =>
      rw [if_neg Bool.false_ne_true] at savedMark
      rw [savedMark] at isMarked
      rcases unmarked with rfl | unmarked
      · exact had_still (sound.savedMonths isMarked)
      · rw [unmarked] at isMarked
        cases isMarked
  marked := by
    intro isMarked
    have savedMark := written.savedMark
    simp only at isMarked ⊢
    cases saves with
    | true => rwa [savedMark] at isMarked
    | false =>
      rw [savedMark] at isMarked
      exact written.marked (sound.marked isMarked)

theorem importAndSave_written (payload : Payload) (saves : Bool) (device : Device) :
    Written device (importAndSave payload saves device) saves := by
  cases saves with
  | true => exact { store := rfl, marked := id, savedMark := rfl }
  | false => exact { store := rfl, marked := id, savedMark := rfl }

theorem importAndSave_money (payload : Payload) (saves : Bool) (device : Device) :
    (importAndSave payload saves device).books.money = moneyImport (some payload) device.books.money := by
  cases saves <;> rfl

theorem importAndSave_unmarked {payload : Payload} {saves : Bool} (unmarked : device.vendoMigrated = none) :
    (importAndSave payload saves device).vendoMigrated = none := by
  cases saves <;> exact unmarked

theorem markSaved_written (markSaves : Bool) (device : Device) :
    Written device (moneyStoreSave markSaves (moneyMarkVendoMigrated device)) markSaves := by
  cases markSaves with
  | true => exact { store := rfl, marked := fun _ => rfl, savedMark := rfl }
  | false => exact { store := rfl, marked := fun _ => rfl, savedMark := rfl }

theorem rolledUp_written (reply : VoucherReply) (journalOpens saves : Bool) (device : Device) :
    Written device (rolledUp prices reply journalOpens saves device) saves where
  store := rfl
  marked := id
  savedMark := rfl

theorem noteMonths_device (saves : String → Bool) (months : List (String × Int)) (noted : Device × Answered) :
    (months.foldl (noteMonth saves) noted).1 = months.foldl (importMonth saves) noted.1 := by
  induction months generalizing noted with
  | nil => rfl
  | cons entry rest ih => exact ih _

/-- The months are imported while neither record is marked. -/
theorem noteMonths_sound (saves : String → Bool) (months : List (String × Int)) {noted : Device × Answered}
    (sound : Sound noted) (unmarked : noted.1.vendoMigrated = none) :
    Sound (months.foldl (noteMonth saves) noted) ∧ (months.foldl (noteMonth saves) noted).1.vendoMigrated = none := by
  induction months generalizing noted with
  | nil => exact ⟨sound, unmarked⟩
  | cons entry rest ih =>
    have unsaved : noted.1.savedMigrated = none := by
      by_contra isSaved
      have isMarked := sound.marked (Option.isSome_iff_ne_none.mpr isSaved)
      rw [unmarked] at isMarked
      cases isMarked
    exact ih (sound_write sound (importAndSave_written _ _ _) _ (.inr unsaved)) (importAndSave_unmarked unmarked)

theorem migrate_sound (saves : String → Bool) (markSaves : Bool) (sound : Sound (device, answered))
    (taken : watched prices (device, answered) (.migrateRequest saves markSaves) = some next) : Sound next := by
  cases taken
  change Sound ((handleAdminMoneyMigrate prices saves markSaves device).1,
    noteMigrate prices saves markSaves device answered)
  unfold handleAdminMoneyMigrate noteMigrate
  by_cases isMarked : moneyVendoMigrated device
  · rw [if_pos isMarked, if_pos isMarked]
    exact sound
  · rw [if_neg isMarked, if_neg isMarked]
    have unmarked : device.vendoMigrated = none := Option.not_isSome_iff_eq_none.mp isMarked
    have anew : Sound (device, { answered with migration := fun _ => [] }) :=
      { sound with
        months := fun _ isPromised => absurd rfl isPromised
        savedMonths := fun _ _ isPromised => absurd rfl isPromised }
    obtain ⟨imported, -⟩ := noteMonths_sound saves (sortedMonths prices device) anew unmarked
    have same := noteMonths_device saves (sortedMonths prices device)
      (device, { answered with migration := fun _ => [] })
    simp only at same
    rw [← same]
    have written := markSaved_written markSaves (noteMonths prices saves device answered).1
    have after := sound_write imported written [] (.inl rfl)
    have money : (moneyStoreSave markSaves (moneyMarkVendoMigrated (noteMonths prices saves device answered).1)).books.money =
        (noteMonths prices saves device answered).1.books.money := by cases markSaves <;> rfl
    rw [money] at after
    exact after

theorem step_sound (sound : Sound s) (taken : watched prices s action = some next) : Sound next := by
  obtain ⟨device, answered⟩ := s
  cases action with
  | migrateRequest saves markSaves => exact migrate_sound saves markSaves sound taken
  | elapse seconds =>
    cases taken
    exact ⟨sound.tracked, sound.months, sound.savedMonths, sound.marked⟩
  | sale opens coins minutes nodeMac =>
    cases taken
    exact ⟨sound.tracked, sound.months, sound.savedMonths, sound.marked⟩
  | importRequest payload saves =>
    cases payload with
    | none =>
      cases taken
      exact sound
    | some payload =>
      cases taken
      have after := sound_write sound (importAndSave_written payload saves device)
        (importedKeys payload device.books.money (moneyImport (some payload) device.books.money)) (.inl rfl)
      rw [importAndSave_money] at after
      exact after
  | rollup reply journalOpens saves =>
    cases taken
    exact sound_write sound (rolledUp_written reply journalOpens saves device) [] (.inl rfl)
  | reboot opens =>
    cases taken
    have months : Had valueOf device.books.saved (heldSince valueOf [] device.books.saved answered.migration) := had_now
    have tracked := @tracked_restart _ _ _ valueOf (storeOf device) answered.promised _
    exact { tracked, months, savedMonths := fun _ => months, marked := id }

/-- A reboot is durable exactly when all values are saved in time. -/
theorem durable_iff (sound : Sound s) (action : Action) : Durable s action ↔ SavedInTime s action := by
  refine forall_congr' fun opens => forall_congr' fun _ => ?_
  have kept := restart_keeps_iff sound.tracked
  constructor
  · rintro ⟨had, -⟩
    exact kept.mp had
  · intro inTime
    exact ⟨kept.mpr inTime, sound.savedMonths⟩

theorem rebooted_sound (opens : Bool) (device : Device) : Sound (reboot opens device, Answered.nothing) where
  tracked := tracked_nothing
  months _ isPromised := absurd rfl isPromised
  savedMonths _ _ isPromised := absurd rfl isPromised
  marked := id

end

/-- From a boot on, in every run of sales, imports, migrations, rollups and reboots
    with any saves failing, each reboot loads all that requests have applied with a
    successful answer and reports the migration as done only with its months, if and
    only if each comes after a save of what was applied. -/
theorem acked_writes_durable_iff (prices : Prices) (opens : Bool) (device : Device) (actions : List Action) :
    Throughout (watched prices) Durable (reboot opens device, Answered.nothing) actions ↔
      Throughout (watched prices) SavedInTime (reboot opens device, Answered.nothing) actions :=
  throughout_iff (fun _ _ _ => step_sound) (fun _ action sound => durable_iff sound action) (rebooted_sound opens device)

/-! ## An import that is not saved -/

def oneCount : Payload where
  groups := [("g1", { name := "AUTOGEN: 2401 Ana", seller := "Ana", month := "2023-11", used := 5, price := 20, rate := 20 })]
  income := []

def atStart : Device := { books := started, vendoMigrated := none, savedMigrated := none }

/-- The answer is a success, and the count is gone after the reboot. -/
theorem unsaved_import_lost :
    (handleAdminMoneyImport (some oneCount) false (reboot true atStart)).2 = 200 ∧
      valueOf (handleAdminMoneyImport (some oneCount) false (reboot true atStart)).1.books.money (.used "g1") = some 5 ∧
      ¬ Throughout (watched coinPrices) Durable (reboot true atStart, Answered.nothing)
        [.importRequest (some oneCount) false, .reboot true] := by
  refine ⟨rfl, by decide +kernel, fun durable => ?_⟩
  have kept := ((durable.2 _ rfl).1 true rfl).1 (.used "g1") (by decide +kernel)
  exact absurd kept (by decide +kernel)

end EllaFi.AckedWrites
