import EllaFi.Attribution
import EllaFi.ImportJoin
import EllaFi.SellerJournal
import EllaFi.VoucherArchive
import EllaFi.VoucherLedger

/-!
The way back of a lost ledger. The backup script makes a rollup of the generated groups in
its archive and posts it to the device, which takes over what it does not have or has with
a lower count. The next rollup of the device then journals only what was redeemed since the
backup, and the groups that the controller no longer has stay in the ledger with what they
had earned (`restored`).
-/
namespace EllaFi.LedgerRestore
open EllaFi.Dicts (Dict get mapValues get_mapValues get_of_mem keys_mapValues keys_some mem_of_get IsLatest)
open EllaFi.ImportJoin EllaFi.Joins
open EllaFi.JsonDoc (Value)
open EllaFi.MoneyStore
open EllaFi.SellerJournal (Behind ledgerDue listing owed owed_cons rollupPass_accounted)
open EllaFi.TextLines (Text)
open EllaFi.Totals (total lastOf)
open EllaFi.VoucherArchive (Entry File Snapshot Proper Complete snapshots rebuildArchive rebuild_complete ownNames truthy
  totalKey deletedKey)
open EllaFi.VoucherLedger (firstPage ledgerEntries lastOf_ledgerEntries lastOf_ledgerEntries_none rollup_lookup)

/-! ## The script -/

/-- JSON texts, `int`, local months and the clock of the machine that runs the script. -/
structure Machine (F : Type) where
  /-- None is an error in the text. -/
  loads : Text → Option (Value F)
  /-- None is an exception that the script does not catch, and `some none` one that it does. -/
  int : Value F → Option (Option Int)
  /-- Of a time in milliseconds. -/
  month : Int → String
  now : Nat
  int_int : ∀ z, int (.int z) = some (some z)

def nameKey : Text := "name".toList
def descriptionKey : Text := "description".toList
def priceKey : Text := "price".toList
def totalCountKey : Text := "totalCount".toList
def unusedKey : Text := "unusedCount".toList
def createdKey : Text := "createdTime".toList

/-- A group of the rollup. -/
structure Rolled where
  name : Text
  seller : Text
  month : String
  used : Int
  price : Int
  deleted : Bool
deriving DecidableEq

/-- The count and the price are no less than 0, and the device can read them. -/
structure Rolled.Fits (g : Rolled) : Prop where
  used : 0 ≤ g.used ∧ g.used < 2 ^ 31
  price : 0 ≤ g.price ∧ g.price < 2 ^ 31

/-- The counts and the times of the controller are integers. -/
def whole {F : Type} : Value F → Option Int
  | .int z => some z
  | _ => none

section
variable {F : Type} [Zero F] [DecidableEq F] (machine : Machine F)

/-- The price in a description, or 0; none is an exception. An empty description is read
    as an empty object, and what is no text as none at all. -/
def priceOf (a : Entry F) : Option Int :=
  let description := (get a descriptionKey).getD (.text [])
  if truthy description then
    match description with
    | .text s =>
      match machine.loads s with
      | none => some 0
      | some (.object members) => (machine.int ((members.lookup priceKey).getD (.int 0))).map (·.getD 0)
      | some _ => none
    | _ => some 0
  else some 0

/-- What is made of an entry: nothing, if its group was not generated here; none is an
    exception. -/
def rollGroup (a : Entry F) : Option (Option Rolled) :=
  match (get a nameKey).getD (.text []) with
  | .text name =>
    if autogenPrefix.toList <+: name then do
      let price ← priceOf machine a
      let total ← whole ((get a totalCountKey).getD ((get a totalKey).getD (.int 0)))
      let unused ← whole ((get a unusedKey).getD (.int 0))
      let created ← whole ((get a createdKey).getD (.int 0))
      some (some
        { name
          seller := Attribution.sellerIn (fun _ => []) (name.drop 9)
          month := machine.month created
          used := total - unused
          price
          deleted := ConfigFile.orFalse ((get a deletedKey).getD (.bool false)) })
    else some none
  | _ => none

def archiveToRollup (arch : Dict Text (Entry F)) : Option (Dict Text Rolled) :=
  (mapValues (fun _ a => rollGroup machine a) arch).map fun rolled =>
    rolled.filterMap fun entry => entry.2.map fun g => (entry.1, g)

/-- The rollup of a backup: the archive is rebuilt from the snapshots, and the groups are
    made from it. -/
def backupRollup (files : List (File F)) (newestGroupIds : List Text) : Option (Dict Text Rolled) := do
  let (arch, _) ← rebuildArchive files newestGroupIds
  archiveToRollup machine arch

/-- What the device reads of a group; a number that is no `int` reads as 0. -/
def Rolled.posted (g : Rolled) : ImportedGroup where
  name := String.ofList g.name
  seller := String.ofList g.seller
  month := g.month
  used := ConfigFile.orInt 0 (.int g.used : Value Empty)
  price := ConfigFile.orInt 0 (.int g.price : Value Empty)
  rate := commissionRatePercent
  seen := machine.now
  deleted := g.deleted

def payload (rollup : Dict Text Rolled) : Payload where
  groups := rollup.map fun entry => (String.ofList entry.1, entry.2.posted machine)
  income := []

/-- The device after the rollup was pushed. -/
def pushed (rollup : Dict Text Rolled) (money : Money) : Money := moneyImport (some (payload machine rollup)) money

end

/-! ## What the archive brings -/

section
variable {F : Type} (machine : Machine F)

/-- What the latest snapshots say of a group that was generated here. -/
structure Backed (snapshots : List (Snapshot F)) (gid : Text) (g : Rolled) : Prop where
  name : IsLatest Snapshot.fetchedAt (Snapshot.field gid nameKey) snapshots (.text g.name)
  generated : autogenPrefix.toList <+: g.name
  seller : g.seller = Attribution.sellerIn (fun _ => []) (g.name.drop 9)
  used : ∃ total unused, IsLatest Snapshot.fetchedAt (Snapshot.field gid totalCountKey) snapshots (.int total) ∧
    IsLatest Snapshot.fetchedAt (Snapshot.field gid unusedKey) snapshots (.int unused) ∧ g.used = total - unused
  month : ∃ created, IsLatest Snapshot.fetchedAt (Snapshot.field gid createdKey) snapshots (.int created) ∧
    g.month = machine.month created
  price : ∃ description members,
    IsLatest Snapshot.fetchedAt (Snapshot.field gid descriptionKey) snapshots (.text description) ∧ description ≠ [] ∧
      machine.loads description = some (.object members) ∧ members.lookup priceKey = some (.int g.price)
  fits : g.Fits

/-- What the latest snapshots have of a group's count: nothing, if none of them has the
    group or it was not generated here. -/
inductive SavedCount (snapshots : List (Snapshot F)) (gid : Text) : Int → Prop where
  | backed {g : Rolled} (backed : Backed machine snapshots gid g) : SavedCount snapshots gid g.used
  | other {name : Text} (latest : IsLatest Snapshot.fetchedAt (Snapshot.field gid nameKey) snapshots (.text name))
      (made : ¬ autogenPrefix.toList <+: name) : SavedCount snapshots gid 0
  | unknown (absent : ∀ s ∈ snapshots, ¬ s.Has gid) : SavedCount snapshots gid 0

end

section
variable {F : Type} [Zero F] [DecidableEq F] {machine : Machine F} {files : List (File F)} {ids : List Text}
  {arch : Dict Text (Entry F)} {rollup : Dict Text Rolled} {gid : Text} {a : Entry F}

theorem rebuild_distinct (proper : Proper files) {count : Nat} (built : rebuildArchive files ids = some (arch, count)) :
    (arch.map (·.1)).Nodup := by
  obtain ⟨before, merged, archived⟩ :=
    VoucherArchive.archived_visits fun visit (inside : visit ∈ _) => VoucherArchive.visits_free proper inside
  rw [← VoucherArchive.archiveSource_visits] at merged
  simp only [rebuildArchive, merged, Option.bind_eq_bind, Option.bind_some, Option.bind_eq_some_iff, Option.some.injEq,
    Prod.mk.injEq] at built
  obtain ⟨final, finished, rfl, -⟩ := built
  rw [keys_mapValues finished]
  exact archived.distinct

omit [Zero F] [DecidableEq F] in
theorem field_of_latest (complete : Complete (· ∈ ownNames) (snapshots files) ids arch) (there : get arch gid = some a)
    (key : Text) (other : key ∉ ownNames) {value : Value F}
    (latest : IsLatest Snapshot.fetchedAt (Snapshot.field gid key) (snapshots files) value) : get a key = some value :=
  (complete.entries gid a there).fields key other value latest

/-- A group that the snapshots have is rolled up as they have it. -/
theorem rollGroup_backed (complete : Complete (· ∈ ownNames) (snapshots files) ids arch) (there : get arch gid = some a)
    {g : Rolled} (backed : Backed machine (snapshots files) gid g) :
    rollGroup machine a = some (some { g with deleted := decide (gid ∉ ids) }) := by
  obtain ⟨total, unused, totals, unuseds, used⟩ := backed.used
  obtain ⟨created, dated, month⟩ := backed.month
  obtain ⟨description, members, described, nonempty, read, price⟩ := backed.price
  have name := field_of_latest complete there nameKey (by decide) backed.name
  have totalCount := field_of_latest complete there totalCountKey (by decide) totals
  have unusedCount := field_of_latest complete there unusedKey (by decide) unuseds
  have createdTime := field_of_latest complete there createdKey (by decide) dated
  have text := field_of_latest complete there descriptionKey (by decide) described
  have deleted := (complete.entries gid a there).deleted
  have priced : priceOf machine a = some g.price := by
    simp [priceOf, text, truthy, nonempty, read, price, machine.int_int]
  have generated := backed.generated
  have named := backed.seller
  obtain ⟨own, seller, ownMonth, ownUsed, ownPrice, mark⟩ := g
  simp only at named used month name generated priced
  subst named used month
  simp [rollGroup, whole, ConfigFile.orFalse, name, generated, priced, totalCount, unusedCount, createdTime, deleted]

end

/-! ## What the device takes over -/

theorem groupUsed_eq (money : Money) (id : String) : moneyGroupUsed money id = (usedOf money id).unbotD 0 := by
  unfold moneyGroupUsed usedOf rankOf
  cases money.groups.lookup id <;> rfl

theorem unbotD_sup (known : WithBot Int) {saved : Int} (nonneg : 0 ≤ saved) :
    (known ⊔ (saved : WithBot Int)).unbotD 0 = max (known.unbotD 0) saved := by
  cases known with
  | bot => simp [nonneg]
  | coe value =>
    rw [← WithBot.coe_max]
    rfl

section
variable {F : Type} {machine : Machine F} {rollup : Dict Text Rolled} {gid : Text} {money : Money}

/-- What the device reads of the rollup. -/
def imported (machine : Machine F) (rollup : Dict Text Rolled) : List (String × Group) :=
  importedGroups (some (payload machine rollup))

theorem imported_distinct (distinct : (rollup.map (·.1)).Nodup) (machine : Machine F) :
    ((imported machine rollup).map (·.1)).Nodup := by
  have keys : (imported machine rollup).map (·.1) = (rollup.map (·.1)).map String.ofList := by
    simp [imported, importedGroups, payload, Function.comp_def]
  rw [keys]
  exact distinct.map fun _ _ => String.ofList_injective

theorem mem_imported {entry : String × Group} :
    entry ∈ imported machine rollup ↔
      ∃ gid g, (gid, g) ∈ rollup ∧ entry = (String.ofList gid, importedGroup (g.posted machine)) := by
  simp [imported, importedGroups, payload, eq_comm]

theorem imported_absent (absent : ∀ g, (gid, g) ∉ rollup) :
    highest Group.used (String.ofList gid) (imported machine rollup) = ⊥ := by
  refine highest_bot.mpr fun entry inside same => ?_
  obtain ⟨other, g, there, rfl⟩ := mem_imported.mp inside
  exact absent g (String.ofList_injective same ▸ there)

theorem pushed_groups :
    (pushed machine rollup money).groups = (imported machine rollup).foldl (raise Group.used) money.groups :=
  import_groups _ _

theorem posted_used (machine : Machine F) {g : Rolled} (fits : g.Fits) (mark : Bool) :
    (importedGroup (({ g with deleted := mark } : Rolled).posted machine)).used = g.used := by
  obtain ⟨low, high⟩ := fits.used
  simp only [importedGroup, upserted, Rolled.posted, ConfigFile.orInt]
  exact if_pos ⟨by omega, high⟩

theorem posted_price (machine : Machine F) {g : Rolled} (fits : g.Fits) (mark : Bool) :
    (importedGroup (({ g with deleted := mark } : Rolled).posted machine)).price = g.price := by
  obtain ⟨low, high⟩ := fits.price
  simp only [importedGroup, upserted, Rolled.posted, ConfigFile.orInt]
  exact if_pos ⟨by omega, high⟩

end

section
variable {F : Type} [Zero F] [DecidableEq F] {machine : Machine F} {files : List (File F)} {ids : List Text}
  {arch : Dict Text (Entry F)} {rollup : Dict Text Rolled} {gid : Text} {money : Money}

/-- The rollup has the groups that something is made of, each once. -/
theorem mem_rollup (distinct : (arch.map (·.1)).Nodup) (rolled : archiveToRollup machine arch = some rollup)
    {g : Rolled} : (gid, g) ∈ rollup ↔ ∃ a, get arch gid = some a ∧ rollGroup machine a = some (some g) := by
  obtain ⟨changed, done, rfl⟩ := Option.map_eq_some_iff.mp rolled
  have distinctChanged : (changed.map (·.1)).Nodup := by rwa [keys_mapValues done]
  have found := get_mapValues done gid
  constructor
  · intro inside
    obtain ⟨⟨own, made⟩, there, same⟩ := List.mem_filterMap.mp inside
    obtain ⟨r, rfl, pair⟩ := Option.map_eq_some_iff.mp same
    obtain ⟨rfl, rfl⟩ := Prod.mk.inj pair
    rw [get_of_mem distinctChanged there] at found
    obtain ⟨a, stored, rolled⟩ := Option.bind_eq_some_iff.mp found.symm
    exact ⟨a, stored, rolled⟩
  · rintro ⟨a, stored, made⟩
    rw [stored, Option.bind_some, made] at found
    exact List.mem_filterMap.mpr ⟨(gid, some g), mem_of_get found, rfl⟩

theorem rollup_distinct (distinct : (arch.map (·.1)).Nodup) (rolled : archiveToRollup machine arch = some rollup) :
    (rollup.map (·.1)).Nodup := by
  obtain ⟨changed, done, rfl⟩ := Option.map_eq_some_iff.mp rolled
  have distinctChanged : (changed.map (·.1)).Nodup := by rwa [keys_mapValues done]
  exact distinctChanged.sublist (keys_some changed)

theorem complete_of_built (proper : Proper files) {count : Nat} (built : rebuildArchive files ids = some (arch, count)) :
    Complete (· ∈ ownNames) (snapshots files) ids arch := by
  obtain ⟨other, done, complete⟩ := rebuild_complete proper ids
  rw [built] at done
  obtain ⟨rfl, -⟩ := Prod.mk.inj (Option.some.inj done)
  exact complete

/-- The rollup has a group that the snapshots have. -/
theorem backed_rolled (proper : Proper files) {count : Nat} (built : rebuildArchive files ids = some (arch, count))
    (rolled : archiveToRollup machine arch = some rollup) {g : Rolled} (backed : Backed machine (snapshots files) gid g) :
    (gid, { g with deleted := decide (gid ∉ ids) }) ∈ rollup := by
  have complete := complete_of_built proper built
  obtain ⟨s, inside, field, -⟩ := backed.name
  have has : s.Has gid := by
    by_contra missing
    have own : s.groupsOf gid = [] := List.filter_eq_nil_iff.mpr fun g there same =>
      missing ⟨g, there, by simpa using same⟩
    rw [Snapshot.field, own] at field
    cases field
  obtain ⟨a, stored⟩ := Option.isSome_iff_exists.mp ((complete.groups gid).mpr ⟨s, inside, has⟩)
  exact (mem_rollup (rebuild_distinct proper built) rolled).mpr ⟨a, stored, rollGroup_backed complete stored backed⟩

theorem backed_imported (proper : Proper files) {count : Nat} (built : rebuildArchive files ids = some (arch, count))
    (rolled : archiveToRollup machine arch = some rollup) {g : Rolled} (backed : Backed machine (snapshots files) gid g) :
    (String.ofList gid, importedGroup (({ g with deleted := decide (gid ∉ ids) } : Rolled).posted machine)) ∈
      imported machine rollup :=
  mem_imported.mpr ⟨gid, _, backed_rolled proper built rolled backed, rfl⟩

/-- Of a group that the snapshots do not have, or that was not generated here, nothing is
    posted. -/
theorem SavedCount.cases (proper : Proper files) {count : Nat} (built : rebuildArchive files ids = some (arch, count))
    (rolled : archiveToRollup machine arch = some rollup) {saved : Int}
    (own : SavedCount machine (snapshots files) gid saved) :
    (∃ g, Backed machine (snapshots files) gid g ∧ saved = g.used) ∨ (∀ g, (gid, g) ∉ rollup) ∧ saved = 0 := by
  have complete := complete_of_built proper built
  have members {g : Rolled} := @mem_rollup _ _ _ machine _ _ gid (rebuild_distinct proper built) rolled g
  cases own with
  | @backed g backed => exact .inl ⟨g, backed, rfl⟩
  | other latest made =>
    refine .inr ⟨fun g inside => ?_, rfl⟩
    obtain ⟨a, stored, rolled⟩ := members.mp inside
    have name := field_of_latest complete stored nameKey (by decide) latest
    simp [rollGroup, name, made] at rolled
  | unknown absent =>
    refine .inr ⟨fun g inside => ?_, rfl⟩
    obtain ⟨a, stored, -⟩ := members.mp inside
    obtain ⟨s, there, has⟩ := (complete.groups gid).mp (Option.isSome_iff_exists.mpr ⟨a, stored⟩)
    exact absent s there has

/-- The device has the higher count of its own and the saved one. -/
theorem used_pushed (proper : Proper files) {count : Nat} (built : rebuildArchive files ids = some (arch, count))
    (rolled : archiveToRollup machine arch = some rollup) {saved : Int}
    (own : SavedCount machine (snapshots files) gid saved) (counted : 0 ≤ moneyGroupUsed money (String.ofList gid)) :
    moneyGroupUsed (pushed machine rollup money) (String.ofList gid) =
      max (moneyGroupUsed money (String.ofList gid)) saved := by
  have distinct := imported_distinct (rollup_distinct (rebuild_distinct proper built) rolled) machine
  rw [groupUsed_eq] at counted ⊢
  rw [groupUsed_eq, usedOf, pushed_groups, rankOf_foldl_raise, ← usedOf]
  rcases own.cases proper built rolled with ⟨g, backed, rfl⟩ | ⟨absent, rfl⟩
  · have highestUsed := @highest_unique _ _ _ _ Group.used _ _ _ distinct
      (backed_imported proper built rolled backed)
    rw [highestUsed, posted_used machine backed.fits]
    exact unbotD_sup _ backed.fits.used.1
  · rw [imported_absent absent, sup_bot_eq, max_eq_left counted]

/-- A group of which the device has no count, or a lower one, is taken over. -/
theorem group_pushed (proper : Proper files) {count : Nat} (built : rebuildArchive files ids = some (arch, count))
    (rolled : archiveToRollup machine arch = some rollup) {g : Rolled} (backed : Backed machine (snapshots files) gid g)
    (lost : ∀ known, money.groups.lookup (String.ofList gid) = some known → known.used < g.used) :
    (pushed machine rollup money).groups.lookup (String.ofList gid) =
      some (importedGroup (({ g with deleted := decide (gid ∉ ids) } : Rolled).posted machine)) := by
  rw [pushed_groups]
  refine lookup_foldl_raise (imported_distinct (rollup_distinct (rebuild_distinct proper built) rolled) machine)
    (backed_imported proper built rolled backed) ?_
  rw [posted_used machine backed.fits, rankOf]
  cases known : money.groups.lookup (String.ofList gid) with
  | none => exact WithBot.bot_lt_coe _
  | some group => exact WithBot.coe_lt_coe.mpr (lost group known)

end

/-! ## The next rollup -/

section
variable {prices : Prices} {catalogue : List VoucherGroup} {counts : String → Nat} {books : Books}
  {journalOpens saves : Bool}

/-- Only the groups that were generated here come to anything. -/
theorem owed_generated {used more : String → Int} (same : ∀ g ∈ catalogue, IsAutogen g.name → used g.id = more g.id)
    (seller : String) : owed catalogue used seller = owed catalogue more seller := by
  induction catalogue with
  | nil => rfl
  | cons g rest ih =>
    obtain ⟨own, later⟩ := List.forall_mem_cons.mp same
    rw [owed_cons, owed_cons, ih later]
    by_cases generated : IsAutogen g.name
    · rw [own generated]
    · simp [generated]

theorem firstPage_whole (onePage : catalogue.length ≤ voucherPageSize) :
    getVoucherGroupsJson (firstPage (listing catalogue counts)) =
      some { errorCode := 0, data := listing catalogue counts } := by
  have length : (listing catalogue counts).length ≤ voucherPageSize := by rwa [listing, List.length_map]
  simp [firstPage, getVoucherGroupsJson, List.take_of_length_le length]

/-- A listed group has the count of the controller. -/
theorem used_listed {g : VoucherGroup} (listed : g ∈ catalogue) (generated : IsAutogen g.name) :
    moneyGroupUsed (moneyNightlyRollup prices (some { errorCode := 0, data := listing catalogue counts }) journalOpens saves
      books).money g.id = counts g.id := by
  have looked := @rollup_lookup prices { errorCode := 0, data := listing catalogue counts } rfl journalOpens saves books
    g.id
  cases last : lastOf g.id (ledgerEntries prices books.now (listing catalogue counts)) with
  | none =>
    have there : { g with usedCount := (counts g.id : Int) } ∈ listing catalogue counts :=
      List.mem_map.mpr ⟨g, listed, rfl⟩
    exact (lastOf_ledgerEntries_none.mp last _ there generated rfl).elim
  | some written =>
    obtain ⟨v, inside, -, own, rfl⟩ := lastOf_ledgerEntries last
    obtain ⟨other, -, rfl⟩ := List.mem_map.mp inside
    have same : other.id = g.id := own
    rw [last] at looked
    rw [moneyGroupUsed, looked]
    simp [rollupEntry, upserted, same]

/-- A group that is not listed is as it was, and marked. -/
theorem lookup_unlisted {id : String} (unlisted : ∀ v ∈ catalogue, v.id ≠ id) :
    (moneyNightlyRollup prices (some { errorCode := 0, data := listing catalogue counts }) journalOpens saves
      books).money.groups.lookup id = (books.money.groups.lookup id).map fun g => { g with deleted := true } := by
  have absent : lastOf id (ledgerEntries prices books.now (listing catalogue counts)) = none := by
    refine lastOf_ledgerEntries_none.mpr fun v inside _ => ?_
    obtain ⟨g, there, rfl⟩ := List.mem_map.mp inside
    exact unlisted g there
  have looked := @rollup_lookup prices { errorCode := 0, data := listing catalogue counts } rfl journalOpens saves books
    id
  rwa [absent] at looked

/-- The day of a rollup that reads the whole list is what the counts come to beyond the ledger. -/
theorem day_of_rollup (distinct : (catalogue.map (·.id)).Nodup) (positive : ∀ g ∈ catalogue, 0 < g.price)
    (behind : Behind catalogue counts books.money) {seller : String} (named : seller ≠ "") :
    total (rollupPass prices (some { errorCode := 0, data := listing catalogue counts }) books.now books.money).sellerDay
        seller =
      owed catalogue (fun id => counts id) seller - ledgerDue catalogue books.money seller := by
  have accounted := @rollupPass_accounted prices catalogue counts books.now books.money distinct positive behind
    (some { errorCode := 0, data := listing catalogue counts }) fun _ _ inside => inside
  have grown := accounted.grown seller named
  have after : ledgerDue catalogue (rollupPass prices (some { errorCode := 0, data := listing catalogue counts }) books.now
      books.money).money seller = owed catalogue (fun id => counts id) seller :=
    owed_generated
      (fun g listed generated => @used_listed prices catalogue counts books true true g listed generated) seller
  omega

end

/-- The ledger has what was saved of a group, frozen. -/
structure Kept (g : Rolled) (group : Group) : Prop where
  name : group.name = String.ofList g.name
  seller : group.seller = String.ofList g.seller
  month : group.month = g.month
  used : group.used = g.used
  price : group.price = g.price
  revenue : group.revenue = g.used * g.price
  deleted : group.deleted = true

/-- After the rollup of a backup was pushed, the next rollup of the device journals what the
    controller's counts come to beyond the higher of the device's own and the saved ones, and
    the saved groups that the controller no longer has are in the ledger with what they had. -/
theorem restored {F : Type} [Zero F] [DecidableEq F] (machine : Machine F) {files : List (File F)} {ids : List Text}
    {rollup : Dict Text Rolled} (proper : Proper files) (made : backupRollup machine files ids = some rollup)
    (prices : Prices) (catalogue : List VoucherGroup) (counts : String → Nat) (saved : String → Int) (books : Books)
    (journalOpens saves : Bool) (distinct : (catalogue.map (·.id)).Nodup) (positive : ∀ g ∈ catalogue, 0 < g.price)
    (onePage : catalogue.length ≤ voucherPageSize) (behind : Behind catalogue counts books.money)
    (backup : ∀ g ∈ catalogue, SavedCount machine (snapshots files) g.id.toList (saved g.id) ∧ saved g.id ≤ counts g.id) :
    let night := moneyNightlyRollup prices (getVoucherGroupsJson (firstPage (listing catalogue counts))) journalOpens saves
      { books with money := pushed machine rollup books.money }
    (∃ day, night.sellerDays = journal journalOpens books.now day books.sellerDays ∧ ∀ seller, seller ≠ "" →
      total day seller = owed catalogue (fun id => counts id) seller -
        owed catalogue (fun id => max (moneyGroupUsed books.money id) (saved id)) seller) ∧
    ∀ gid g, Backed machine (snapshots files) gid g → (∀ v ∈ catalogue, v.id ≠ String.ofList gid) →
      (∀ known, books.money.groups.lookup (String.ofList gid) = some known → known.used < g.used) →
        ∃ group, night.money.groups.lookup (String.ofList gid) = some group ∧ Kept g group := by
  obtain ⟨⟨arch, count⟩, built, rolled⟩ := Option.bind_eq_some_iff.mp made
  rw [firstPage_whole onePage]
  have used (g) (listed : g ∈ catalogue) : moneyGroupUsed (pushed machine rollup books.money) g.id =
      max (moneyGroupUsed books.money g.id) (saved g.id) := by
    have counted : 0 ≤ moneyGroupUsed books.money (String.ofList g.id.toList) := by
      rw [String.ofList_toList]
      exact (behind g listed).1
    have own := used_pushed proper built rolled (backup g listed).1 counted
    rwa [String.ofList_toList] at own
  have behindPushed : Behind catalogue counts (pushed machine rollup books.money) := fun g listed => by
    have older := (backup g listed).2
    have own := behind g listed
    rw [used g listed]
    omega
  refine ⟨⟨_, rfl, fun seller named => ?_⟩, fun gid g backed gone lost => ?_⟩
  · have day := @day_of_rollup prices catalogue counts { books with money := pushed machine rollup books.money } distinct
      positive behindPushed seller named
    have ledger : ledgerDue catalogue (pushed machine rollup books.money) seller =
        owed catalogue (fun id => max (moneyGroupUsed books.money id) (saved id)) seller :=
      SellerJournal.owed_congr used seller
    rw [day, ledger]
  · refine ⟨_, (lookup_unlisted gone).trans (congrArg _ (group_pushed proper built rolled backed lost)), ?_⟩
    exact
      { name := rfl
        seller := rfl
        month := rfl
        used := posted_used machine backed.fits _
        price := posted_price machine backed.fits _
        revenue := congrArg₂ (· * ·) (posted_used machine backed.fits false) (posted_price machine backed.fits false)
        deleted := rfl }

/-! ## A lost ledger -/

def savedGroup (id name : String) (total : Int) : VoucherArchive.Group Rat where
  id := id.toList
  data := []
  members := [(VoucherArchive.idKey, .text id.toList), (nameKey, .text name.toList),
    (descriptionKey, .text "\x7b\"price\": 20\x7d".toList), (totalCountKey, .int total), (unusedKey, .int 2),
    (createdKey, .int 1782864000000), (VoucherArchive.dataKey, .array [])]
  carries := rfl
  listed := rfl

/-- Three vouchers of Ana and five of Ben were redeemed. -/
def savedFiles : List (File Rat) :=
  [{ basename := "voucher_snapshot_1.json".toList
     doc := some
      { fetchedAt := "2026-07-02T08:00:00".toList
        groups := [savedGroup "g1" "AUTOGEN: 2607 Ana" 5, savedGroup "g2" "AUTOGEN: 2606 Ben" 7] } }]

def laptop : Machine Rat where
  loads := fun text => if text = "\x7b\"price\": 20\x7d".toList then some (.object [(priceKey, .int 20)]) else none
  int
    | .int z => some (some z)
    | _ => some none
  month := fun created => monthOf VoucherLedger.noPrices (created.toNat / 1000)
  now := 1783000000
  int_int := fun _ => rfl

def savedRolled (name seller : String) (used : Int) (deleted : Bool) : Rolled where
  name := name.toList
  seller := seller.toList
  month := "2026-07"
  used := used
  price := 20
  deleted := deleted

theorem latest_saved {gid key : Text} {value : Value Rat}
    (shown : (snapshots savedFiles).map (Snapshot.field gid key) = [some value]) :
    IsLatest Snapshot.fetchedAt (Snapshot.field gid key) (snapshots savedFiles) value := by
  refine ⟨_, List.mem_singleton_self _, List.head_eq_of_cons_eq shown, fun other inside _ => ?_⟩
  rw [List.mem_singleton.mp inside]

/-- The groups that the script makes of these files. -/
def savedGroups : List (String × String × String × Int) :=
  [("g1", "AUTOGEN: 2607 Ana", "Ana", 3), ("g2", "AUTOGEN: 2606 Ben", "Ben", 5)]

theorem backed_saved {id name seller : String} {used : Int} (listed : (id, name, seller, used) ∈ savedGroups) :
    Backed laptop (snapshots savedFiles) id.toList (savedRolled name seller used false) := by
  simp only [savedGroups, List.mem_cons, Prod.mk.injEq, List.not_mem_nil, or_false] at listed
  rcases listed with ⟨rfl, rfl, rfl, rfl⟩ | ⟨rfl, rfl, rfl, rfl⟩ <;> exact
    { name := latest_saved rfl
      generated := by decide
      seller := by decide
      used := ⟨_, 2, latest_saved rfl, latest_saved rfl, rfl⟩
      month := ⟨1782864000000, latest_saved rfl, by decide +kernel⟩
      price := ⟨_, [(priceKey, .int 20)], latest_saved rfl, by decide, rfl, rfl⟩
      fits := ⟨by decide, by decide⟩ }

def lostBooks : Books where
  now := 1783000100
  sales := []
  sellerDays := []
  money := Money.empty
  saved := Money.empty

def anaGroup : VoucherGroup where
  id := "g1"
  name := "AUTOGEN: 2607 Ana"
  usedCount := 0
  price := 20
  createdMillis := 1782864000000

/-- One voucher was redeemed after the backup, and the group of Ben is gone. -/
theorem restored_lost :
    ∃ rollup, backupRollup laptop savedFiles ["g1".toList] = some rollup ∧
      let night := moneyNightlyRollup VoucherLedger.noPrices
        (getVoucherGroupsJson (firstPage (listing [anaGroup] fun _ => 4))) true true
        { lostBooks with money := pushed laptop rollup Money.empty }
      (∃ day, night.sellerDays = journal true 1783000100 day [] ∧ total day "Ana" = 20) ∧
        ∃ group, night.money.groups.lookup "g2" = some group ∧
          Kept (savedRolled "AUTOGEN: 2606 Ben" "Ben" 5 false) group := by
  have made : backupRollup laptop savedFiles ["g1".toList] = some
      [("g1".toList, savedRolled "AUTOGEN: 2607 Ana" "Ana" 3 false),
        ("g2".toList, savedRolled "AUTOGEN: 2606 Ben" "Ben" 5 true)] := by
    decide +kernel
  have proper : Proper savedFiles := by
    refine ⟨by decide, List.forall_mem_singleton.mpr ?_⟩
    rintro g (_ | ⟨_, _ | ⟨_, ⟨⟩⟩⟩) <;> exact ⟨by decide, by decide, by decide⟩
  have backup : ∀ g ∈ [anaGroup], SavedCount laptop (snapshots savedFiles) g.id.toList 3 ∧ (3 : Int) ≤ (4 : Nat) :=
    List.forall_mem_singleton.mpr ⟨.backed (backed_saved (List.mem_cons_self ..)), by decide⟩
  obtain ⟨⟨day, journaled, amounts⟩, kept⟩ := restored laptop proper made VoucherLedger.noPrices [anaGroup]
    (fun _ => 4) (fun _ => 3) lostBooks true true (by decide) (by decide) (by decide)
    (List.forall_mem_singleton.mpr (by decide)) backup
  refine ⟨_, made, ⟨day, journaled, ?_⟩, ?_⟩
  · rw [amounts "Ana" (by decide)]
    decide +kernel
  · exact kept "g2".toList _ (backed_saved (List.mem_cons_of_mem _ (List.mem_cons_self ..))) (by decide) nofun

end EllaFi.LedgerRestore
