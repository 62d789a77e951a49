import EllaFi.MoneyStore

/-!
The marks of the voucher ledger after a rollup. A rollup that reads a document
writes the last record of every group in it and freezes all other groups
(`rollup_lookup`). One page holds a hundred groups, and a reply that is cut off is
read as far as it goes. So a mark means that the group is gone exactly when no group
of the ledger is on a later page, and a failed reply leaves the ledger alone exactly
when it leaves no document or one that the ledger already agrees with
(`deleted_means_gone`).
-/
namespace EllaFi.VoucherLedger
open EllaFi.MoneyStore EllaFi.Totals

section
variable (prices : Prices) (now : Nat)

/-- What a document writes to the ledger, in its order. -/
def ledgerEntries (data : List VoucherGroup) : List (String × Group) :=
  (data.filter fun g => IsAutogen g.name).map fun g => (g.id, rollupEntry prices now g)

end

section
variable {prices : Prices} {now : Nat} {data : List VoucherGroup} {id : String}

theorem mem_ledgerEntries {entry : String × Group} :
    entry ∈ ledgerEntries prices now data ↔
      ∃ g ∈ data, IsAutogen g.name ∧ entry = (g.id, rollupEntry prices now g) := by
  simp only [ledgerEntries, List.mem_map, List.mem_filter, decide_eq_true_eq, and_assoc]
  refine exists_congr fun g => and_congr_right fun _ => and_congr_right fun _ => eq_comm

theorem lastOf_ledgerEntries {g : Group} (last : lastOf id (ledgerEntries prices now data) = some g) :
    ∃ v ∈ data, IsAutogen v.name ∧ v.id = id ∧ g = rollupEntry prices now v := by
  obtain ⟨v, inside, autogen, same⟩ := mem_ledgerEntries.mp (lastOf_mem last)
  exact ⟨v, inside, autogen, (congrArg Prod.fst same).symm, congrArg Prod.snd same⟩

theorem lastOf_ledgerEntries_none :
    lastOf id (ledgerEntries prices now data) = none ↔ ∀ v ∈ data, IsAutogen v.name → v.id ≠ id := by
  rw [lastOf_none]
  constructor
  · intro absent v inside autogen
    exact absent _ (mem_ledgerEntries.mpr ⟨v, inside, autogen, rfl⟩)
  · intro absent entry inside
    obtain ⟨v, there, autogen, rfl⟩ := mem_ledgerEntries.mp inside
    exact absent v there autogen

theorem foldl_rollupGroup_groups (pass : Pass) :
    (data.foldl (rollupGroup prices now) pass).money.groups =
      (ledgerEntries prices now data).foldl (fun table entry => table.insert entry.1 entry.2) pass.money.groups := by
  induction data generalizing pass with
  | nil => rfl
  | cons g rest ih =>
    rw [List.foldl_cons, ih]
    by_cases autogen : IsAutogen g.name
    · simp [ledgerEntries, autogen, rollupGroup, moneyUpsertGroup, rollupEntry]
    · simp [ledgerEntries, autogen, rollupGroup]

theorem mem_foldl_rollupGroup_live (pass : Pass) :
    id ∈ (data.foldl (rollupGroup prices now) pass).live ↔
      id ∈ pass.live ∨ ∃ v ∈ data, IsAutogen v.name ∧ v.id = id := by
  induction data generalizing pass with
  | nil => simp
  | cons g rest ih =>
    rw [List.foldl_cons, ih]
    by_cases autogen : IsAutogen g.name
    · simp only [rollupGroup, autogen, if_true, List.mem_cons]
      constructor
      · rintro ((rfl | before) | ⟨v, later, named, own⟩)
        · exact .inr ⟨g, .inl rfl, autogen, rfl⟩
        · exact .inl before
        · exact .inr ⟨v, .inr later, named, own⟩
      · rintro (before | ⟨v, rfl | later, named, own⟩)
        · exact .inl (.inr before)
        · exact .inl (.inl own.symm)
        · exact .inr ⟨v, later, named, own⟩
    · simp [rollupGroup, autogen]

@[simp] theorem refreshIncome_groups (sales : List Files.Sale) (money : Money) :
    (refreshIncome prices sales money).groups = money.groups := rfl

/-- What a rollup that reads a document leaves of a group: the last record that is
    listed, or the group as it was, frozen. -/
theorem rollup_lookup {document : VoucherDocument} (ok : document.errorCode = 0) (journalOpens saves : Bool)
    (books : Books) (id : String) :
    (moneyNightlyRollup prices (some document) journalOpens saves books).money.groups.lookup id =
      match lastOf id (ledgerEntries prices books.now document.data) with
      | some g => some g
      | none => (books.money.groups.lookup id).map fun g => { g with deleted := true } := by
  simp only [moneyNightlyRollup, rollupPass, ok, if_true, refreshIncome_groups, moneyMarkAbsent, lookup_mapValues,
    foldl_rollupGroup_groups, lookup_foldl_insert]
  cases last : lastOf id (ledgerEntries prices books.now document.data) with
  | none =>
    have absent : id ∉ (document.data.foldl (rollupGroup prices books.now)
        { money := books.money, sellerDay := ∅, live := [] }).live := by
      rw [mem_foldl_rollupGroup_live]
      rintro (before | ⟨v, inside, autogen, own⟩)
      · exact List.not_mem_nil before
      · exact lastOf_ledgerEntries_none.mp last v inside autogen own
    simp [absent]
  | some g =>
    obtain ⟨v, inside, autogen, own, -⟩ := lastOf_ledgerEntries last
    have seen : id ∈ (document.data.foldl (rollupGroup prices books.now)
        { money := books.money, sellerDay := ∅, live := [] }).live :=
      (mem_foldl_rollupGroup_live _).mpr (.inr ⟨v, inside, autogen, own⟩)
    simp [seen]

/-- A rollup that reads no document leaves the groups alone. -/
theorem rollup_unfetched {raw : Option VoucherDocument} (unfetched : ¬ Fetched raw) (journalOpens saves : Bool)
    (books : Books) :
    (moneyNightlyRollup prices raw journalOpens saves books).money.groups = books.money.groups := by
  cases raw with
  | none => rfl
  | some document =>
    have failed : document.errorCode ≠ 0 := fun ok => unfetched ⟨document, rfl, ok⟩
    simp [moneyNightlyRollup, rollupPass, failed]

end

/-! ## Deleted means gone -/

/-- The complete and successful reply to the request for the first page. -/
def firstPage (groups : List VoucherGroup) : VoucherReply :=
  .body true (some { errorCode := 0, data := groups.take voucherPageSize })

/-- The reply is none, is cut off, is no JSON, or reports an error. -/
def Failed : VoucherReply → Prop
  | .body true (some document) => document.errorCode ≠ 0
  | _ => True

/-- A ledger group that the controller has under an AUTOGEN name is not marked, and
    one that it does not have is. -/
def MarksGone (groups : List VoucherGroup) (ledger : Table String Group) : Prop :=
  ∀ id g, ledger.lookup id = some g →
    ((∃ v ∈ groups, v.id = id ∧ IsAutogen v.name) → g.deleted = false) ∧
      ((∀ v ∈ groups, v.id ≠ id) → g.deleted = true)

/-- Every group as it is in the other ledger. -/
def SameGroups (first second : Table String Group) : Prop := ∀ id, first.lookup id = second.lookup id

/-- No group of the ledger is listed on a page that is not asked for. -/
def OnFirstPage (groups : List VoucherGroup) (ledger : Table String Group) : Prop :=
  ∀ v ∈ groups.drop voucherPageSize, IsAutogen v.name → v.id ∉ ledger

/-- The ledger has the groups that a document lists as they would be written, and
    all others are marked. -/
def AlreadyListed (prices : Prices) (now : Nat) (data : List VoucherGroup) (ledger : Table String Group) : Prop :=
  ∀ id, match lastOf id (ledgerEntries prices now data) with
    | some g => ledger.lookup id = some g
    | none => ∀ g, ledger.lookup id = some g → g.deleted = true

section
variable {prices : Prices} {groups : List VoucherGroup} {books : Books} {journalOpens saves : Bool}

theorem marks_gone_iff (distinct : (groups.map (·.id)).Nodup) :
    MarksGone groups
        (moneyNightlyRollup prices (getVoucherGroupsJson (firstPage groups)) journalOpens saves books).money.groups ↔
      OnFirstPage groups books.money.groups := by
  have looked := @rollup_lookup prices { errorCode := 0, data := groups.take voucherPageSize } rfl journalOpens saves
    books
  have pages : groups.take voucherPageSize ++ groups.drop voucherPageSize = groups := List.take_append_drop ..
  constructor
  · intro marks v behind autogen inLedger
    obtain ⟨g, there⟩ := Option.isSome_iff_exists.mp (AList.lookup_isSome.mpr inLedger)
    have unseen : lastOf v.id (ledgerEntries prices books.now (groups.take voucherPageSize)) = none := by
      rw [lastOf_ledgerEntries_none]
      intro other front _ same
      rw [← pages, List.map_append, List.nodup_append] at distinct
      exact distinct.2.2 _ (List.mem_map_of_mem front) _ (List.mem_map_of_mem behind) same
    have frozen := looked v.id
    rw [unseen, there] at frozen
    have kept := (marks v.id _ frozen).1 ⟨v, List.mem_of_mem_drop behind, rfl, autogen⟩
    cases kept
  · intro onPage id g found
    have known := looked id
    rw [show (getVoucherGroupsJson (firstPage groups)) =
      some { errorCode := 0, data := groups.take voucherPageSize } from rfl] at found
    rw [found] at known
    cases last : lastOf id (ledgerEntries prices books.now (groups.take voucherPageSize)) with
    | some written =>
      rw [last] at known
      cases known
      obtain ⟨v, front, -, own, rfl⟩ := lastOf_ledgerEntries last
      exact ⟨fun _ => rfl, fun gone => absurd own (gone v (List.mem_of_mem_take front))⟩
    | none =>
      rw [last] at known
      obtain ⟨before, there, rfl⟩ := Option.map_eq_some_iff.mp known.symm
      refine ⟨?_, fun _ => rfl⟩
      rintro ⟨v, inside, rfl, autogen⟩
      rw [← pages] at inside
      rcases List.mem_append.mp inside with front | behind
      · exact absurd rfl (lastOf_ledgerEntries_none.mp last v front autogen)
      · exact absurd (AList.lookup_isSome.mp (by rw [there]; rfl)) (onPage v behind autogen)

theorem same_groups_iff {document : VoucherDocument} (ok : document.errorCode = 0) :
    SameGroups (moneyNightlyRollup prices (some document) journalOpens saves books).money.groups books.money.groups ↔
      AlreadyListed prices books.now document.data books.money.groups := by
  refine forall_congr' fun id => ?_
  rw [rollup_lookup ok]
  cases lastOf id (ledgerEntries prices books.now document.data) with
  | some g => exact eq_comm
  | none =>
    cases there : books.money.groups.lookup id with
    | none => simp
    | some g =>
      constructor
      · rintro same other ⟨⟩
        exact Option.some.inj same ▸ rfl
      · intro marked
        have own := marked g rfl
        rcases g with ⟨⟩
        cases own
        rfl

end

/-- A rollup with a complete reply marks exactly the groups that are gone if and only
    if no group of the ledger is behind the first page; one with a failed reply
    changes no group if and only if the reply leaves no document without an error, or
    one that the ledger already agrees with. -/
theorem deleted_means_gone (prices : Prices) (journalOpens saves : Bool) (books : Books) (groups : List VoucherGroup)
    (distinct : (groups.map (·.id)).Nodup) :
    (MarksGone groups
        (moneyNightlyRollup prices (getVoucherGroupsJson (firstPage groups)) journalOpens saves books).money.groups ↔
      OnFirstPage groups books.money.groups) ∧
    ∀ reply, Failed reply →
      (SameGroups (moneyNightlyRollup prices (getVoucherGroupsJson reply) journalOpens saves books).money.groups
          books.money.groups ↔
        ∀ document, getVoucherGroupsJson reply = some document → document.errorCode = 0 →
          AlreadyListed prices books.now document.data books.money.groups) := by
  refine ⟨marks_gone_iff distinct, fun reply _ => ?_⟩
  by_cases fetched : Fetched (getVoucherGroupsJson reply)
  · obtain ⟨document, read, ok⟩ := fetched
    rw [read, same_groups_iff ok]
    constructor
    · rintro listed other same -
      cases same
      exact listed
    · intro listed
      exact listed document rfl ok
  · rw [rollup_unfetched fetched]
    exact iff_of_true (fun _ => rfl) fun document read ok => absurd ⟨document, read, ok⟩ fetched

/-! ## A reply that is cut off -/

def noPrices : Prices := { utcOffset := 28800, pricePerCoin := 1 }

/-- One group of a seller is in the ledger. -/
def oneGroup : Books where
  now := 1700000000
  sales := []
  sellerDays := []
  money := { groups := AList.singleton "g1" (upserted "AUTOGEN: 2401 Ana" "Ana" "2023-11" 3 20 20 1600000000), income := ∅ }
  saved := Money.empty

/-- The seller's group is still there, next to a plain one and to one of another seller. -/
def threeGroups : List VoucherGroup :=
  [{ id := "g0", name := "Guests", usedCount := 7, price := 0, createdMillis := 1500000000000 },
    { id := "g1", name := "AUTOGEN: 2401 Ana", usedCount := 4, price := 20, createdMillis := 1600000000000 },
    { id := "g2", name := "AUTOGEN: 2402 Ben", usedCount := 1, price := 10, createdMillis := 1690000000000 }]

/-- The controller refuses the request. -/
def refused : VoucherReply := .body true (some { errorCode := -1, data := [] })

theorem deleted_means_gone_one :
    (MarksGone threeGroups
        (moneyNightlyRollup noPrices (getVoucherGroupsJson (firstPage threeGroups)) true true oneGroup).money.groups ↔
      OnFirstPage threeGroups oneGroup.money.groups) ∧
    (SameGroups (moneyNightlyRollup noPrices (getVoucherGroupsJson refused) true true oneGroup).money.groups
        oneGroup.money.groups ↔
      ∀ document, getVoucherGroupsJson refused = some document → document.errorCode = 0 →
        AlreadyListed noPrices oneGroup.now document.data oneGroup.money.groups) := by
  obtain ⟨complete, failed⟩ := deleted_means_gone noPrices true true oneGroup threeGroups (by decide)
  exact ⟨complete, failed refused (by decide : (-1 : Int) ≠ 0)⟩

/-- A reply that ends before its first group marks a group as deleted. -/
theorem cut_off_reply_deletes :
    Failed (.body false (some { errorCode := 0, data := [] })) ∧
      ¬ SameGroups (moneyNightlyRollup noPrices (getVoucherGroupsJson (.body false (some { errorCode := 0, data := [] })))
          true true oneGroup).money.groups oneGroup.money.groups := by
  refine ⟨trivial, fun same => ?_⟩
  have kept := same "g1"
  exact absurd kept (by decide +kernel)

end EllaFi.VoucherLedger
