import EllaFi.Attribution
import EllaFi.LocalDays
import EllaFi.Totals

/-!
The sellers' leaderboard. One pass over the voucher groups adds up each seller's vouchers,
pesos and minutes of the days that are asked for, and the vouchers of the last seven whole
days and of the seven before; the sellers are then sorted by what they brought in. Each
seller of a group that counts has one row with the sums over the seller's groups, nobody
else has one, and the rows together have the vouchers of all groups that count
(`leaderboard_rows`). The sums are whole numbers here; a `long` has them up to 2^31 - 1.
-/
namespace EllaFi.Leaderboard
open EllaFi.Attribution (autogenSellerPrice)
open EllaFi.ConfigFile EllaFi.JsonDoc
open EllaFi.LocalDays (TimeZone localDayNum)
open EllaFi.TextLines (Text)
open EllaFi.Totals

/-! ## Data -/

structure VoucherGroup where
  name : String
  description : Text
  /-- Milliseconds; 0 where there is none. -/
  createdTime : Int
  usedCount : Int
  duration : Int

abbrev Entry : Type := String × (Int × Int)

/-- `std::sort` by what was brought in; the order of equals is left open. -/
structure Sorter where
  sort : List Entry → List Entry
  perm : ∀ entries, (sort entries).Perm entries
  ordered : ∀ entries, (sort entries).Pairwise fun one other => other.2.2 ≤ one.2.2

/-- A sort that keeps the order of equals is one. -/
def stableSorter : Sorter where
  sort entries := entries.mergeSort fun one other => other.2.2 ≤ one.2.2
  perm entries := List.mergeSort_perm _ _
  ordered entries := by
    have sorted : (entries.mergeSort fun one other => other.2.2 ≤ one.2.2).Pairwise
        fun one other => decide (other.2.2 ≤ one.2.2) = true := by
      refine List.pairwise_mergeSort (fun a b c => ?_) (fun a b => ?_) entries
      · simp only [decide_eq_true_eq]
        omega
      · simp only [Bool.or_eq_true, decide_eq_true_eq]
        omega
    exact sorted.imp of_decide_eq_true

structure Row where
  seller : String
  vouchers : Int
  revenue : Int
  commission : Int
  net : Int
  registered : Bool
  wowCur : Int
  wowPrev : Int
  minutes : Int
deriving DecidableEq

/-- What is added up, by seller: vouchers with their pesos, minutes, and the vouchers of
    the last seven whole days and of the seven before. -/
structure Board where
  totals : Table String (Int × Int)
  minTotals : Table String Int
  wowCur : Table String Int
  wowPrev : Table String Int

def emptyBoard : Board := { totals := ∅, minTotals := ∅, wowCur := ∅, wowPrev := ∅ }

def commissionRatePercent : Int := 20

/-- What is asked for, and what is known. -/
structure Query where
  now : Int
  /-- The parameter, if there is one. -/
  days : Option Int
  registered : List String

def Query.nDays (q : Query) : Int := q.days.elim 30 fun days => max 1 (min days 365)

def Query.cutoff (q : Query) : Int := q.now - q.nDays * 86400

section
variable {F : Type} (lib : Library F) (pricePerCoin : Int) (zone : TimeZone) (q : Query)

/-- The local day on which a group was made. -/
def VoucherGroup.created (g : VoucherGroup) : Int := localDayNum zone (g.createdTime.tdiv 1000)

def Query.today : Int := localDayNum zone q.now

/-- The group was made on one of seven days. -/
def VoucherGroup.Within (g : VoucherGroup) (first last : Int) : Prop :=
  0 < g.createdTime ∧ first ≤ g.created zone ∧ g.created zone ≤ last

instance (g : VoucherGroup) (first last : Int) : Decidable (g.Within zone first last) := inferInstanceAs (Decidable (_ ∧ _))

/-- The group is too old. -/
def VoucherGroup.Before (g : VoucherGroup) : Prop := 0 < g.createdTime ∧ g.createdTime.tdiv 1000 < q.cutoff

instance (g : VoucherGroup) : Decidable (g.Before q) := inferInstanceAs (Decidable (_ ∧ _))

/-- One group of the pass. -/
def tally (board : Board) (g : VoucherGroup) : Board :=
  match autogenSellerPrice lib pricePerCoin g.name g.description with
  | none => board
  | some (seller, price) =>
    let today := q.today zone
    let board :=
      if g.Within zone (today - 7) (today - 1) then { board with wowCur := add board.wowCur (seller, g.usedCount) }
      else if g.Within zone (today - 14) (today - 8) then { board with wowPrev := add board.wowPrev (seller, g.usedCount) }
      else board
    if g.Before q then board
    else
      { board with
        totals := add board.totals (seller, (g.usedCount, g.usedCount * price))
        minTotals := add board.minTotals (seller, g.usedCount * g.duration) }

def row (board : Board) (entry : Entry) : Row where
  seller := entry.1
  vouchers := entry.2.1
  revenue := entry.2.2
  commission := commissionRatePercent
  net := entry.2.2 - (entry.2.2 * commissionRatePercent).tdiv 100
  registered := entry.1 ∈ q.registered
  wowCur := total board.wowCur entry.1
  wowPrev := total board.wowPrev entry.1
  minutes := total board.minTotals entry.1

def handleAdminLeaderboard (sorter : Sorter) (groups : List VoucherGroup) : List Row :=
  let board := groups.foldl (tally lib pricePerCoin zone q) emptyBoard
  (sorter.sort (board.totals.entries.map fun entry => (entry.1, entry.2))).map (row q board)

/-! ## What the rows say -/

/-- The group's seller, if it was generated here. -/
def sellerOf (g : VoucherGroup) : Option String := (autogenSellerPrice lib pricePerCoin g.name g.description).map (·.1)

def priceOf (g : VoucherGroup) : Int := ((autogenSellerPrice lib pricePerCoin g.name g.description).map (·.2)).getD 0

/-- A seller's groups. -/
def groupsOf (seller : String) (groups : List VoucherGroup) : List VoucherGroup :=
  groups.filter fun g => sellerOf lib pricePerCoin g = some seller

/-- The groups of the days that are asked for. -/
def counted (groups : List VoucherGroup) : List VoucherGroup := groups.filter fun g => ¬ g.Before q

/-- What the groups of a seller come to. -/
def sum (f : VoucherGroup → Int) (groups : List VoucherGroup) : Int := (groups.map f).sum

/-- The row of a seller. -/
structure Right (groups : List VoucherGroup) (r : Row) : Prop where
  vouchers : r.vouchers = sum VoucherGroup.usedCount (groupsOf lib pricePerCoin r.seller (counted q groups))
  revenue : r.revenue =
    sum (fun g => g.usedCount * priceOf lib pricePerCoin g) (groupsOf lib pricePerCoin r.seller (counted q groups))
  minutes : r.minutes = sum (fun g => g.usedCount * g.duration) (groupsOf lib pricePerCoin r.seller (counted q groups))
  wowCur : r.wowCur = sum VoucherGroup.usedCount
    ((groupsOf lib pricePerCoin r.seller groups).filter fun g => g.Within zone (q.today zone - 7) (q.today zone - 1))
  wowPrev : r.wowPrev = sum VoucherGroup.usedCount
    ((groupsOf lib pricePerCoin r.seller groups).filter fun g => g.Within zone (q.today zone - 14) (q.today zone - 8))
  net : r.net = r.revenue - (r.revenue * 20).tdiv 100
  registered : r.registered = true ↔ r.seller ∈ q.registered

structure Rows (groups : List VoucherGroup) (rows : List Row) : Prop where
  once : (rows.map Row.seller).Nodup
  listed : ∀ seller, (∃ r ∈ rows, r.seller = seller) ↔ groupsOf lib pricePerCoin seller (counted q groups) ≠ []
  right : ∀ r ∈ rows, Right lib pricePerCoin zone q groups r
  ordered : rows.Pairwise fun one other => other.revenue ≤ one.revenue
  conserved : (rows.map Row.vouchers).sum =
    sum VoucherGroup.usedCount ((counted q groups).filter fun g => (sellerOf lib pricePerCoin g).isSome)

end

/-! ## The pass -/

section
variable {F : Type} {lib : Library F} {pricePerCoin : Int} {zone : TimeZone} {q : Query} {groups : List VoucherGroup}

/-- What a group adds under its seller, if it is one of those that count. -/
def part {Amount : Type} (lib : Library F) (pricePerCoin : Int) (Counts : VoucherGroup → Prop) [DecidablePred Counts]
    (amount : VoucherGroup → Amount) (g : VoucherGroup) : Option (String × Amount) :=
  if Counts g then (sellerOf lib pricePerCoin g).map fun seller => (seller, amount g) else none

theorem sumOf_part {Amount : Type} [AddCommMonoid Amount] (Counts : VoucherGroup → Prop) [DecidablePred Counts]
    (amount : VoucherGroup → Amount) (seller : String) :
    sumOf seller (groups.filterMap (part lib pricePerCoin Counts amount)) =
      (((groupsOf lib pricePerCoin seller groups).filter fun g => Counts g).map amount).sum := by
  induction groups with
  | nil => rfl
  | cons g rest ih =>
    rw [groupsOf] at ih ⊢
    by_cases counts : Counts g
    · cases own : sellerOf lib pricePerCoin g with
      | none =>
        have skipped : part lib pricePerCoin Counts amount g = none := by rw [part, if_pos counts, own]; rfl
        rw [List.filterMap_cons_none skipped, ih, List.filter_cons_of_neg (by simp [own])]
      | some name =>
        have taken : part lib pricePerCoin Counts amount g = some (name, amount g) := by rw [part, if_pos counts, own]; rfl
        rw [List.filterMap_cons_some taken, sumOf_cons, ih]
        by_cases same : name = seller
        · simp [own, same, counts]
        · simp [own, same]
    · have skipped : part lib pricePerCoin Counts amount g = none := if_neg counts
      rw [List.filterMap_cons_none skipped, ih]
      by_cases own : sellerOf lib pricePerCoin g = some seller
      · simp [own, counts]
      · simp [own]

/-- The pass adds up four tables side by side. -/
theorem foldl_tally (board : Board) : groups.foldl (tally lib pricePerCoin zone q) board =
    { totals := (groups.filterMap (part lib pricePerCoin (fun g => ¬ g.Before q) fun g =>
        (g.usedCount, g.usedCount * priceOf lib pricePerCoin g))).foldl add board.totals
      minTotals := (groups.filterMap (part lib pricePerCoin (fun g => ¬ g.Before q) fun g =>
        g.usedCount * g.duration)).foldl add board.minTotals
      wowCur := (groups.filterMap (part lib pricePerCoin (fun g => g.Within zone (q.today zone - 7) (q.today zone - 1))
        VoucherGroup.usedCount)).foldl add board.wowCur
      wowPrev := (groups.filterMap (part lib pricePerCoin (fun g => g.Within zone (q.today zone - 14) (q.today zone - 8))
        VoucherGroup.usedCount)).foldl add board.wowPrev } := by
  induction groups generalizing board with
  | nil => rfl
  | cons g rest ih =>
    rw [List.foldl_cons, ih]
    cases own : autogenSellerPrice lib pricePerCoin g.name g.description with
    | none => simp [tally, own, part, sellerOf]
    | some found =>
      obtain ⟨seller, price⟩ := found
      have disjoint : g.Within zone (q.today zone - 7) (q.today zone - 1) →
          ¬ g.Within zone (q.today zone - 14) (q.today zone - 8) := by
        unfold VoucherGroup.Within
        omega
      by_cases before : g.Before q <;> by_cases cur : g.Within zone (q.today zone - 7) (q.today zone - 1) <;>
        by_cases prev : g.Within zone (q.today zone - 14) (q.today zone - 8) <;>
        simp_all [tally, part, sellerOf, priceOf]

variable (lib pricePerCoin zone q) in
def boardOf (groups : List VoucherGroup) : Board := groups.foldl (tally lib pricePerCoin zone q) emptyBoard

variable (lib pricePerCoin zone q) in
def entriesOf (groups : List VoucherGroup) : List Entry :=
  (boardOf lib pricePerCoin zone q groups).totals.entries.map fun entry => (entry.1, entry.2)

theorem mem_entriesOf {seller : String} {amounts : Int × Int} : (seller, amounts) ∈ entriesOf lib pricePerCoin zone q groups ↔
    (boardOf lib pricePerCoin zone q groups).totals.lookup seller = some amounts := by
  refine Iff.trans ?_ AList.mem_lookup_iff.symm
  simp [entriesOf]

theorem groupsOf_counted (seller : String) : groupsOf lib pricePerCoin seller (counted q groups) =
    (groupsOf lib pricePerCoin seller groups).filter fun g => ¬ g.Before q := by
  rw [groupsOf, counted, groupsOf, List.filter_filter, List.filter_filter]
  exact List.filter_congr fun g _ => Bool.and_comm _ _

/-- What stands under a seller, if anything does. -/
theorem lookup_totals (seller : String) : (boardOf lib pricePerCoin zone q groups).totals.lookup seller =
    if groupsOf lib pricePerCoin seller (counted q groups) ≠ [] then
      some ((groupsOf lib pricePerCoin seller (counted q groups)).map fun g =>
        (g.usedCount, g.usedCount * priceOf lib pricePerCoin g)).sum
    else none := by
  rw [boardOf, foldl_tally]
  dsimp only [emptyBoard]
  rw [lookup_foldl_add, sumOf_part, groupsOf_counted]
  refine if_congr ?_ rfl rfl
  simp [part, groupsOf, List.filter_eq_nil_iff]

theorem sum_pairs (groups : List VoucherGroup) (f g : VoucherGroup → Int) :
    (groups.map fun group => (f group, g group)).sum = (sum f groups, sum g groups) := by
  induction groups with
  | nil => rfl
  | cons group rest ih => simp [ih, sum]

theorem right_row {entry : Entry} (inside : entry ∈ entriesOf lib pricePerCoin zone q groups) :
    Right lib pricePerCoin zone q groups (row q (boardOf lib pricePerCoin zone q groups) entry) := by
  obtain ⟨seller, amounts⟩ := entry
  have found := mem_entriesOf.mp inside
  rw [lookup_totals] at found
  obtain ⟨-, same⟩ := Option.ite_none_right_eq_some.mp found
  obtain rfl := Option.some.inj same
  rw [sum_pairs]
  refine ⟨rfl, rfl, ?_, ?_, ?_, rfl, decide_eq_true_iff⟩
  · show total (boardOf lib pricePerCoin zone q groups).minTotals seller = _
    rw [boardOf, foldl_tally, total_foldl_add, sumOf_part, row, groupsOf_counted]
    exact zero_add _
  · show total (boardOf lib pricePerCoin zone q groups).wowCur seller = _
    rw [boardOf, foldl_tally, total_foldl_add, sumOf_part]
    exact zero_add _
  · show total (boardOf lib pricePerCoin zone q groups).wowPrev seller = _
    rw [boardOf, foldl_tally, total_foldl_add, sumOf_part]
    exact zero_add _

theorem amounts_part {Amount : Type} (Counts : VoucherGroup → Prop) [DecidablePred Counts] (amount : VoucherGroup → Amount) :
    (groups.filterMap (part lib pricePerCoin Counts amount)).map (·.2) =
      ((groups.filter fun g => Counts g).filter fun g => (sellerOf lib pricePerCoin g).isSome).map amount := by
  induction groups with
  | nil => rfl
  | cons g rest ih =>
    by_cases counts : Counts g
    · cases own : sellerOf lib pricePerCoin g with
      | none => simpa [part, counts, own] using ih
      | some name => simpa [part, counts, own] using ih
    · simpa [part, counts] using ih

theorem sum_fst (pairs : List (Int × Int)) : (pairs.map (·.1)).sum = pairs.sum.1 := by
  induction pairs with
  | nil => rfl
  | cons pair rest ih => rw [List.map_cons, List.sum_cons, List.sum_cons, ih, Prod.fst_add]

/-- The rows together have what all that count add up to. -/
theorem vouchers_conserved : ((entriesOf lib pricePerCoin zone q groups).map fun entry => entry.2.1).sum =
    sum VoucherGroup.usedCount ((counted q groups).filter fun g => (sellerOf lib pricePerCoin g).isSome) := by
  have values : ((entriesOf lib pricePerCoin zone q groups).map fun entry => entry.2.1) =
      (((boardOf lib pricePerCoin zone q groups).totals.entries.map (·.2)).map (·.1)) := by
    rw [entriesOf, List.map_map, List.map_map]
    rfl
  rw [values, sum_fst, boardOf, foldl_tally]
  dsimp only [emptyBoard]
  rw [sum_foldl_add, amounts_part, sum_pairs]
  exact zero_add _

end

/-- The leaderboard has a row for each seller of a group that counts and for nobody else,
    with the sums over that seller's groups, the most successful first. -/
theorem leaderboard_rows {F : Type} (lib : Library F) (pricePerCoin : Int) (zone : TimeZone) (q : Query) (sorter : Sorter)
    (groups : List VoucherGroup) :
    Rows lib pricePerCoin zone q groups (handleAdminLeaderboard lib pricePerCoin zone q sorter groups) := by
  have perm := sorter.perm (entriesOf lib pricePerCoin zone q groups)
  have rows : handleAdminLeaderboard lib pricePerCoin zone q sorter groups =
      (sorter.sort (entriesOf lib pricePerCoin zone q groups)).map (row q (boardOf lib pricePerCoin zone q groups)) := rfl
  rw [rows]
  refine ⟨?_, fun seller => ?_, fun r inside => ?_, ?_, ?_⟩
  · rw [List.map_map]
    refine ((perm.map _).nodup_iff).mpr ?_
    rw [entriesOf, List.map_map]
    exact (boardOf lib pricePerCoin zone q groups).totals.nodupKeys
  · have shown : (∃ r ∈ (sorter.sort (entriesOf lib pricePerCoin zone q groups)).map
        (row q (boardOf lib pricePerCoin zone q groups)), r.seller = seller) ↔
        ∃ amounts, (seller, amounts) ∈ entriesOf lib pricePerCoin zone q groups := by
      constructor
      · rintro ⟨r, inside, rfl⟩
        obtain ⟨entry, there, rfl⟩ := List.mem_map.mp inside
        exact ⟨entry.2, perm.mem_iff.mp there⟩
      · rintro ⟨amounts, there⟩
        exact ⟨_, List.mem_map_of_mem (perm.mem_iff.mpr there), rfl⟩
    rw [shown]
    simp only [mem_entriesOf, lookup_totals]
    simp
  · obtain ⟨entry, there, rfl⟩ := List.mem_map.mp inside
    exact right_row (perm.mem_iff.mp there)
  · exact List.pairwise_map.mpr (sorter.ordered _)
  · rw [List.map_map, ((perm.map _).sum_eq)]
    exact vouchers_conserved

end EllaFi.Leaderboard
