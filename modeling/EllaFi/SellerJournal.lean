import EllaFi.Runs
import EllaFi.MoneyStore

/-!
The journal of the sellers' days across power cuts. A rollup writes the growth of
the counts to the journal and saves the ledger afterwards, so what it has journaled
is owed once as long as no reboot comes between the two (`journaled_once`).
Without cuts and failures every unit of growth that the ledger has seen is in the
journal. A save that fails before a reboot journals the same
growth twice (`growth_journaled_twice`).
-/
namespace EllaFi.SellerJournal
open EllaFi.MoneyStore EllaFi.Totals
open EllaFi.Runs (run Always Throughout throughout_always throughout_all throughout_keeps always_mono)
open Function (update)

/-! ## What is owed -/

section
variable (catalogue : List VoucherGroup)

/-- What each seller's groups come to at given counts. -/
def dues (used : String → Int) : List (String × Int) :=
  (catalogue.filter fun g => IsAutogen g.name).map fun g => (sellerOf g.name, used g.id * g.price)

/-- The pesos of a seller's groups at given counts. -/
def owed (used : String → Int) (seller : String) : Int := sumOf seller (dues catalogue used)

end

section
variable {catalogue : List VoucherGroup} {used more : String → Int} {seller : String}

theorem owed_cons (g : VoucherGroup) (rest : List VoucherGroup) (used : String → Int) (seller : String) :
    owed (g :: rest) used seller =
      (if IsAutogen g.name ∧ sellerOf g.name = seller then used g.id * g.price else 0) + owed rest used seller := by
  unfold owed dues
  by_cases autogen : IsAutogen g.name
  · simp only [autogen, List.filter_cons_of_pos, decide_true, List.map_cons, sumOf_cons, true_and]
  · simp [autogen]

theorem owed_mono (positive : ∀ g ∈ catalogue, 0 < g.price) (le : ∀ g ∈ catalogue, used g.id ≤ more g.id)
    (seller : String) : owed catalogue used seller ≤ owed catalogue more seller := by
  induction catalogue with
  | nil => exact Int.le_refl _
  | cons g rest ih =>
    obtain ⟨price, prices⟩ := List.forall_mem_cons.mp positive
    obtain ⟨count, counts⟩ := List.forall_mem_cons.mp le
    rw [owed_cons, owed_cons]
    refine Int.add_le_add ?_ (ih prices counts)
    split
    · exact Int.mul_le_mul_of_nonneg_right count (Int.le_of_lt price)
    · exact Int.le_refl _

theorem owed_nonneg (positive : ∀ g ∈ catalogue, 0 < g.price) (counted : ∀ g ∈ catalogue, 0 ≤ used g.id)
    (seller : String) : 0 ≤ owed catalogue used seller := by
  have zero : owed catalogue (fun _ => 0) seller = 0 := by
    clear positive counted
    induction catalogue with
    | nil => rfl
    | cons g rest ih => simp [owed_cons, ih]
  rw [← zero]
  exact owed_mono positive counted seller

theorem owed_congr (same : ∀ g ∈ catalogue, used g.id = more g.id) (seller : String) :
    owed catalogue used seller = owed catalogue more seller := by
  have equal : dues catalogue used = dues catalogue more := by
    unfold dues
    refine List.map_congr_left fun g inside => ?_
    rw [same g (List.mem_of_mem_filter inside)]
  rw [owed, equal, owed]

/-- A group's count moves what its seller is owed, and nothing else. -/
theorem owed_update (distinct : (catalogue.map (·.id)).Nodup) {g : VoucherGroup} (listed : g ∈ catalogue) (count : Int) :
    owed catalogue (update used g.id count) seller =
      owed catalogue used seller +
        if IsAutogen g.name ∧ sellerOf g.name = seller then (count - used g.id) * g.price else 0 := by
  induction catalogue with
  | nil => cases listed
  | cons first rest ih =>
    rw [List.map_cons, List.nodup_cons] at distinct
    rw [owed_cons, owed_cons]
    rcases List.mem_cons.mp listed with rfl | later
    · have others : owed rest (update used g.id count) seller = owed rest used seller := by
        refine owed_congr (fun other inside => ?_) seller
        have apart : other.id ≠ g.id := fun same => distinct.1 (same ▸ List.mem_map_of_mem inside)
        exact Function.update_of_ne apart _ _
      rw [others, Function.update_self]
      split
      · rw [Int.sub_mul]
        omega
      · omega
    · have apart : first.id ≠ g.id := fun same => distinct.1 (same ▸ List.mem_map_of_mem later)
      rw [Function.update_of_ne apart, ih distinct.2 later]
      omega

end

/-! ## The rollup, one durable write at a time -/

/-- How far a rollup has come. -/
inductive Phase where
  | idle
  /-- The ledger in RAM is updated, and the sellers' day is not yet written. -/
  | journaling (sellerDay : Table String Int)
  | saving

structure Night where
  books : Books
  phase : Phase
  /-- The counts at the controller. -/
  counts : String → Nat
  /-- All that was ever written to the journal; boots trim the file. -/
  written : List (String × Int)
  /-- What was written since the record was last saved. -/
  unsaved : List (String × Int)

inductive Action where
  | elapse (seconds : Nat)
  | redeem (id : String) (times : Nat)
  | fetch (reply : VoucherReply)
  | append (opens : Bool)
  | save (saves : Bool)
  /-- A power cut or a reboot. -/
  | cut (opens : Bool)

section
variable (prices : Prices) (catalogue : List VoucherGroup)

/-- The controller's list at some counts. -/
def listing (counts : String → Nat) : List VoucherGroup := catalogue.map fun g => { g with usedCount := counts g.id }

/-- A document that reports no error lists groups as the controller has them. -/
def Agrees (counts : String → Nat) (raw : Option VoucherDocument) : Prop :=
  match raw with
  | none => True
  | some document => document.errorCode = 0 → ∀ v ∈ document.data, v ∈ listing catalogue counts

instance (counts : String → Nat) (raw : Option VoucherDocument) : Decidable (Agrees catalogue counts raw) :=
  match raw with
  | none => .isTrue trivial
  | some document => inferInstanceAs (Decidable (document.errorCode = 0 → ∀ v ∈ document.data, v ∈ _))

def lineOf (sellerDay : Table String Int) : List (String × Int) :=
  sellerDay.entries.map fun entry => (entry.1, entry.2)

def step (s : Night) : Action → Option Night
  | .elapse seconds => some { s with books := { s.books with now := s.books.now + seconds } }
  | .redeem id times => some { s with counts := update s.counts id (s.counts id + times) }
  | .fetch reply =>
    match s.phase with
    | .idle =>
      if Agrees catalogue s.counts (getVoucherGroupsJson reply) then
        let pass := rollupPass prices (getVoucherGroupsJson reply) s.books.now s.books.money
        some { s with books := { s.books with money := pass.money }, phase := .journaling pass.sellerDay }
      else none
    | _ => none
  | .append opens =>
    match s.phase with
    | .journaling sellerDay =>
      let line := if opens then lineOf sellerDay else []
      some { s with
        books := { s.books with sellerDays := journal opens s.books.now sellerDay s.books.sellerDays }
        phase := .saving
        written := s.written ++ line
        unsaved := s.unsaved ++ line }
    | _ => none
  | .save saves =>
    match s.phase with
    | .saving =>
      let money := refreshIncome prices s.books.sales s.books.money
      some { s with
        books := { s.books with money := money, saved := if saves then money else s.books.saved }
        phase := .idle
        unsaved := if saves then [] else s.unsaved }
    | _ => none
  | .cut opens => some { s with books := boot opens s.books, phase := .idle, unsaved := [] }

/-- No reboot or power cut comes between a journal entry and the save of its ledger. -/
def NothingUnsaved (s : Night) : Action → Prop
  | .cut _ => s.unsaved = []
  | _ => True

instance (s : Night) (action : Action) : Decidable (NothingUnsaved s action) :=
  match action with
  | .cut _ => inferInstanceAs (Decidable (s.unsaved = []))
  | .elapse _ | .redeem .. | .fetch _ | .append _ | .save _ => .isTrue trivial

/-- The device stays up, and every append and save succeeds. -/
def Undisturbed : Action → Prop
  | .cut _ | .append false | .save false => False
  | _ => True

/-- What the controller's counts come to for a seller. -/
def due (s : Night) (seller : String) : Int := owed catalogue (fun id => s.counts id) seller

/-- What the counts in the ledger come to. -/
def ledgerDue (money : Money) (seller : String) : Int := owed catalogue (moneyGroupUsed money) seller

@[simp] theorem ledgerDue_refreshIncome (sales : List Files.Sale) (money : Money) (seller : String) :
    ledgerDue catalogue (refreshIncome prices sales money) seller = ledgerDue catalogue money seller := rfl

/-- What is journaled never exceeds what the counts come to. -/
def AtMostOnce (s : Night) : Prop := ∀ seller, seller ≠ "" → sumOf seller s.written ≤ due catalogue s seller

/-- Nothing is written, and the ledger holds counts that the controller has. -/
structure Start (s : Night) : Prop where
  idle : s.phase = .idle
  written : s.written = []
  unsaved : s.unsaved = []
  saved : s.books.saved = s.books.money
  counted : ∀ g ∈ catalogue, 0 ≤ moneyGroupUsed s.books.money g.id ∧ moneyGroupUsed s.books.money g.id ≤ s.counts g.id

end

/-! ### A rollup in one piece -/

/-- The three writes one after the other are a nightly rollup. -/
theorem steps_rollup {prices : Prices} {catalogue : List VoucherGroup} {s : Night} {reply : VoucherReply}
    (idle : s.phase = .idle) (agrees : Agrees catalogue s.counts (getVoucherGroupsJson reply))
    (journalOpens saves : Bool) :
    (run (step prices catalogue) s [.fetch reply, .append journalOpens, .save saves]).map (·.books) =
      some (moneyNightlyRollup prices (getVoucherGroupsJson reply) journalOpens saves s.books) := by
  simp [run, step, idle, agrees, moneyNightlyRollup]

/-! ## What a pass finds -/

section
variable {prices : Prices} {catalogue data : List VoucherGroup} {counts : String → Nat} {now : Nat} {money : Money}

theorem used_insert (money : Money) (id other : String) (group : Group) :
    moneyGroupUsed { money with groups := money.groups.insert id group } other =
      update (moneyGroupUsed money) id group.used other := by
  unfold moneyGroupUsed
  rw [lookup_insert_eq]
  by_cases here : other = id
  · simp [here]
  · simp [here]

theorem used_markAbsent (money : Money) (live : List String) (id : String) :
    moneyGroupUsed (moneyMarkAbsent money live) id = moneyGroupUsed money id := by
  simp only [moneyGroupUsed, moneyMarkAbsent, lookup_mapValues, Option.map_map]
  congr 2
  funext group
  simp only [Function.comp_apply]
  split <;> rfl

/-- The counts of a ledger are the controller's, or older. -/
def Behind (catalogue : List VoucherGroup) (counts : String → Nat) (money : Money) : Prop :=
  ∀ g ∈ catalogue, 0 ≤ moneyGroupUsed money g.id ∧ moneyGroupUsed money g.id ≤ counts g.id

/-- What a pass puts into the sellers' day is what it adds to the ledger. -/
structure Accounted (catalogue : List VoucherGroup) (counts : String → Nat) (money : Money) (pass : Pass) : Prop where
  behind : Behind catalogue counts pass.money
  nonneg : ∀ seller, 0 ≤ total pass.sellerDay seller
  grown : ∀ seller, seller ≠ "" →
    ledgerDue catalogue pass.money seller = ledgerDue catalogue money seller + total pass.sellerDay seller

theorem rollupGroup_accounted (distinct : (catalogue.map (·.id)).Nodup) (positive : ∀ g ∈ catalogue, 0 < g.price)
    {pass : Pass} (accounted : Accounted catalogue counts money pass) {v : VoucherGroup}
    (listed : v ∈ listing catalogue counts) : Accounted catalogue counts money (rollupGroup prices now pass v) := by
  obtain ⟨g, inside, rfl⟩ := List.mem_map.mp listed
  by_cases autogen : IsAutogen g.name
  · have used : moneyGroupUsed (rollupGroup prices now pass { g with usedCount := counts g.id }).money =
        update (moneyGroupUsed pass.money) g.id (counts g.id) := by
      funext id
      simp only [rollupGroup, autogen, if_true, moneyUpsertGroup]
      exact used_insert pass.money g.id id _
    have older := (accounted.behind g inside).2
    constructor
    · intro other there
      rw [used]
      by_cases same : other.id = g.id
      · rw [same, Function.update_self]
        exact ⟨Int.natCast_nonneg _, Int.le_refl _⟩
      · rw [Function.update_of_ne same]
        exact accounted.behind other there
    · intro seller
      simp only [rollupGroup, autogen, if_true]
      split
      · next grew =>
        have amount : 0 ≤ (counts g.id - moneyGroupUsed pass.money g.id) * g.price :=
          Int.mul_nonneg (by omega) (Int.le_of_lt grew.2.2)
        have before := accounted.nonneg seller
        rw [total_add]
        split <;> omega
      · exact accounted.nonneg seller
    · intro seller named
      rw [ledgerDue, used, owed_update distinct inside]
      have before := accounted.grown seller named
      rw [ledgerDue] at before
      rw [before]
      simp only [rollupGroup, autogen, if_true, true_and, positive g inside, and_true]
      by_cases own : sellerOf g.name = seller
      · by_cases grew : moneyGroupUsed pass.money g.id < counts g.id
        · have known : sellerOf g.name ≠ "" := own ▸ named
          simp only [own, grew, named, if_true, true_and, not_false_eq_true, ne_eq, total_add]
          omega
        · have same : (counts g.id : Int) = moneyGroupUsed pass.money g.id := by omega
          simp [own, same]
      · simp only [own, if_false]
        split
        · rw [total_add, if_neg own]
          omega
        · omega
  · simpa [rollupGroup, autogen] using accounted

theorem foldl_rollupGroup_accounted (distinct : (catalogue.map (·.id)).Nodup)
    (positive : ∀ g ∈ catalogue, 0 < g.price) {pass : Pass} (accounted : Accounted catalogue counts money pass)
    (listed : ∀ v ∈ data, v ∈ listing catalogue counts) :
    Accounted catalogue counts money (data.foldl (rollupGroup prices now) pass) := by
  induction data generalizing pass with
  | nil => exact accounted
  | cons v rest ih =>
    obtain ⟨here, later⟩ := List.forall_mem_cons.mp listed
    exact ih (rollupGroup_accounted distinct positive accounted here) later

theorem rollupPass_accounted (distinct : (catalogue.map (·.id)).Nodup) (positive : ∀ g ∈ catalogue, 0 < g.price)
    (behind : Behind catalogue counts money) {raw : Option VoucherDocument} (agrees : Agrees catalogue counts raw) :
    Accounted catalogue counts money (rollupPass prices raw now money) := by
  have start : Accounted catalogue counts money { money := money, sellerDay := ∅, live := [] } :=
    ⟨behind, fun _ => Int.le_refl _, fun seller _ => (Int.add_zero _).symm⟩
  cases raw with
  | none => exact start
  | some document =>
    by_cases ok : document.errorCode = 0
    · obtain ⟨after, nonneg, grown⟩ := @foldl_rollupGroup_accounted prices _ document.data _ now _ distinct positive _ start
        (agrees ok)
      simp only [rollupPass, ok, if_true]
      constructor
      · intro g inside
        rw [used_markAbsent]
        exact after g inside
      · exact nonneg
      · intro seller named
        rw [← grown seller named]
        exact owed_congr (fun g _ => used_markAbsent _ _ _) seller
    · simpa [rollupPass, ok] using start

theorem sumOf_lineOf (sellerDay : Table String Int) (seller : String) :
    sumOf seller (lineOf sellerDay) = total sellerDay seller := sumOf_entries sellerDay seller

end

/-! ## Runs -/

/-- What is about to be written. -/
def pending : Phase → String → Int
  | .journaling sellerDay, seller => total sellerDay seller
  | .idle, _ | .saving, _ => 0

section
variable {prices : Prices} {catalogue : List VoucherGroup} {s next : Night} {action : Action}

/-- Whatever is journaled is in the ledger in RAM, and in the saved one up to what
    was written since. -/
structure Covered (catalogue : List VoucherGroup) (s : Night) : Prop where
  behind : Behind catalogue s.counts s.books.money
  savedBehind : Behind catalogue s.counts s.books.saved
  nonneg : ∀ seller, 0 ≤ pending s.phase seller
  covered : ∀ seller, seller ≠ "" →
    sumOf seller s.written + pending s.phase seller ≤ ledgerDue catalogue s.books.money seller
  savedCovered : ∀ seller, seller ≠ "" →
    sumOf seller s.written ≤ ledgerDue catalogue s.books.saved seller + sumOf seller s.unsaved

theorem fetch_some {reply : VoucherReply} : step prices catalogue s (.fetch reply) = some next ↔
    s.phase = .idle ∧ Agrees catalogue s.counts (getVoucherGroupsJson reply) ∧
      next =
        let pass := rollupPass prices (getVoucherGroupsJson reply) s.books.now s.books.money
        { s with books := { s.books with money := pass.money }, phase := .journaling pass.sellerDay } := by
  cases here : s.phase <;> simp [step, here, eq_comm]

theorem append_some {opens : Bool} : step prices catalogue s (.append opens) = some next ↔
    ∃ sellerDay, s.phase = .journaling sellerDay ∧
      next =
        let line := if opens then lineOf sellerDay else []
        { s with
          books := { s.books with sellerDays := journal opens s.books.now sellerDay s.books.sellerDays }
          phase := .saving
          written := s.written ++ line
          unsaved := s.unsaved ++ line } := by
  cases here : s.phase <;> simp [step, here, eq_comm]

theorem save_some {saves : Bool} : step prices catalogue s (.save saves) = some next ↔
    s.phase = .saving ∧
      next =
        let money := refreshIncome prices s.books.sales s.books.money
        { s with
          books := { s.books with money := money, saved := if saves then money else s.books.saved }
          phase := .idle
          unsaved := if saves then [] else s.unsaved } := by
  cases here : s.phase <;> simp [step, here, eq_comm]

theorem behind_redeem {counts : String → Nat} {money : Money} (behind : Behind catalogue counts money) (id : String)
    (times : Nat) : Behind catalogue (update counts id (counts id + times)) money := by
  intro g inside
  obtain ⟨counted, older⟩ := behind g inside
  refine ⟨counted, ?_⟩
  by_cases here : g.id = id
  · subst here
    rw [Function.update_self]
    omega
  · rw [Function.update_of_ne here]
    exact older

theorem step_covered (distinct : (catalogue.map (·.id)).Nodup) (positive : ∀ g ∈ catalogue, 0 < g.price)
    (inv : Covered catalogue s) (clean : NothingUnsaved s action) (taken : step prices catalogue s action = some next) :
    Covered catalogue next := by
  cases action with
  | elapse seconds =>
    cases taken
    exact ⟨inv.behind, inv.savedBehind, inv.nonneg, inv.covered, inv.savedCovered⟩
  | redeem id times =>
    cases taken
    exact ⟨behind_redeem inv.behind id times, behind_redeem inv.savedBehind id times, inv.nonneg, inv.covered,
      inv.savedCovered⟩
  | fetch reply =>
    obtain ⟨idle, agrees, rfl⟩ := fetch_some.mp taken
    obtain ⟨behind, nonneg, grown⟩ :=
      @rollupPass_accounted prices _ _ s.books.now _ distinct positive inv.behind _ agrees
    refine ⟨behind, inv.savedBehind, nonneg, ?_, inv.savedCovered⟩
    intro seller named
    have before := inv.covered seller named
    rw [idle, pending] at before
    have after := grown seller named
    simp only [pending]
    omega
  | append opens =>
    obtain ⟨sellerDay, journaling, rfl⟩ := append_some.mp taken
    have line (seller : String) : sumOf seller (if opens then lineOf sellerDay else []) ≤ total sellerDay seller := by
      split
      · exact Int.le_of_eq (sumOf_lineOf _ _)
      · have nonneg := inv.nonneg seller
        rwa [journaling] at nonneg
    refine ⟨inv.behind, inv.savedBehind, fun _ => Int.le_refl _, ?_, ?_⟩
    · intro seller named
      have before := inv.covered seller named
      have written := line seller
      rw [journaling, pending] at before
      simp only [pending, sumOf_append]
      omega
    · intro seller named
      have before := inv.savedCovered seller named
      simp only [sumOf_append]
      omega
  | save saves =>
    obtain ⟨saving, rfl⟩ := save_some.mp taken
    have covered (seller : String) (named : seller ≠ "") :
        sumOf seller s.written ≤ ledgerDue catalogue s.books.money seller := by
      have before := inv.covered seller named
      rw [saving, pending] at before
      omega
    refine ⟨inv.behind, ?_, fun _ => Int.le_refl _, fun seller named => by simpa [pending] using covered seller named, ?_⟩
    · cases saves with
      | true => exact inv.behind
      | false => exact inv.savedBehind
    · cases saves with
      | true =>
        intro seller named
        simpa using covered seller named
      | false => exact inv.savedCovered
  | cut opens =>
    cases taken
    have none_ : s.unsaved = [] := clean
    refine ⟨inv.savedBehind, inv.savedBehind, fun _ => Int.le_refl _, ?_, ?_⟩
    · intro seller named
      have before := inv.savedCovered seller named
      rw [none_] at before
      simpa [pending, boot] using before
    · intro seller named
      have before := inv.savedCovered seller named
      rwa [none_] at before

theorem covered_atMostOnce (positive : ∀ g ∈ catalogue, 0 < g.price) (inv : Covered catalogue s) :
    AtMostOnce catalogue s := by
  intro seller named
  have counted : ledgerDue catalogue s.books.money seller ≤ due catalogue s seller :=
    owed_mono positive (fun g inside => (inv.behind g inside).2) seller
  have covered := inv.covered seller named
  have nonneg := inv.nonneg seller
  omega

theorem start_covered (positive : ∀ g ∈ catalogue, 0 < g.price) (start : Start catalogue s) : Covered catalogue s := by
  have nonneg (seller : String) : 0 ≤ ledgerDue catalogue s.books.money seller :=
    owed_nonneg positive (fun g inside => (start.counted g inside).1) seller
  refine ⟨start.counted, start.saved ▸ start.counted, ?_, ?_, ?_⟩
  · intro seller
    rw [start.idle, pending]
  · intro seller _
    rw [start.idle, start.written]
    exact nonneg seller
  · intro seller _
    rw [start.written, start.unsaved, start.saved]
    simpa using nonneg seller

/-- The journal and what is about to be written are the growth of the ledger. -/
def Exact (catalogue : List VoucherGroup) (first : Money) (s : Night) : Prop :=
  Behind catalogue s.counts s.books.money ∧ ∀ seller, seller ≠ "" →
    sumOf seller s.written + pending s.phase seller =
      ledgerDue catalogue s.books.money seller - ledgerDue catalogue first seller

theorem step_exact (distinct : (catalogue.map (·.id)).Nodup) (positive : ∀ g ∈ catalogue, 0 < g.price) {first : Money}
    (exact_ : Exact catalogue first s) (undisturbed : Undisturbed action)
    (taken : step prices catalogue s action = some next) : Exact catalogue first next := by
  obtain ⟨behind, grown⟩ := exact_
  cases action with
  | elapse seconds =>
    cases taken
    exact ⟨behind, grown⟩
  | redeem id times =>
    cases taken
    exact ⟨behind_redeem behind id times, grown⟩
  | fetch reply =>
    obtain ⟨idle, agrees, rfl⟩ := fetch_some.mp taken
    obtain ⟨after, -, added⟩ := @rollupPass_accounted prices _ _ s.books.now _ distinct positive behind _ agrees
    refine ⟨after, fun seller named => ?_⟩
    have before := grown seller named
    have more := added seller named
    rw [idle, pending] at before
    simp only [pending]
    omega
  | append opens =>
    obtain ⟨sellerDay, journaling, rfl⟩ := append_some.mp taken
    cases opens with
    | false => exact absurd undisturbed id
    | true =>
      refine ⟨behind, fun seller named => ?_⟩
      have before := grown seller named
      rw [journaling, pending] at before
      simp only [if_true, sumOf_append, sumOf_lineOf, pending]
      omega
  | save saves =>
    obtain ⟨saving, rfl⟩ := save_some.mp taken
    refine ⟨behind, fun seller named => ?_⟩
    have before := grown seller named
    rwa [saving] at before
  | cut opens => exact absurd undisturbed id

/-- In every run in which no reboot comes between a journal entry and the save of its
    ledger, no seller's journal exceeds what the counts come to; and where the device
    stays up and every append and save succeeds, a journal is exactly the growth of
    the seller's counts in the ledger. -/
theorem journaled_once (distinct : (catalogue.map (·.id)).Nodup) (positive : ∀ g ∈ catalogue, 0 < g.price)
    (start : Start catalogue s) (actions : List Action) :
    (Throughout (step prices catalogue) NothingUnsaved s actions →
      Always (step prices catalogue) (AtMostOnce catalogue) s actions) ∧
    ((∀ action ∈ actions, Undisturbed action) →
      ∀ last, run (step prices catalogue) s actions = some last → last.phase = .idle →
        ∀ seller, seller ≠ "" → sumOf seller last.written =
          ledgerDue catalogue last.books.money seller - ledgerDue catalogue s.books.money seller) := by
  constructor
  · intro clean
    have always := throughout_always (fun _ _ _ inv clean taken => step_covered distinct positive inv clean taken)
      (start_covered positive start) clean
    exact always_mono (fun _ inv => covered_atMostOnce positive inv) always
  · intro undisturbed last ran idle seller named
    have first : Exact catalogue s.books.money s := by
      refine ⟨start.counted, fun seller _ => ?_⟩
      rw [start.idle, start.written]
      simp [pending]
    obtain ⟨-, grown⟩ := throughout_keeps
      (fun _ _ _ exact_ undisturbed taken => step_exact distinct positive exact_ undisturbed taken) first
      (throughout_all undisturbed) ran
    have whole := grown seller named
    rw [idle, pending] at whole
    omega

end

/-! ## A save that fails before the nightly reboot -/

def anaGroup : VoucherGroup where
  id := "g1"
  name := "AUTOGEN: 2401 Ana"
  usedCount := 0
  price := 20
  createdMillis := 1600000000000

def quietNight : Night where
  books := { now := 1700000000, sales := [], sellerDays := [], money := Money.empty, saved := Money.empty }
  phase := .idle
  counts _ := 0
  written := []
  unsaved := []

theorem quietNight_start : Start [anaGroup] quietNight where
  idle := rfl
  written := rfl
  unsaved := rfl
  saved := rfl
  counted := by decide

def listed (times : Nat) : Action :=
  .fetch (.body true (some { errorCode := 0, data := [{ anaGroup with usedCount := times }] }))

def noOffset : Prices := { utcOffset := 28800, pricePerCoin := 1 }

theorem journaled_once_saved :
    Always (step noOffset [anaGroup]) (AtMostOnce [anaGroup]) quietNight
      [.redeem "g1" 3, listed 3, .append true, .save true, .cut true] :=
  (journaled_once (by decide) (by decide) quietNight_start _).1 (by decide +kernel)

/-- Three redemptions of 20 pesos are journaled as 120 pesos. -/
theorem growth_journaled_twice :
    (run (step noOffset [anaGroup]) quietNight
      [.redeem "g1" 3, listed 3, .append true, .save false, .cut true, listed 3, .append true]).map
        (fun s => (sumOf "Ana" s.written, due [anaGroup] s "Ana")) = some (120, 60) := by
  decide +kernel

end EllaFi.SellerJournal
