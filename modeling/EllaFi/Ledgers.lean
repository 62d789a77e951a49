import EllaFi.Finalize
import Mathlib.Algebra.Order.BigOperators.Group.List

/-!
Where the coins of a window are written down. Every coin of a window that closes
without a fraud abort belongs in exactly one of two logs: the sale log when the
controller granted the time, the refund log otherwise (`OneLedger`). That is so
exactly when the window's address still leads to an entry, and then the log
opens and, for a refund, the client is still connected (`coins_recorded_iff`).
-/
namespace EllaFi.Ledgers
open EllaFi.Session EllaFi.Cache EllaFi.Coins EllaFi.Files EllaFi.Omada EllaFi.Finalize

/-! ## What the logs gain -/

def coinsSold (before after : Flash) : List Nat := (after.sales.drop before.sales.length).map (·.coins)

def coinsRefunded (before after : Flash) : List Nat := (after.refunds.drop before.refunds.length).map (·.coins)

/-- The coins are in one log, all of them, and not in the other. -/
def OneLedger (before after : Flash) (granted : Option String) (coinCount : Nat) : Prop :=
  (granted ≠ none ∧ (coinsSold before after).sum = coinCount ∧ coinsRefunded before after = []) ∨
    (granted = none ∧ coinsRefunded before after = [coinCount] ∧ coinsSold before after = [])

instance (before after : Flash) (granted : Option String) (coinCount : Nat) :
    Decidable (OneLedger before after granted coinCount) :=
  inferInstanceAs (Decidable (_ ∨ _))

theorem coinsSold_eq {before after : Flash} {lines : List Sale} (gained : after.sales = before.sales ++ lines) :
    coinsSold before after = lines.map (·.coins) := by
  simp [coinsSold, gained]

theorem coinsRefunded_eq {before after : Flash} {lines : List Refund}
    (gained : after.refunds = before.refunds ++ lines) : coinsRefunded before after = lines.map (·.coins) := by
  simp [coinsRefunded, gained]

/-- What is left of the coins when some of the lines are not written. -/
theorem filtered_sum (opens : String → Bool) (nodes : List (String × Nat)) :
    (nodes.map (·.2)).sum =
      ((nodes.filter fun node => opens node.1).map (·.2)).sum +
        ((nodes.filter fun node => !opens node.1).map (·.2)).sum := by
  induction nodes with
  | nil => rfl
  | cons first rest ih =>
    cases opened : opens first.1 <;> simp [opened, ih] <;> omega

/-- Some of the lines add up to all the coins only if they are all the lines. -/
theorem filtered_sum_eq (opens : String → Bool) {nodes : List (String × Nat)}
    (positive : ∀ node ∈ nodes, 0 < node.2) :
    ((nodes.filter fun node => opens node.1).map (·.2)).sum = (nodes.map (·.2)).sum ↔
      ∀ node ∈ nodes, opens node.1 := by
  have split := filtered_sum opens nodes
  constructor
  · intro equal node inside
    by_contra closed
    have dropped : node ∈ nodes.filter fun node => !opens node.1 := by
      simpa [inside] using closed
    have counted : node.2 ≤ ((nodes.filter fun node => !opens node.1).map (·.2)).sum :=
      List.le_sum_of_mem (List.mem_map.mpr ⟨node, dropped, rfl⟩)
    have pays := positive node inside
    omega
  · intro all
    rw [List.filter_eq_self.mpr all]

section
variable {issuer : Issuer} {config : Config} {address : IPAddress} {around : Surroundings} {world : World issuer}
  {session : SessionParams} {tally : Tally} {controller : Controller issuer}

theorem appendSales_sales (flash : Flash) (clock : Nat) (opens : String → Bool) (nodeCounts : List (String × Nat)) :
    (appendSales config flash clock opens nodeCounts).sales =
      flash.sales ++ (nodeCounts.filter fun node => opens node.1).map fun node =>
        { ts := clock / 1000, coins := node.2, min := node.2 * config.minutesPerCoin, node := node.1 } := by
  unfold appendSales
  induction nodeCounts generalizing flash with
  | nil => simp
  | cons node rest ih =>
    rw [List.foldl_cons, ih]
    by_cases opened : opens node.1 <;> simp [appendSaleLog, opened]

theorem appendSales_refunds (flash : Flash) (clock : Nat) (opens : String → Bool)
    (nodeCounts : List (String × Nat)) :
    (appendSales config flash clock opens nodeCounts).refunds = flash.refunds := by
  unfold appendSales
  induction nodeCounts generalizing flash with
  | nil => rfl
  | cons node rest ih => rw [List.foldl_cons, ih, appendSaleLog_refunds]

theorem sell_sales (fields : FieldWrite) :
    (sell config around world session tally fields controller).1.flash.sales =
      world.flash.sales ++ (tally.nodeCounts.filter fun node => around.saleOpens node.1).map fun node =>
        { ts := world.clock / 1000, coins := node.2, min := node.2 * config.minutesPerCoin, node := node.1 } := by
  simp only [sell, appendSales_sales, appendActivityLog_sales]

theorem sell_refunds (fields : FieldWrite) :
    (sell config around world session tally fields controller).1.flash.refunds = world.flash.refunds := by
  simp only [sell, appendSales_refunds, appendActivityLog_refunds]

/-- The lines of a granted window add up to its coins exactly when every line was written. -/
theorem sell_oneLedger (fields : FieldWrite) :
    OneLedger world.flash (sell config around world session tally fields controller).1.flash
        (sell config around world session tally fields controller).2.granted tally.coinCount ↔
      ∀ node ∈ tally.nodeCounts, around.saleOpens node.1 := by
  have sold : coinsSold world.flash (sell config around world session tally fields controller).1.flash =
      (tally.nodeCounts.filter fun node => around.saleOpens node.1).map (·.2) := by
    rw [coinsSold_eq (sell_sales fields), List.map_map]
    rfl
  have refunded : coinsRefunded world.flash (sell config around world session tally fields controller).1.flash = [] :=
    coinsRefunded_eq ((sell_refunds fields).trans (List.append_nil _).symm)
  rw [OneLedger, sold, refunded, ← filtered_sum_eq around.saleOpens tally.positive, tally.complete]
  simp [sell]

/-- A refused window is in the refund log exactly when the client was there and the
    log opened. -/
theorem refund_oneLedger (errorDetail : String) :
    OneLedger world.flash (refund config around world session tally errorDetail controller).1.flash
        (refund config around world session tally errorDetail controller).2.granted tally.coinCount ↔
      connected around.getClient around.socketFd ∧ around.refundOpens := by
  unfold refund
  by_cases there : connected around.getClient around.socketFd
  · by_cases opened : around.refundOpens
    · simp [there, opened, OneLedger, coinsSold, coinsRefunded, appendRefundLog]
    · simp [there, opened, OneLedger, coinsSold, coinsRefunded, appendRefundLog]
  · simp [there, OneLedger, coinsRefunded]

theorem decline_oneLedger (subtype message : String) (coinCount : Nat) :
    ¬ OneLedger world.flash (decline around world subtype message).1.flash
        (decline around world subtype message).2.granted coinCount := by
  simp [OneLedger, decline, coinsRefunded]

/-! ## When the controller grants -/

/-- The controller is reached, and knows the session that it is asked to extend. -/
def Accepts (link : Link) (world : World issuer) (session : SessionParams) : Prop :=
  link = .up ∧ (Extends world.clock session → (world.controller.sessionById session.clientId).isSome)

theorem grantCall_ok (link : Link) (coinCount : Nat) :
    (∃ fields after, grantCall config link world session coinCount = (.ok fields, after)) ↔
      Accepts link world session := by
  unfold grantCall Accepts
  by_cases cached : Extends world.clock session
  · simp [cached, extend_ok]
  · simp [cached, authenticate_ok]

/-- Where the coins of a window are recorded: they are in exactly one log exactly
    when the slot's address leads to an entry and either the controller accepts the
    call and every sale line is written, or it does not and the client is still
    connected and the refund log opens. -/
theorem coins_recorded_iff (window : Window) (fair : window.fraudEnded = false)
    (inserted : 0 < window.tally.coinCount) :
    OneLedger world.flash (finalizeSession config address around window world).1.flash
        (finalizeSession config address around window world).2.granted window.tally.coinCount ↔
      ∃ session, beneficiary address world.cache window.slot = some session ∧
        (Accepts around.link world session → ∀ node ∈ window.tally.nodeCounts, around.saleOpens node.1) ∧
        (¬ Accepts around.link world session →
          connected around.getClient around.socketFd ∧ around.refundOpens) := by
  unfold finalizeSession
  rw [if_neg (by simp [fair]), if_neg (by omega)]
  cases found : beneficiary address world.cache window.slot with
  | none =>
    simp only [reduceCtorEq, false_and, exists_false, iff_false]
    exact decline_oneLedger _ _ _
  | some session =>
    have granted := @grantCall_ok _ config world session around.link window.tally.coinCount
    simp only [Option.some.injEq, exists_eq_left']
    rcases called : grantCall config around.link world session window.tally.coinCount with ⟨reported, controller⟩
    cases reported with
    | ok fields =>
      have accepts : Accepts around.link world session := granted.mp ⟨fields, controller, called⟩
      simp only [accepts, true_imp_iff, not_true_eq_false, false_imp_iff, and_true]
      exact sell_oneLedger fields
    | error errorDetail =>
      have refused : ¬ Accepts around.link world session := by
        intro accepts
        obtain ⟨fields, after, same⟩ := granted.mpr accepts
        rw [same] at called
        cases called
      simp only [refused, false_imp_iff, not_false_eq_true, true_imp_iff, true_and]
      exact refund_oneLedger errorDetail

end

/-- One coin, the controller granting its time and the log open: the coin is sold. -/
theorem coins_recorded_sold :
    OneLedger visited.flash (finalizeSession defaultConfig dottedQuad answered oneCoin visited).1.flash
      (finalizeSession defaultConfig dottedQuad answered oneCoin visited).2.granted 1 :=
  (coins_recorded_iff oneCoin rfl (by decide)).mpr
    ⟨visitor, by decide, fun _ _ _ => rfl, fun refused => absurd ⟨rfl, by decide⟩ refused⟩

/-- The controller cannot be reached and the client's phone is gone: the coin is in
    neither log. -/
theorem coins_vanish :
    ¬ OneLedger visited.flash (finalizeSession defaultConfig dottedQuad unanswered oneCoin visited).1.flash
      (finalizeSession defaultConfig dottedQuad unanswered oneCoin visited).2.granted oneCoin.tally.coinCount := by
  decide

end EllaFi.Ledgers
