import EllaFi.Cache
import EllaFi.Coins
import EllaFi.Files
import EllaFi.Omada

/-!
`finalizeSession`: what becomes of the coins of a window when it closes. The
entry that the slot's address leads to is extended or authenticated at the
controller; the coins then go to the sale log, or to the refund log when the
controller refused and the client is still there to be told.
-/
namespace EllaFi.Finalize
open EllaFi.Session EllaFi.Cache EllaFi.Coins EllaFi.Files EllaFi.Omada

/-- The master's data that outlives a window, and the time. -/
structure World (issuer : Issuer) where
  clock : Nat
  cache : SessionCache
  controller : Controller issuer
  flash : Flash

/-- What `coinSessionTask` hands over when it leaves the inner loop. -/
structure Window where
  fraudEnded : Bool
  tally : Tally
  slot : CoinSessionSlot

/-- What `finalizeSession` meets: the way to the controller, the slot's socket when
    the call is over, which sockets are connected, and which files open. -/
structure Surroundings where
  link : Link
  socketFd : Int
  getClient : Int → Bool
  saleOpens : String → Bool
  refundOpens : Bool
  activityOpens : Bool
  random : Nat → Nat

/-- A message to the client's socket. -/
inductive Message where
  | authenticated
  | error (subtype message detail refundCode : String)
deriving DecidableEq, Repr

/-- What a finalized window leaves besides the world. -/
structure Report where
  /-- The MAC that the time went to. -/
  granted : Option String
  message : Option Message
  refreshQueued : Bool
deriving DecidableEq, Repr

def errSubtypeNoSession : String := "no_session"

def errSubtypeRefundable : String := "refundable"

/-- The client that a socket descriptor leads to, if it is still connected. -/
def connected (getClient : Int → Bool) (socketFd : Int) : Bool := decide (0 ≤ socketFd) && getClient socketFd

section
variable {issuer : Issuer} (config : Config) (address : IPAddress)

/-- A cached session is extended; any other client is authenticated anew. -/
def Extends (clock : Nat) (session : SessionParams) : Prop :=
  nowEpochMillis clock < session.sessionEndMillis ∧ session.clientId ≠ ""

instance (clock : Nat) (session : SessionParams) : Decidable (Extends clock session) :=
  inferInstanceAs (Decidable (_ ∧ _))

/-- The call that grants the time of `coinCount` coins. -/
def grantCall (link : Link) (world : World issuer) (session : SessionParams) (coinCount : Nat) :
    Except String FieldWrite × Controller issuer :=
  if Extends world.clock session then
    extendOmadaClient link world.clock world.controller session (coinMillis config coinCount)
  else authenticateOmadaClient link world.clock world.controller config session (coinMillis config coinCount)

def grantAction (clock : Nat) (session : SessionParams) : String :=
  if Extends clock session then "EXTEND" else "AUTH"

/-- The minutes that the activity log shows; an extended entry is read after the call. -/
def grantRemain (clock : Nat) (before after : SessionParams) (coinCount : Nat) : Int :=
  if Extends clock before then
    ((after.sessionEndMillis - nowEpochMillis clock) / millisPerMinute + coinCount * config.minutesPerCoin : Nat)
  else (coinCount * config.minutesPerCoin : Nat)

def grantError (clock : Nat) (session : SessionParams) : String :=
  if Extends clock session then "Failed to extend session" else "Failed to connect to controller"

/-- One sale line for each node. -/
def appendSales (flash : Flash) (clock : Nat) (opens : String → Bool) (nodeCounts : List (String × Nat)) : Flash :=
  nodeCounts.foldl (fun flash node =>
    appendSaleLog flash clock (opens node.1) node.2 (node.2 * config.minutesPerCoin) node.1) flash

/-- The controller granted the time. -/
def sell (around : Surroundings) (world : World issuer) (session : SessionParams) (tally : Tally)
    (fields : FieldWrite) (controller : Controller issuer) : World issuer × Report :=
  let flash := appendActivityLog world.flash world.clock around.activityOpens
    (grantAction world.clock session) session.clientMac tally.coinCount
    (grantRemain config world.clock session (fields.apply session) tally.coinCount)
  ({ world with
      cache := world.cache.write session.clientMac fields
      controller := controller
      flash := appendSales config flash world.clock around.saleOpens tally.nodeCounts },
    { granted := some session.clientMac
      message := if connected around.getClient around.socketFd then some .authenticated else none
      refreshQueued := connected around.getClient around.socketFd })

/-- The controller refused: a refund is logged when the client is there to get its code. -/
def refund (around : Surroundings) (world : World issuer) (session : SessionParams) (tally : Tally)
    (errorDetail : String) (controller : Controller issuer) : World issuer × Report :=
  let refundCode := generateRefundCode around.random
  if connected around.getClient around.socketFd then
    let flash := appendRefundLog world.flash world.clock around.refundOpens session.clientMac tally.coinCount
      (tally.coinCount * config.minutesPerCoin) refundCode
    ({ world with
        controller := controller
        flash := appendActivityLog flash world.clock around.activityOpens "REFUND" session.clientMac
          tally.coinCount (-1) },
      { granted := none
        message := some (.error errSubtypeRefundable (grantError world.clock session) errorDetail refundCode)
        refreshQueued := false })
  else ({ world with controller := controller }, { granted := none, message := none, refreshQueued := false })

/-- Nothing was asked of the controller. -/
def decline (around : Surroundings) (world : World issuer) (subtype message : String) : World issuer × Report :=
  (world,
    { granted := none
      message := if connected around.getClient around.socketFd then some (.error subtype message "" "") else none
      refreshQueued := false })

/-- The entry that a window's time goes to. -/
def beneficiary (cache : SessionCache) (slot : CoinSessionSlot) : Option SessionParams :=
  cache.findByIp (coinU32ToIp address slot.clientIpV4)

def finalizeSession (around : Surroundings) (window : Window) (world : World issuer) : World issuer × Report :=
  if window.fraudEnded then
    (world,
      { granted := none
        message :=
          if connected around.getClient window.slot.socketFd then
            some (.error "fraud" "Session ended: repeated fraud detected" "" "")
          else none
        refreshQueued := false })
  else if window.tally.coinCount = 0 then decline around world "" "No coins inserted"
  else
    match beneficiary address world.cache window.slot with
    | none => decline around world errSubtypeNoSession "No portal session found for this device"
    | some session =>
      match grantCall config around.link world session window.tally.coinCount with
      | (.ok fields, controller) => sell config around world session window.tally fields controller
      | (.error errorDetail, controller) => refund config around world session window.tally errorDetail controller

end

/-! ## A client with one coin -/

def visitor : SessionParams := { clientMac := "02:00:00:00:00:01", clientIp := "10.0.0.5" }

/-- A device that has just started. -/
def powered : World plainIssuer where
  clock := 1000500
  cache := .empty
  controller := .empty
  flash := .empty

/-- The client has opened the portal page and has bought nothing. -/
def visited : World plainIssuer :=
  { powered with cache := SessionCache.empty.upsert visitor.clientIp visitor.clientMac }

/-- A window claimed from the client's address that took one coin. -/
def oneCoin : Window where
  fraudEnded := false
  tally := tallyOf ["02:00:00:00:00:FF"]
  slot := slotOf dottedQuad 7 visitor.clientIp

def answered : Surroundings where
  link := .up
  socketFd := 7
  getClient socketFd := socketFd = 7
  saleOpens _ := true
  refundOpens := true
  activityOpens := true
  random _ := 0

/-- The controller cannot be reached, and no socket is connected. -/
def unanswered : Surroundings :=
  { answered with link := .unreachable (.transport "connection refused"), getClient := fun _ => false }

end EllaFi.Finalize
