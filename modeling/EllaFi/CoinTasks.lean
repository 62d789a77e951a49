import EllaFi.Coins

/-!
The coin path of the master as a machine: the task that filters pulses, the task
that owns a session, the web handlers that claim the slot and swap its socket,
and the two queues between them. A step is what one task does between two points
where another can run, so a run is any interleaving of the tasks. The environment
chooses the pulses, the requests, the readings of `millis()`, and when a receive
times out. `step` is the machine; `Step` lists what a step can do, one case for
each way through the code (`step_cases`).
-/
namespace EllaFi.CoinTasks
open EllaFi.Session EllaFi.Coins

/-! ## Data -/

inductive CoinPulseSource where
  | coinslot
  | button
  | network
deriving DecidableEq, Repr

structure CoinPulse where
  source : CoinPulseSource
  widthMicros : UInt32
  timestampMicros : UInt32
  /-- The sender of a network pulse; empty is the master's own slot. -/
  mac : String
deriving DecidableEq, Repr

def coinPulseQueueSize : Nat := 32

def coinSessionQueueSize : Nat := 16

def coinInsertTimeoutMillis : UInt32 := 10000

def coinslotMinPulseIntervalMillis : UInt32 := 100

def coinslotMinPulseWidthMicros : UInt32 := 3000

def coinslotBootSuppressMillis : UInt32 := 500

def coinslotMaxFraudPerSession : Nat := 3

/-- Where `coinPulseTask` stands. -/
inductive PulseTask where
  | receiving
  /-- A pulse was received, and `COIN_INSERT_ACTIVE` is not read yet. -/
  | checking (pulse : CoinPulse)
  /-- The pulse is inside the insertion window. -/
  | filtering (pulse : CoinPulse)
  /-- The event is about to be sent to the session's owner. -/
  | posting (event : CoinSessionEvent)
deriving DecidableEq, Repr

/-- Where `coinSessionTask` stands; inside a session it holds `nodeCounts`. -/
inductive SessionTask where
  | receiving
  | counting (nodes : Tally)
  /-- The inner loop was left, and `COIN_INSERT_ACTIVE` is not cleared yet. -/
  | closing (fraudEnded : Bool) (nodes : Tally)
  | finalizing (fraudEnded : Bool) (nodes : Tally)
  /-- `finalizeSession` has read the count and the slot, and clears the slot last. -/
  | granting (fraudEnded : Bool) (coinCount : Nat) (nodes : Tally) (slot : CoinSessionSlot)

/-- A call of `coinSessionTryClaim` that has set `COIN_INSERT_ACTIVE`; `refused` once
    the session queue had no room. -/
structure Claim where
  socketFd : Int
  clientIp : String
  refused : Bool
deriving DecidableEq, Repr

/-- A call of `coinSessionUpdateSocket` with the slot that it read last. -/
structure SocketUpdate where
  ip : UInt32
  socketFd : Int
  cur : CoinSessionSlot
deriving DecidableEq, Repr

structure Tasks where
  coinInsertActive : Bool
  coinCount : Nat
  coinSessionSlot : CoinSessionSlot
  coinSlotReadyMillis : UInt32
  coinDeadlineMillis : UInt32
  coinRejectWidthCount : UInt16
  coinRejectIntervalCount : UInt16
  coinPulseQueue : List CoinPulse
  coinSessionQueue : List CoinSessionEvent
  prevAcceptedTimestampMicros : UInt32
  fraudCountThisSession : Nat
  pulseTask : PulseTask
  sessionTask : SessionTask
  claims : List Claim
  updates : List SocketUpdate

def initial : Tasks where
  coinInsertActive := false
  coinCount := 0
  coinSessionSlot := noClient
  coinSlotReadyMillis := 0
  coinDeadlineMillis := 0
  coinRejectWidthCount := 0
  coinRejectIntervalCount := 0
  coinPulseQueue := []
  coinSessionQueue := []
  prevAcceptedTimestampMicros := 0
  fraudCountThisSession := 0
  pulseTask := .receiving
  sessionTask := .receiving
  claims := []
  updates := []

inductive Action where
  /-- An interrupt or a slave's message sends a pulse. -/
  | pulse (pulse : CoinPulse)
  | receivePulse
  | checkActive (bootTestRunning : Bool)
  | filterPulse (millis : UInt32)
  | postEvent
  | tryClaim (bootTestRunning : Bool) (socketFd : Int) (clientIp : String)
  | postStart (call : Nat)
  | rollBack (call : Nat)
  | loadSlot (clientIp : String) (socketFd : Int)
  /-- A compare-exchange of the slot, which may fail although the slot is as read. -/
  | swapSlot (call : Nat) (spurious : Bool)
  | receiveEvent (millis : UInt32)
  | timeout
  | clearActive
  | beginFinalize
  | endFinalize
deriving Repr

/-! ## Steps -/

/-- `xQueueSend` without waiting: an event that finds the queue full is dropped. -/
def send {Event : Type} (size : Nat) (queue : List Event) (event : Event) : List Event :=
  if queue.length < size then queue ++ [event] else queue

/-- The pulse is too short for a coin or a button. -/
def TooShort (pulse : CoinPulse) : Prop :=
  (pulse.source = .coinslot ∨ pulse.source = .button) ∧ pulse.widthMicros < coinslotMinPulseWidthMicros

instance (pulse : CoinPulse) : Decidable (TooShort pulse) := inferInstanceAs (Decidable (_ ∧ _))

/-- The pulse follows the last accepted one faster than the acceptor can. -/
def TooSoon (prevAcceptedTimestampMicros : UInt32) (pulse : CoinPulse) : Prop :=
  pulse.source = .coinslot ∧ 0 < prevAcceptedTimestampMicros ∧
    pulse.timestampMicros - prevAcceptedTimestampMicros < coinslotMinPulseIntervalMillis * 1000

instance (prev : UInt32) (pulse : CoinPulse) : Decidable (TooSoon prev pulse) :=
  inferInstanceAs (Decidable (_ ∧ _ ∧ _))

section
variable (address : IPAddress) (macAddress : String)

/-- The node that a pulse came from; the master's own slot sends no MAC. -/
def nodeMac (pulse : CoinPulse) : String := (if pulse.mac = "" then macAddress else pulse.mac).toUpper

/-- A rejected pulse ends the session once the limit is reached. -/
def afterReject (fraudCount : Nat) : PulseTask :=
  if coinslotMaxFraudPerSession ≤ fraudCount then .posting .fraudEnd else .receiving

def checkActive (bootTestRunning : Bool) (s : Tasks) : Option Tasks :=
  match s.pulseTask with
  | .checking pulse =>
    if bootTestRunning then some { s with pulseTask := .receiving }
    else if s.coinInsertActive then some { s with pulseTask := .filtering pulse }
    else some { s with prevAcceptedTimestampMicros := 0, fraudCountThisSession := 0, pulseTask := .receiving }
  | _ => none

def filterPulse (millis : UInt32) (s : Tasks) : Option Tasks :=
  match s.pulseTask with
  | .filtering pulse =>
    if millis < s.coinSlotReadyMillis then some { s with pulseTask := .receiving }
    else if TooShort pulse then
      some { s with
        fraudCountThisSession := s.fraudCountThisSession + 1
        coinRejectWidthCount := s.coinRejectWidthCount + 1
        pulseTask := afterReject (s.fraudCountThisSession + 1) }
    else if TooSoon s.prevAcceptedTimestampMicros pulse then
      some { s with
        fraudCountThisSession := s.fraudCountThisSession + 1
        coinRejectIntervalCount := s.coinRejectIntervalCount + 1
        prevAcceptedTimestampMicros := 0
        pulseTask := afterReject (s.fraudCountThisSession + 1) }
    else
      some { s with
        prevAcceptedTimestampMicros := pulse.timestampMicros
        pulseTask := .posting (coinEvent (nodeMac macAddress pulse)) }
  | _ => none

def postStart (call : Nat) (s : Tasks) : Option Tasks :=
  match s.claims[call]? with
  | some claim =>
    if claim.refused then none
    else if s.coinSessionQueue.length < coinSessionQueueSize then
      some { s with
        coinSessionQueue := s.coinSessionQueue ++ [startEvent claim.socketFd claim.clientIp]
        claims := s.claims.eraseIdx call }
    else some { s with claims := s.claims.set call { claim with refused := true } }
  | none => none

def rollBack (call : Nat) (s : Tasks) : Option Tasks :=
  match s.claims[call]? with
  | some claim =>
    if claim.refused then some { s with coinInsertActive := false, claims := s.claims.eraseIdx call } else none
  | none => none

def swapSlot (call : Nat) (spurious : Bool) (s : Tasks) : Option Tasks :=
  match s.updates[call]? with
  | some update =>
    if update.cur.clientIpV4 ≠ update.ip then some { s with updates := s.updates.eraseIdx call }
    else if s.coinSessionSlot = update.cur ∧ ¬ spurious then
      some { s with
        coinSessionSlot := { clientIpV4 := update.ip, socketFd := update.socketFd }
        updates := s.updates.eraseIdx call }
    else some { s with updates := s.updates.set call { update with cur := s.coinSessionSlot } }
  | none => none

def receiveEvent (millis : UInt32) (s : Tasks) : Option Tasks :=
  match s.sessionTask, s.coinSessionQueue with
  | .receiving, .start socketFd clientIp :: rest =>
    some { s with
      coinSessionQueue := rest
      coinCount := 0
      coinSessionSlot := slotOf address socketFd clientIp
      coinSlotReadyMillis := millis + coinslotBootSuppressMillis
      coinDeadlineMillis := millis + coinInsertTimeoutMillis
      sessionTask := .counting .zero }
  | .receiving, _ :: rest => some { s with coinSessionQueue := rest }
  | .counting nodes, .coin mac :: rest =>
    some { s with
      coinSessionQueue := rest
      coinCount := s.coinCount + 1
      coinDeadlineMillis := millis + coinInsertTimeoutMillis
      sessionTask := .counting (nodes.coin mac) }
  | .counting nodes, .fraudEnd :: rest =>
    some { s with coinSessionQueue := rest, sessionTask := .closing true nodes }
  | .counting _, .start .. :: rest => some { s with coinSessionQueue := rest }
  | _, _ => none

def step (s : Tasks) : Action → Option Tasks
  | .pulse pulse => some { s with coinPulseQueue := send coinPulseQueueSize s.coinPulseQueue pulse }
  | .receivePulse =>
    match s.pulseTask, s.coinPulseQueue with
    | .receiving, pulse :: rest => some { s with coinPulseQueue := rest, pulseTask := .checking pulse }
    | _, _ => none
  | .checkActive bootTestRunning => checkActive bootTestRunning s
  | .filterPulse millis => filterPulse macAddress millis s
  | .postEvent =>
    match s.pulseTask with
    | .posting event =>
      some { s with
        coinSessionQueue := send coinSessionQueueSize s.coinSessionQueue event, pulseTask := .receiving }
    | _ => none
  | .tryClaim bootTestRunning socketFd clientIp =>
    if bootTestRunning ∨ s.coinInsertActive then some s
    else
      some { s with
        coinInsertActive := true, claims := s.claims ++ [{ socketFd, clientIp, refused := false }] }
  | .postStart call => postStart call s
  | .rollBack call => rollBack call s
  | .loadSlot clientIp socketFd =>
    some { s with
      updates := s.updates ++ [{ ip := coinIpToU32 address clientIp, socketFd, cur := s.coinSessionSlot }] }
  | .swapSlot call spurious => swapSlot call spurious s
  | .receiveEvent millis => receiveEvent address millis s
  | .timeout =>
    match s.sessionTask, s.coinSessionQueue with
    | .counting nodes, [] => some { s with sessionTask := .closing false nodes }
    | _, _ => none
  | .clearActive =>
    match s.sessionTask with
    | .closing fraudEnded nodes =>
      some { s with coinInsertActive := false, sessionTask := .finalizing fraudEnded nodes }
    | _ => none
  | .beginFinalize =>
    match s.sessionTask with
    | .finalizing fraudEnded nodes =>
      some { s with
        coinCount := 0, sessionTask := .granting fraudEnded s.coinCount nodes s.coinSessionSlot }
    | _ => none
  | .endFinalize =>
    match s.sessionTask with
    | .granting .. => some { s with coinSessionSlot := noClient, sessionTask := .receiving }
    | _ => none

/-! ## What a step can do -/

/-- One case for each way through the code of a task. -/
inductive Step : Tasks → Action → Tasks → Prop
  | pulse s pulse : Step s (.pulse pulse) { s with coinPulseQueue := send coinPulseQueueSize s.coinPulseQueue pulse }
  | receivePulse {s pulse rest} (free : s.pulseTask = .receiving) (queued : s.coinPulseQueue = pulse :: rest) :
      Step s .receivePulse { s with coinPulseQueue := rest, pulseTask := .checking pulse }
  | diverted {s pulse} (checking : s.pulseTask = .checking pulse) :
      Step s (.checkActive true) { s with pulseTask := .receiving }
  | inside {s pulse} (checking : s.pulseTask = .checking pulse) (active : s.coinInsertActive = true) :
      Step s (.checkActive false) { s with pulseTask := .filtering pulse }
  | outside {s pulse} (checking : s.pulseTask = .checking pulse) (inactive : s.coinInsertActive = false) :
      Step s (.checkActive false)
        { s with prevAcceptedTimestampMicros := 0, fraudCountThisSession := 0, pulseTask := .receiving }
  | suppressed {s pulse millis} (filtering : s.pulseTask = .filtering pulse)
      (booting : millis < s.coinSlotReadyMillis) :
      Step s (.filterPulse millis) { s with pulseTask := .receiving }
  | rejected {s pulse millis} (widths intervals : UInt16) (prev : UInt32)
      (filtering : s.pulseTask = .filtering pulse) (ready : ¬ millis < s.coinSlotReadyMillis)
      (fraud : TooShort pulse ∨ TooSoon s.prevAcceptedTimestampMicros pulse) :
      Step s (.filterPulse millis)
        { s with
          fraudCountThisSession := s.fraudCountThisSession + 1
          coinRejectWidthCount := widths
          coinRejectIntervalCount := intervals
          prevAcceptedTimestampMicros := prev
          pulseTask := afterReject (s.fraudCountThisSession + 1) }
  | accepted {s pulse millis} (filtering : s.pulseTask = .filtering pulse)
      (ready : ¬ millis < s.coinSlotReadyMillis) (wide : ¬ TooShort pulse)
      (slow : ¬ TooSoon s.prevAcceptedTimestampMicros pulse) :
      Step s (.filterPulse millis)
        { s with
          prevAcceptedTimestampMicros := pulse.timestampMicros
          pulseTask := .posting (coinEvent (nodeMac macAddress pulse)) }
  | posted {s event} (posting : s.pulseTask = .posting event) (room : s.coinSessionQueue.length < coinSessionQueueSize) :
      Step s .postEvent { s with coinSessionQueue := s.coinSessionQueue ++ [event], pulseTask := .receiving }
  | dropped {s event} (posting : s.pulseTask = .posting event)
      (full : ¬ s.coinSessionQueue.length < coinSessionQueueSize) :
      Step s .postEvent { s with pulseTask := .receiving }
  | taken {s bootTestRunning} (socketFd clientIp) (busy : bootTestRunning = true ∨ s.coinInsertActive = true) :
      Step s (.tryClaim bootTestRunning socketFd clientIp) s
  | won {s} (socketFd clientIp) (inactive : s.coinInsertActive = false) :
      Step s (.tryClaim false socketFd clientIp)
        { s with coinInsertActive := true, claims := s.claims ++ [{ socketFd, clientIp, refused := false }] }
  | started {s call claim} (pending : s.claims[call]? = some claim) (fresh : claim.refused = false)
      (room : s.coinSessionQueue.length < coinSessionQueueSize) :
      Step s (.postStart call)
        { s with
          coinSessionQueue := s.coinSessionQueue ++ [startEvent claim.socketFd claim.clientIp]
          claims := s.claims.eraseIdx call }
  | refused {s call claim} (pending : s.claims[call]? = some claim) (fresh : claim.refused = false)
      (full : ¬ s.coinSessionQueue.length < coinSessionQueueSize) :
      Step s (.postStart call) { s with claims := s.claims.set call { claim with refused := true } }
  | rolledBack {s call claim} (pending : s.claims[call]? = some claim) (refused : claim.refused = true) :
      Step s (.rollBack call) { s with coinInsertActive := false, claims := s.claims.eraseIdx call }
  | loaded s clientIp socketFd :
      Step s (.loadSlot clientIp socketFd)
        { s with
          updates := s.updates ++ [{ ip := coinIpToU32 address clientIp, socketFd, cur := s.coinSessionSlot }] }
  | swapped {s call spurious update} (calling : s.updates[call]? = some update)
      (own : update.cur.clientIpV4 = update.ip) (unchanged : s.coinSessionSlot = update.cur) :
      Step s (.swapSlot call spurious)
        { s with
          coinSessionSlot := { clientIpV4 := update.ip, socketFd := update.socketFd }
          updates := s.updates.eraseIdx call }
  | unswapped {s call spurious} (updates : List SocketUpdate) :
      Step s (.swapSlot call spurious) { s with updates := updates }
  | opened {s socketFd clientIp rest millis} (free : s.sessionTask = .receiving)
      (queued : s.coinSessionQueue = .start socketFd clientIp :: rest) :
      Step s (.receiveEvent millis)
        { s with
          coinSessionQueue := rest
          coinCount := 0
          coinSessionSlot := slotOf address socketFd clientIp
          coinSlotReadyMillis := millis + coinslotBootSuppressMillis
          coinDeadlineMillis := millis + coinInsertTimeoutMillis
          sessionTask := .counting .zero }
  | stray {s event rest millis} (free : s.sessionTask = .receiving) (queued : s.coinSessionQueue = event :: rest)
      (other : ∀ socketFd clientIp, event ≠ .start socketFd clientIp) :
      Step s (.receiveEvent millis) { s with coinSessionQueue := rest }
  | counted {s nodes mac rest millis} (counting : s.sessionTask = .counting nodes)
      (queued : s.coinSessionQueue = .coin mac :: rest) :
      Step s (.receiveEvent millis)
        { s with
          coinSessionQueue := rest
          coinCount := s.coinCount + 1
          coinDeadlineMillis := millis + coinInsertTimeoutMillis
          sessionTask := .counting (nodes.coin mac) }
  | aborted {s nodes rest millis} (counting : s.sessionTask = .counting nodes)
      (queued : s.coinSessionQueue = .fraudEnd :: rest) :
      Step s (.receiveEvent millis) { s with coinSessionQueue := rest, sessionTask := .closing true nodes }
  | restarted {s nodes socketFd clientIp rest millis} (counting : s.sessionTask = .counting nodes)
      (queued : s.coinSessionQueue = .start socketFd clientIp :: rest) :
      Step s (.receiveEvent millis) { s with coinSessionQueue := rest }
  | timedOut {s nodes} (counting : s.sessionTask = .counting nodes) (drained : s.coinSessionQueue = []) :
      Step s .timeout { s with sessionTask := .closing false nodes }
  | cleared {s fraudEnded nodes} (closing : s.sessionTask = .closing fraudEnded nodes) :
      Step s .clearActive { s with coinInsertActive := false, sessionTask := .finalizing fraudEnded nodes }
  | began {s fraudEnded nodes} (finalizing : s.sessionTask = .finalizing fraudEnded nodes) :
      Step s .beginFinalize
        { s with coinCount := 0, sessionTask := .granting fraudEnded s.coinCount nodes s.coinSessionSlot }
  | finalized {s fraudEnded coinCount nodes slot} (granting : s.sessionTask = .granting fraudEnded coinCount nodes slot) :
      Step s .endFinalize { s with coinSessionSlot := noClient, sessionTask := .receiving }

end

section
variable {address : IPAddress} {macAddress : String} {s next : Tasks}

theorem checkActive_cases {bootTestRunning : Bool} (took : checkActive bootTestRunning s = some next) :
    Step address macAddress s (.checkActive bootTestRunning) next := by
  unfold checkActive at took
  split at took
  · next pulse checking =>
    cases bootTestRunning with
    | true =>
      cases took
      exact .diverted checking
    | false =>
      simp only [Bool.false_eq_true, if_false] at took
      split at took
      · next active =>
        cases took
        exact .inside checking active
      · next inactive =>
        cases took
        exact .outside checking (by simpa using inactive)
  · cases took

theorem filterPulse_cases {millis : UInt32} (took : filterPulse macAddress millis s = some next) :
    Step address macAddress s (.filterPulse millis) next := by
  unfold filterPulse at took
  split at took
  · next pulse filtering =>
    split at took
    · next booting =>
      cases took
      exact .suppressed filtering booting
    · next ready =>
      split at took
      · next short =>
        cases took
        exact .rejected _ _ _ filtering ready (.inl short)
      · next wide =>
        split at took
        · next soon =>
          cases took
          exact .rejected _ _ _ filtering ready (.inr soon)
        · next slow =>
          cases took
          exact .accepted filtering ready wide slow
  · cases took

theorem postStart_cases {call : Nat} (took : postStart call s = some next) :
    Step address macAddress s (.postStart call) next := by
  unfold postStart at took
  split at took
  · next claim pending =>
    split at took
    · cases took
    · next fresh =>
      split at took
      · next room =>
        cases took
        exact .started pending (by simpa using fresh) room
      · next full =>
        cases took
        exact .refused pending (by simpa using fresh) full
  · cases took

theorem rollBack_cases {call : Nat} (took : rollBack call s = some next) :
    Step address macAddress s (.rollBack call) next := by
  unfold rollBack at took
  split at took
  · next claim pending =>
    split at took
    · next refused =>
      cases took
      exact .rolledBack pending refused
    · cases took
  · cases took

theorem swapSlot_cases {call : Nat} {spurious : Bool} (took : swapSlot call spurious s = some next) :
    Step address macAddress s (.swapSlot call spurious) next := by
  unfold swapSlot at took
  split at took
  · next update calling =>
    split at took
    · cases took
      exact .unswapped _
    · next own =>
      split at took
      · next unchanged =>
        cases took
        exact .swapped calling (by simpa using own) unchanged.1
      · cases took
        exact .unswapped _
  · cases took

theorem receiveEvent_cases {millis : UInt32} (took : receiveEvent address millis s = some next) :
    Step address macAddress s (.receiveEvent millis) next := by
  unfold receiveEvent at took
  split at took
  · next free queued =>
    cases took
    exact .opened free queued
  · next other free queued =>
    cases took
    exact .stray free queued other
  · next counting queued =>
    cases took
    exact .counted counting queued
  · next counting queued =>
    cases took
    exact .aborted counting queued
  · next counting queued =>
    cases took
    exact .restarted counting queued
  · cases took

/-- What a step of the machine can do. -/
theorem step_cases {action : Action} (took : step address macAddress s action = some next) :
    Step address macAddress s action next := by
  cases action with
  | pulse pulse =>
    cases took
    exact .pulse s pulse
  | receivePulse =>
    simp only [step] at took
    split at took
    · next free queued =>
      cases took
      exact .receivePulse free queued
    · cases took
  | checkActive bootTestRunning => exact checkActive_cases took
  | filterPulse millis => exact filterPulse_cases took
  | postEvent =>
    simp only [step] at took
    split at took
    · next event posting =>
      cases took
      unfold send
      split
      · next room => exact .posted posting room
      · next full => exact .dropped posting full
    · cases took
  | tryClaim bootTestRunning socketFd clientIp =>
    simp only [step] at took
    split at took
    · next busy =>
      cases took
      exact .taken socketFd clientIp busy
    · next free =>
      obtain ⟨idle, inactive⟩ := not_or.mp free
      cases took
      rw [Bool.not_eq_true] at idle inactive
      subst idle
      exact .won socketFd clientIp inactive
  | postStart call => exact postStart_cases took
  | rollBack call => exact rollBack_cases took
  | loadSlot clientIp socketFd =>
    cases took
    exact .loaded s clientIp socketFd
  | swapSlot call spurious => exact swapSlot_cases took
  | receiveEvent millis => exact receiveEvent_cases took
  | timeout =>
    simp only [step] at took
    split at took
    · next counting drained =>
      cases took
      exact .timedOut counting drained
    · cases took
  | clearActive =>
    simp only [step] at took
    split at took
    · next closing =>
      cases took
      exact .cleared closing
    · cases took
  | beginFinalize =>
    simp only [step] at took
    split at took
    · next finalizing =>
      cases took
      exact .began finalizing
    · cases took
  | endFinalize =>
    simp only [step] at took
    split at took
    · next granting =>
      cases took
      exact .finalized granting
    · cases took

end

/-! ## Runs for examples -/

def windowStart (socketFd : Int) (clientIp : String) (millis : UInt32) : List Action :=
  [.tryClaim false socketFd clientIp, .postStart 0, .receiveEvent millis]

def windowEnd : List Action := [.timeout, .clearActive, .beginFinalize, .endFinalize]

/-- A pulse of the master's own slot that the pulse task handles at `millis`, short of
    sending an event. -/
def handled (widthMicros millis : UInt32) : List Action :=
  [.pulse { source := .coinslot, widthMicros, timestampMicros := millis * 1000, mac := "" }, .receivePulse,
    .checkActive false, .filterPulse millis]

end EllaFi.CoinTasks
