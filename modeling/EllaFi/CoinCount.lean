import EllaFi.CoinSlot

/-!
Where the accepted coins go. Each pulse is numbered by the window in which it
passed the check of `COIN_INSERT_ACTIVE`, and followed into the session queue and
into a count. Every accepted pulse is counted once, in the session of its own
window, or waits where that session is going to count it, exactly when no step
comes too late for one (`coins_conserved_iff`): the pulse task tests the flag
first and sends the coin later, and the window may end in between.
-/
namespace EllaFi.CoinCount
open EllaFi.Session EllaFi.Coins EllaFi.CoinTasks EllaFi.CoinSlot
open EllaFi.Runs (run watch watch_some Always Throughout always_iff)

/-! ## Following the pulses -/

/-- The windows are numbered by the claims that opened them. -/
structure Ledger where
  windows : Nat
  /-- The window in which the pulse at hand passed the check. -/
  checked : Nat
  /-- The window of the session that was opened last. -/
  session : Nat
  /-- The windows of the pulses accepted so far, in order. -/
  accepted : List Nat
  /-- The windows of the coins in the session queue. -/
  queued : List Nat
  /-- The window of each coin counted, with that of the session that counted it. -/
  counted : List (Nat × Nat)
deriving DecidableEq, Repr

def newLedger : Ledger := { windows := 0, checked := 0, session := 0, accepted := [], queued := [], counted := [] }

/-- `coinPulseTask` accepts the pulse that it holds. -/
def AcceptedAt (s : Tasks) (millis : UInt32) : Prop :=
  ∃ pulse, s.pulseTask = .filtering pulse ∧ ¬ millis < s.coinSlotReadyMillis ∧
    ¬ TooShort pulse ∧ ¬ TooSoon s.prevAcceptedTimestampMicros pulse

instance (s : Tasks) (millis : UInt32) : Decidable (AcceptedAt s millis) :=
  match doing : s.pulseTask with
  | .filtering pulse => decidable_of_iff
      (¬ millis < s.coinSlotReadyMillis ∧ ¬ TooShort pulse ∧ ¬ TooSoon s.prevAcceptedTimestampMicros pulse)
      (by simp [AcceptedAt, doing])
  | .receiving | .checking _ | .posting _ => .isFalse (by simp [AcceptedAt, doing])

/-- The coin that the pulse task is about to send. -/
def inHand (checked : Nat) : PulseTask → List Nat
  | .posting (.coin _) => [checked]
  | _ => []

section
variable (checked : Nat)

@[simp] theorem inHand_receiving : inHand checked .receiving = [] := rfl

@[simp] theorem inHand_checking (pulse : CoinPulse) : inHand checked (.checking pulse) = [] := rfl

@[simp] theorem inHand_filtering (pulse : CoinPulse) : inHand checked (.filtering pulse) = [] := rfl

@[simp] theorem inHand_coinEvent (mac : String) : inHand checked (.posting (coinEvent mac)) = [checked] := rfl

end

def recordCoins (s : Tasks) : CoinTasks.Action → Ledger → Ledger
  | .tryClaim bootTestRunning _ _, ledger =>
    if bootTestRunning ∨ s.coinInsertActive then ledger else { ledger with windows := ledger.windows + 1 }
  | .checkActive bootTestRunning, ledger =>
    if bootTestRunning ∨ ¬ s.coinInsertActive then ledger else { ledger with checked := ledger.windows }
  | .filterPulse millis, ledger =>
    if AcceptedAt s millis then { ledger with accepted := ledger.accepted ++ [ledger.checked] } else ledger
  | .postEvent, ledger =>
    if s.coinSessionQueue.length < coinSessionQueueSize then
      { ledger with queued := ledger.queued ++ inHand ledger.checked s.pulseTask }
    else ledger
  | .receiveEvent _, ledger =>
    match s.sessionTask, s.coinSessionQueue with
    | .receiving, .start .. :: _ => { ledger with session := ledger.windows }
    | .receiving, .coin _ :: _ => { ledger with queued := ledger.queued.tail }
    | .counting _, .coin _ :: _ =>
      { ledger with
        queued := ledger.queued.tail
        counted := ledger.counted ++ ledger.queued.head?.toList.map (·, ledger.session) }
    | _, _ => ledger
  | _, ledger => ledger

/-- The machine beside the ledger of its coins. -/
def following (address : IPAddress) (macAddress : String) :
    Tasks × Ledger → CoinTasks.Action → Option (Tasks × Ledger) :=
  watch (step address macAddress) recordCoins

/-- The events that the open session is going to count, or else the next one. -/
def countable (task : SessionTask) (queue : List CoinSessionEvent) : List CoinSessionEvent :=
  (ahead task queue).takeWhile (· ≠ .fraudEnd)

def coins (queue : List CoinSessionEvent) : Nat := queue.countP fun event => event matches .coin _

/-- A coin sent now is still counted in the window that is open. -/
def Taking (s : Tasks) : Prop :=
  s.coinInsertActive = true ∧ (∀ fraudEnded nodes, s.sessionTask ≠ .closing fraudEnded nodes) ∧
    .fraudEnd ∉ ahead s.sessionTask s.coinSessionQueue

/-- What `finalizeSession` is going to grant, or grants. -/
def creditedCoins (s : Tasks) : Nat :=
  match s.sessionTask with
  | .granting _ coinCount _ _ => coinCount
  | _ => s.coinCount

/-- Every accepted pulse is counted once in the session of its own window, or waits
    where that session is going to count it. -/
structure Conserved (s : Tasks) (ledger : Ledger) : Prop where
  once : ledger.accepted = ledger.counted.map (·.1) ++ ledger.queued ++ inHand ledger.checked s.pulseTask
  own : ∀ coin ∈ ledger.counted, coin.1 = coin.2
  waiting : (∀ window ∈ ledger.queued, window = ledger.windows) ∧ coins s.coinSessionQueue = coins (countable s.sessionTask s.coinSessionQueue)
  coming : ∀ window ∈ inHand ledger.checked s.pulseTask, window = ledger.windows ∧ Taking s
  /-- Once its window is closed, a session's count is all that was accepted in it. -/
  settled : taskStage s.sessionTask = .finishing → creditedCoins s = ledger.accepted.count ledger.session

/-- The step comes in time for every accepted pulse. -/
def InTime (here : Tasks × Ledger) : CoinTasks.Action → Prop
  | .filterPulse millis => AcceptedAt here.1 millis → here.2.checked = here.2.windows ∧ Taking here.1
  | .postEvent => inHand here.2.checked here.1.pulseTask ≠ [] →
      here.1.coinSessionQueue.length < coinSessionQueueSize ∧ here.1.claims = []
  | .timeout | .rollBack _ => inHand here.2.checked here.1.pulseTask = []
  | _ => True

instance (task : SessionTask) : Decidable (∀ fraudEnded nodes, task ≠ .closing fraudEnded nodes) :=
  match task with
  | .closing fraudEnded nodes => .isFalse fun other => other fraudEnded nodes rfl
  | .receiving | .counting _ | .finalizing .. | .granting .. => .isTrue nofun

instance (s : Tasks) : Decidable (Taking s) := inferInstanceAs (Decidable (_ ∧ _ ∧ _))

instance (here : Tasks × Ledger) : ∀ action, Decidable (InTime here action)
  | .filterPulse _ | .postEvent => inferInstanceAs (Decidable (_ → _ ∧ _))
  | .timeout | .rollBack _ => inferInstanceAs (Decidable (_ = _))
  | .pulse _ | .receivePulse | .checkActive _ | .tryClaim .. | .postStart _ | .loadSlot .. | .swapSlot .. |
    .receiveEvent _ | .clearActive | .beginFinalize | .endFinalize => inferInstanceAs (Decidable True)

/-! ## Numbers -/

/-- How the ledger numbers the windows and the coins, whatever comes in time. -/
structure Numbered (address : IPAddress) (s : Tasks) (ledger : Ledger) : Prop where
  held : Held address s
  queue : ledger.queued.length = coins s.coinSessionQueue
  upTo : ledger.session ≤ ledger.windows
  current : taskStage s.sessionTask = .inWindow → ledger.session = ledger.windows
  earlier : s.coinInsertActive = true → taskStage s.sessionTask ≠ .inWindow → ledger.session < ledger.windows
  past : ∀ coin ∈ ledger.counted, coin.2 ≤ ledger.session
  tallied : taskStage s.sessionTask ≠ .idle → creditedCoins s = ledger.counted.countP (·.2 = ledger.session)

section
variable {address : IPAddress} {macAddress : String} {s next : Tasks} {ledger : Ledger}

theorem coins_append (queue events : List CoinSessionEvent) : coins (queue ++ events) = coins queue + coins events :=
  List.countP_append

theorem inHand_length (checked : Nat) (event : CoinSessionEvent) :
    (inHand checked (.posting event)).length = coins [event] := by
  cases event <;> rfl

theorem coins_pos {queue : List CoinSessionEvent} {mac : String} {ledger : Ledger}
    (queued : ledger.queued.length = coins (.coin mac :: queue)) : ∃ window rest, ledger.queued = window :: rest := by
  cases shape : ledger.queued with
  | nil => simp [shape, coins] at queued
  | cons window rest => exact ⟨window, rest, rfl⟩

theorem not_accepted {millis : UInt32} {pulse : CoinPulse} (filtering : s.pulseTask = .filtering pulse)
    (stopped : millis < s.coinSlotReadyMillis ∨ TooShort pulse ∨ TooSoon s.prevAcceptedTimestampMicros pulse) :
    ¬ AcceptedAt s millis := by
  rintro ⟨_, same, ready, wide, slow⟩
  rw [filtering, PulseTask.filtering.injEq] at same
  subst same
  exact stopped.elim ready fun fraud => fraud.elim wide slow

/-! ### What the ledger records -/

theorem recordCoins_active (active : s.coinInsertActive = true) :
    recordCoins s (.checkActive false) ledger = { ledger with checked := ledger.windows } := by
  simp [recordCoins, active]

theorem recordCoins_inactive (inactive : s.coinInsertActive = false) :
    recordCoins s (.checkActive false) ledger = ledger := by
  simp [recordCoins, inactive]

theorem recordCoins_filter {millis : UInt32} {pulse : CoinPulse} (filtering : s.pulseTask = .filtering pulse)
    (stopped : millis < s.coinSlotReadyMillis ∨ TooShort pulse ∨ TooSoon s.prevAcceptedTimestampMicros pulse) :
    recordCoins s (.filterPulse millis) ledger = ledger := by
  simp [recordCoins, not_accepted filtering stopped]

theorem recordCoins_accepted {millis : UInt32} (accepts : AcceptedAt s millis) :
    recordCoins s (.filterPulse millis) ledger = { ledger with accepted := ledger.accepted ++ [ledger.checked] } :=
  if_pos accepts

theorem recordCoins_posted (room : s.coinSessionQueue.length < coinSessionQueueSize) :
    recordCoins s .postEvent ledger = { ledger with queued := ledger.queued ++ inHand ledger.checked s.pulseTask } :=
  if_pos room

theorem recordCoins_dropped (full : ¬ s.coinSessionQueue.length < coinSessionQueueSize) :
    recordCoins s .postEvent ledger = ledger :=
  if_neg full

theorem recordCoins_taken {bootTestRunning : Bool} {socketFd : Int} {clientIp : String}
    (busy : bootTestRunning = true ∨ s.coinInsertActive = true) :
    recordCoins s (.tryClaim bootTestRunning socketFd clientIp) ledger = ledger :=
  if_pos busy

theorem recordCoins_won {socketFd : Int} {clientIp : String} (inactive : s.coinInsertActive = false) :
    recordCoins s (.tryClaim false socketFd clientIp) ledger = { ledger with windows := ledger.windows + 1 } := by
  simp [recordCoins, inactive]

section
variable {millis : UInt32} {nodes : Tally} {rest : List CoinSessionEvent}

theorem recordCoins_opened {socketFd : Int} {clientIp : String} (free : s.sessionTask = .receiving)
    (queued : s.coinSessionQueue = .start socketFd clientIp :: rest) :
    recordCoins s (.receiveEvent millis) ledger = { ledger with session := ledger.windows } := by
  simp [recordCoins, free, queued]

/-- A coin that comes between two sessions is dropped. -/
theorem recordCoins_stray {mac : String} (free : s.sessionTask = .receiving) (queued : s.coinSessionQueue = .coin mac :: rest) :
    recordCoins s (.receiveEvent millis) ledger = { ledger with queued := ledger.queued.tail } := by
  simp [recordCoins, free, queued]

theorem recordCoins_counted {mac : String} {window : Nat} {windows : List Nat} (counting : s.sessionTask = .counting nodes)
    (queued : s.coinSessionQueue = .coin mac :: rest) (shape : ledger.queued = window :: windows) :
    recordCoins s (.receiveEvent millis) ledger =
      { ledger with queued := windows, counted := ledger.counted ++ [(window, ledger.session)] } := by
  simp [recordCoins, counting, queued, shape]

/-- Any other event leaves the coins where they are. -/
theorem recordCoins_other {event : CoinSessionEvent} (queued : s.coinSessionQueue = event :: rest)
    (noCoin : ∀ mac, event ≠ .coin mac) (noStart : s.sessionTask = .receiving → ∀ socketFd clientIp, event ≠ .start socketFd clientIp) :
    recordCoins s (.receiveEvent millis) ledger = ledger := by
  cases event with
  | coin mac => exact absurd rfl (noCoin mac)
  | fraudEnd => cases doing : s.sessionTask <;> simp [recordCoins, queued, doing]
  | start socketFd clientIp =>
    have busy : s.sessionTask ≠ .receiving := fun free => noStart free socketFd clientIp rfl
    cases doing : s.sessionTask <;> simp_all [recordCoins]

end

/-! ### One step -/

/-- The window that opens last has no coin counted in its session before. -/
theorem nothingCounted (past : ∀ coin ∈ ledger.counted, coin.2 ≤ ledger.session) (fresh : ledger.session < ledger.windows) :
    ledger.counted.countP (·.2 = ledger.windows) = 0 := by
  refine List.countP_eq_zero.mpr fun coin inside => ?_
  have := past coin inside
  simp only [decide_eq_true_eq]
  omega

theorem numbered_step {action : CoinTasks.Action} (numbered : Numbered address s ledger)
    (took : step address macAddress s action = some next) : Numbered address next (recordCoins s action ledger) := by
  have held := held_step numbered.held took
  obtain ⟨heldBefore, queue, upTo, current, earlier, past, tallied⟩ := numbered
  cases step_cases took with
  | inside checking active =>
    rw [recordCoins_active active]
    exact ⟨held, queue, upTo, current, earlier, past, tallied⟩
  | diverted checking => exact ⟨held, queue, upTo, current, earlier, past, tallied⟩
  | outside checking inactive =>
    rw [recordCoins_inactive inactive]
    exact ⟨held, queue, upTo, current, earlier, past, tallied⟩
  | suppressed filtering booting =>
    rw [recordCoins_filter filtering (.inl booting)]
    exact ⟨held, queue, upTo, current, earlier, past, tallied⟩
  | rejected _ _ _ filtering ready fraud =>
    rw [recordCoins_filter filtering (.inr fraud)]
    exact ⟨held, queue, upTo, current, earlier, past, tallied⟩
  | @accepted pulse millis filtering ready wide slow =>
    have accepts : AcceptedAt s millis := ⟨pulse, filtering, ready, wide, slow⟩
    rw [recordCoins_accepted accepts]
    exact ⟨held, queue, upTo, current, earlier, past, tallied⟩
  | @posted event posting room =>
    rw [recordCoins_posted room]
    refine ⟨held, ?_, upTo, current, earlier, past, tallied⟩
    rw [posting, List.length_append, queue, inHand_length, coins_append]
  | dropped posting full =>
    rw [recordCoins_dropped full]
    exact ⟨held, queue, upTo, current, earlier, past, tallied⟩
  | won socketFd clientIp inactive =>
    rw [recordCoins_won inactive]
    obtain ⟨-, -, noWindow⟩ := held_inactive heldBefore inactive
    exact ⟨held, queue, Nat.le_succ_of_le upTo, fun inWindow => absurd inWindow noWindow,
      fun _ _ => Nat.lt_succ_of_le upTo, past, tallied⟩
  | taken socketFd clientIp busy =>
    rw [recordCoins_taken busy]
    exact ⟨held, queue, upTo, current, earlier, past, tallied⟩
  | started =>
    refine ⟨held, ?_, upTo, current, earlier, past, tallied⟩
    rw [coins_append]
    exact queue
  | opened free queued =>
    have active := held_started heldBefore queued
    have fresh := earlier active (by simp [free, taskStage])
    rw [recordCoins_opened free queued]
    refine ⟨held, ?_, Nat.le_refl _, fun _ => rfl, fun _ outside => absurd rfl outside,
      fun coin inside => Nat.le_trans (past coin inside) upTo, fun _ => ?_⟩
    · rw [queue, queued]
      rfl
    · exact (nothingCounted past fresh).symm
  | @stray event rest _ free queued other =>
    rw [queued] at queue
    cases event with
    | start socketFd clientIp => exact absurd rfl (other socketFd clientIp)
    | coin mac =>
      obtain ⟨window, windows, shape⟩ := coins_pos queue
      rw [recordCoins_stray free queued, shape]
      exact ⟨held, by simpa [shape, coins] using queue, upTo, current, earlier, past, tallied⟩
    | fraudEnd =>
      rw [recordCoins_other queued (by simp) (by simp)]
      exact ⟨held, queue, upTo, current, earlier, past, tallied⟩
  | @counted nodes mac rest _ counting queued =>
    have inWindow : taskStage s.sessionTask = .inWindow := by rw [counting]; rfl
    rw [queued] at queue
    obtain ⟨window, windows, shape⟩ := coins_pos queue
    rw [recordCoins_counted counting queued shape]
    refine ⟨held, ?_, upTo, fun _ => current inWindow, fun _ outside => absurd rfl outside, ?_, fun _ => ?_⟩
    · simpa [shape, coins] using queue
    · exact List.forall_mem_append.mpr ⟨past, by simp⟩
    · have before := tallied (by simp [inWindow])
      simp only [creditedCoins, counting] at before
      simp [creditedCoins, before, List.countP_append]
  | aborted counting queued =>
    have inWindow : taskStage s.sessionTask = .inWindow := by rw [counting]; rfl
    rw [recordCoins_other queued (by simp) (by simp [counting])]
    refine ⟨held, by rw [queue, queued]; rfl, upTo, fun _ => current inWindow, fun _ outside => absurd rfl outside, past,
      fun _ => ?_⟩
    have before := tallied (by simp [inWindow])
    simpa only [creditedCoins, counting] using before
  | restarted counting queued =>
    rw [recordCoins_other queued (by simp) (by simp [counting])]
    exact ⟨held, by rw [queue, queued]; rfl, upTo, current, earlier, past, tallied⟩
  | timedOut counting drained =>
    change Numbered address _ ledger
    have inWindow : taskStage s.sessionTask = .inWindow := by rw [counting]; rfl
    refine ⟨held, queue, upTo, fun _ => current inWindow, fun _ outside => absurd rfl outside, past, fun _ => ?_⟩
    have before := tallied (by simp [inWindow])
    simpa only [creditedCoins, counting] using before
  | cleared closing =>
    change Numbered address _ ledger
    refine ⟨held, queue, upTo, (by simp [taskStage]), (by simp), past, fun _ => ?_⟩
    have before := tallied (by simp [closing, taskStage])
    simpa only [creditedCoins, closing] using before
  | began finalizing =>
    change Numbered address _ ledger
    refine ⟨held, queue, upTo, (by simp [taskStage]), fun active _ => earlier active (by simp [finalizing, taskStage]), past,
      fun _ => ?_⟩
    have before := tallied (by simp [finalizing, taskStage])
    simpa only [creditedCoins, finalizing] using before
  | finalized granting =>
    exact ⟨held, queue, upTo, (by simp [taskStage]), fun active _ => earlier active (by simp [granting, taskStage]), past,
      fun busy => absurd rfl busy⟩
  | rolledBack => exact ⟨held, queue, upTo, current, (by simp), past, tallied⟩
  | _ => exact ⟨held, queue, upTo, current, earlier, past, tallied⟩

/-! ## Coins that come in time -/

theorem inHand_coin {checked window : Nat} {task : PulseTask} (inside : window ∈ inHand checked task) :
    window = checked ∧ ∃ mac, task = .posting (.coin mac) := by
  cases task with
  | posting event =>
    cases event with
    | coin mac => exact ⟨List.mem_singleton.mp inside, mac, rfl⟩
    | start | fraudEnd => cases inside
  | receiving | checking | filtering => cases inside

theorem inHand_nil {checked : Nat} {task : PulseTask} (empty : ∀ mac, task ≠ .posting (.coin mac)) :
    inHand checked task = [] := by
  refine List.eq_nil_iff_forall_not_mem.mpr fun window inside => ?_
  obtain ⟨-, mac, posting⟩ := inHand_coin inside
  exact empty mac posting

theorem coming_nil {checked : Nat} {task : PulseTask} (noCoin : inHand checked task = []) {taken : Nat → Prop} :
    ∀ window ∈ inHand checked task, taken window := by
  simp [noCoin]

/-- Where no session is open or queued, no coin waits. -/
theorem queued_nil (numbered : Numbered address s ledger) (conserved : Conserved s ledger)
    (noStart : queuedStarts s.coinSessionQueue = []) (closed : ∀ nodes, s.sessionTask ≠ .counting nodes) :
    ledger.queued = [] ∧ coins s.coinSessionQueue = 0 := by
  have none : coins s.coinSessionQueue = 0 := by
    rw [conserved.waiting.2, countable, ahead_nil noStart closed]
    rfl
  exact ⟨List.eq_nil_of_length_eq_zero (numbered.queue.trans none), none⟩

theorem coins_countable_le (task : SessionTask) (queue : List CoinSessionEvent) :
    coins (countable task queue) ≤ coins queue := by
  refine ((List.takeWhile_sublist _).trans ?_).countP_le
  unfold ahead
  split
  · exact List.Sublist.refl _
  · exact List.dropWhile_sublist _

theorem countable_zero {task : SessionTask} {queue : List CoinSessionEvent} (none : coins queue = 0) :
    coins queue = coins (countable task queue) := by
  have := coins_countable_le task queue
  omega

/-- A coin that is sent to a session that is open or queued will be counted. -/
theorem countable_coin {mac : String} (held : Held address s) (taking : Taking s) (noClaims : s.claims = []) :
    countable s.sessionTask (s.coinSessionQueue ++ [.coin mac]) =
      countable s.sessionTask s.coinSessionQueue ++ [.coin mac] := by
  obtain ⟨active, looping, noFraudEnd⟩ := taking
  have reached : (∃ nodes, s.sessionTask = .counting nodes) ∨ queuedStarts s.coinSessionQueue ≠ [] := by
    have once := held_once held
    rw [active, noClaims] at once
    cases doing : s.sessionTask with
    | counting nodes => exact .inl ⟨nodes, rfl⟩
    | closing fraudEnded nodes => exact absurd doing (looping fraudEnded nodes)
    | receiving | finalizing | granting =>
      refine .inr fun none => ?_
      simp [doing, none, taskStage] at once
  have all : ∀ event ∈ ahead s.sessionTask s.coinSessionQueue, decide (event ≠ .fraudEnd) = true := by
    intro event inside
    simp only [ne_eq, decide_eq_true_eq]
    exact fun same => noFraudEnd (same ▸ inside)
  rw [countable, countable, ahead_open reached, List.takeWhile_append_of_pos all, List.takeWhile_eq_self_iff.mpr all]
  rfl

theorem countable_fraudEnd (task : SessionTask) (queue : List CoinSessionEvent) :
    countable task (queue ++ [.fraudEnd]) = countable task queue := by
  have stops (events : List CoinSessionEvent) :
      List.takeWhile (fun event => event ≠ CoinSessionEvent.fraudEnd) (events ++ [.fraudEnd]) =
        events.takeWhile fun event => event ≠ CoinSessionEvent.fraudEnd := by
    rw [List.takeWhile_append]
    split
    · next all => simpa using ((List.takeWhile_prefix _).eq_of_length all).symm
    · rfl
  unfold countable ahead
  split
  · exact stops queue
  · rw [List.dropWhile_append]
    split
    · next none => rw [List.isEmpty_iff.mp none]; rfl
    · exact stops _

/-- A step that touches neither the session nor the coin at hand. -/
theorem conserved_frame (conserved : Conserved s ledger) (hand : inHand ledger.checked next.pulseTask = inHand ledger.checked s.pulseTask)
    (queue : next.coinSessionQueue = s.coinSessionQueue) (task : next.sessionTask = s.sessionTask)
    (count : next.coinCount = s.coinCount) (active : next.coinInsertActive = s.coinInsertActive) :
    Conserved next ledger where
  once := hand ▸ conserved.once
  own := conserved.own
  waiting := by simpa only [queue, task] using conserved.waiting
  coming := by simpa only [Taking, hand, active, queue, task] using conserved.coming
  settled := by simpa only [creditedCoins, task, count] using conserved.settled

/-- An accepted pulse is held by the pulse task, and no window is finishing with its
    number: the one that is open has another. -/
theorem conserved_accepted (numbered : Numbered address s ledger) (conserved : Conserved s ledger) {pulse : CoinPulse}
    (filtering : s.pulseTask = .filtering pulse) (current : ledger.checked = ledger.windows) (taking : Taking s) :
    Conserved
      { s with
        prevAcceptedTimestampMicros := pulse.timestampMicros
        pulseTask := .posting (coinEvent (nodeMac macAddress pulse)) }
      { ledger with accepted := ledger.accepted ++ [ledger.checked] } := by
  obtain ⟨once, own, waiting, coming, settled⟩ := conserved
  refine ⟨?_, own, waiting, ?_, fun finishing => ?_⟩
  · rw [inHand_coinEvent, once, filtering, inHand_filtering, List.append_nil]
  · intro window inside
    rw [inHand_coinEvent, List.mem_singleton] at inside
    exact ⟨inside.trans current, taking⟩
  · have other : ledger.session < ledger.windows := numbered.earlier taking.1 fun inWindow => by
      cases finishing.symm.trans inWindow
    have later : List.count ledger.session [ledger.checked] = 0 := by
      rw [current, List.count_singleton, beq_eq_false_iff_ne.mpr (by omega)]
      rfl
    rw [List.count_append, later, Nat.add_zero]
    exact settled finishing

theorem conserved_posted (numbered : Numbered address s ledger) (conserved : Conserved s ledger) {event : CoinSessionEvent}
    (posting : s.pulseTask = .posting event) (noClaims : inHand ledger.checked s.pulseTask ≠ [] → s.claims = []) :
    Conserved { s with coinSessionQueue := s.coinSessionQueue ++ [event], pulseTask := .receiving }
      { ledger with queued := ledger.queued ++ inHand ledger.checked s.pulseTask } := by
  obtain ⟨once, own, waiting, coming, settled⟩ := conserved
  refine ⟨by simpa using once, own, ⟨?_, ?_⟩, (by simp), settled⟩
  · exact List.forall_mem_append.mpr ⟨waiting.1, fun window inside => (coming window inside).1⟩
  · cases event with
    | coin mac =>
      have taking := (coming ledger.checked (by simp [posting, inHand])).2
      rw [countable_coin numbered.held taking (noClaims (by simp [posting, inHand])), coins_append, coins_append, waiting.2]
    | fraudEnd =>
      rw [countable_fraudEnd, coins_append, waiting.2]
      rfl
    | start socketFd clientIp =>
      obtain ⟨turn, refines⟩ := numbered.held
      exact absurd (refines.posting _ posting) (by simp [startIp])

/-- What is queued between two sessions is no coin: it would not be counted. -/
theorem stray_noCoin (conserved : Conserved s ledger) {event : CoinSessionEvent} {rest : List CoinSessionEvent}
    (free : s.sessionTask = .receiving) (queued : s.coinSessionQueue = event :: rest)
    (other : ∀ socketFd clientIp, event ≠ .start socketFd clientIp) : coins [event] = 0 := by
  have waiting := conserved.waiting.2
  rw [free, queued] at waiting
  have same : ahead .receiving (event :: rest) = ahead .receiving rest := by simp [ahead, startIp_stray other]
  have split := coins_append [event] rest
  have bound := coins_countable_le .receiving rest
  have waits : coins (event :: rest) = coins (countable .receiving rest) := by
    rw [waiting, countable, same, countable]
  rw [List.singleton_append] at split
  omega

theorem conserved_stray (conserved : Conserved s ledger) {event : CoinSessionEvent} {rest : List CoinSessionEvent}
    (free : s.sessionTask = .receiving) (queued : s.coinSessionQueue = event :: rest)
    (other : ∀ socketFd clientIp, event ≠ .start socketFd clientIp) :
    Conserved { s with coinSessionQueue := rest } ledger := by
  have noCoin := stray_noCoin conserved free queued other
  have same : ahead .receiving (event :: rest) = ahead .receiving rest := by simp [ahead, startIp_stray other]
  obtain ⟨once, own, waiting, coming, settled⟩ := conserved
  rw [free, queued] at waiting
  refine ⟨once, own, ⟨waiting.1, ?_⟩, fun window inside => ?_, settled⟩
  · have waits := waiting.2
    rw [countable, same, ← List.singleton_append, coins_append, noCoin, Nat.zero_add] at waits
    simpa [countable, free] using waits
  · obtain ⟨current, active, looping, noFraudEnd⟩ := coming window inside
    rw [free, queued, same] at noFraudEnd
    exact ⟨current, active, looping, by simpa [free] using noFraudEnd⟩

theorem conserved_counted (numbered : Numbered address s ledger) (conserved : Conserved s ledger) {nodes : Tally} {mac : String}
    {rest : List CoinSessionEvent} {deadline : UInt32} {window : Nat} {windows : List Nat} (counting : s.sessionTask = .counting nodes)
    (queued : s.coinSessionQueue = .coin mac :: rest) (shape : ledger.queued = window :: windows) :
    Conserved
      { s with
        coinSessionQueue := rest
        coinCount := s.coinCount + 1
        coinDeadlineMillis := deadline
        sessionTask := .counting (nodes.coin mac) }
      { ledger with queued := windows, counted := ledger.counted ++ [(window, ledger.session)] } := by
  obtain ⟨once, own, waiting, coming, settled⟩ := conserved
  rw [shape, queued, counting] at waiting
  obtain ⟨here, later⟩ := List.forall_mem_cons.mp waiting.1
  have current := numbered.current (by rw [counting]; rfl)
  refine ⟨?_, ?_, ⟨later, ?_⟩, fun window inside => ?_, (by simp [taskStage])⟩
  · simpa [shape, List.append_assoc] using once
  · exact List.forall_mem_append.mpr ⟨own, List.forall_mem_singleton.mpr (here.trans current.symm)⟩
  · simpa [coins, countable, ahead] using waiting.2
  · obtain ⟨same, active, -, noFraudEnd⟩ := coming window inside
    rw [counting, queued] at noFraudEnd
    exact ⟨same, active, (by simp), fun inside => noFraudEnd (List.mem_cons_of_mem _ inside)⟩

/-- When the window is closed, all that was accepted in it is counted. -/
theorem conserved_cleared (numbered : Numbered address s ledger) (conserved : Conserved s ledger) {fraudEnded : Bool} {nodes : Tally}
    (closing : s.sessionTask = .closing fraudEnded nodes) :
    Conserved { s with coinInsertActive := false, sessionTask := .finalizing fraudEnded nodes } ledger := by
  have nothingWaits := queued_nil numbered conserved
  obtain ⟨once, own, waiting, coming, settled⟩ := conserved
  have noCoin : inHand ledger.checked s.pulseTask = [] :=
    List.eq_nil_iff_forall_not_mem.mpr fun window inside => (coming window inside).2.2.1 fraudEnded nodes closing
  have noStart := (held_window numbered.held (by rw [closing]; rfl)).2
  obtain ⟨empty, none⟩ := nothingWaits noStart (by simp [closing])
  refine ⟨once, own, ⟨waiting.1, countable_zero none⟩, coming_nil noCoin, fun _ => ?_⟩
  have tallied := numbered.tallied (by simp [closing, taskStage])
  have all : ledger.accepted = ledger.counted.map (·.1) := by simpa [empty, noCoin] using once
  calc s.coinCount = ledger.counted.countP (·.2 = ledger.session) := by simpa only [creditedCoins, closing] using tallied
    _ = ledger.counted.countP (·.1 = ledger.session) :=
      List.countP_congr fun coin inside => by rw [own coin inside]
    _ = ledger.accepted.count ledger.session := by
      rw [all, List.count, List.countP_map]
      rfl

theorem conserved_step {action : CoinTasks.Action} (numbered : Numbered address s ledger)
    (conserved : Conserved s ledger) (inTime : InTime (s, ledger) action)
    (took : step address macAddress s action = some next) : Conserved next (recordCoins s action ledger) := by
  have nothingWaits := queued_nil numbered conserved
  have frame := @conserved_frame s next ledger conserved
  have ⟨once, own, waiting, coming, settled⟩ := conserved
  cases step_cases took with
  | receivePulse free queued => exact frame (by simp [free]) rfl rfl rfl rfl
  | diverted checking => exact frame (by simp [checking]) rfl rfl rfl rfl
  | outside checking inactive =>
    rw [recordCoins_inactive inactive]
    exact frame (by simp [checking]) rfl rfl rfl rfl
  | inside checking active =>
    rw [recordCoins_active active]
    exact ⟨by simpa [checking] using once, own, waiting, (by simp), settled⟩
  | suppressed filtering booting =>
    rw [recordCoins_filter filtering (.inl booting)]
    exact frame (by simp [filtering]) rfl rfl rfl rfl
  | rejected _ _ _ filtering ready fraud =>
    rw [recordCoins_filter filtering (.inr fraud)]
    refine frame ?_ rfl rfl rfl rfl
    rw [filtering, inHand_filtering]
    exact inHand_nil fun mac posting => absurd posting (by unfold afterReject; split <;> simp)
  | @accepted pulse millis filtering ready wide slow =>
    have accepts : AcceptedAt s millis := ⟨pulse, filtering, ready, wide, slow⟩
    rw [recordCoins_accepted accepts]
    obtain ⟨current, taking⟩ := inTime accepts
    exact conserved_accepted numbered conserved filtering current taking
  | @posted event posting room =>
    rw [recordCoins_posted room]
    exact conserved_posted numbered conserved posting fun held => (inTime held).2
  | @dropped event posting full =>
    rw [recordCoins_dropped full]
    refine frame ?_ rfl rfl rfl rfl
    by_contra held
    exact full (inTime (Ne.symm held)).1
  | taken socketFd clientIp busy =>
    rw [recordCoins_taken busy]
    exact frame rfl rfl rfl rfl rfl
  | won socketFd clientIp inactive =>
    rw [recordCoins_won inactive]
    obtain ⟨-, noStart, noWindow⟩ := held_inactive numbered.held inactive
    obtain ⟨empty, -⟩ := nothingWaits noStart (not_counting noWindow)
    have noCoin : inHand ledger.checked s.pulseTask = [] := by
      refine inHand_nil fun mac posting => ?_
      have taking := (coming ledger.checked (by simp [posting, inHand])).2
      exact absurd (inactive.symm.trans taking.1) (by simp)
    exact ⟨once, own, ⟨by simp [empty], waiting.2⟩, coming_nil noCoin, settled⟩
  | started pending fresh room =>
    obtain ⟨noStart, noWindow⟩ := held_claimed numbered.held pending
    obtain ⟨-, none⟩ := nothingWaits noStart (not_counting noWindow)
    refine ⟨once, own, ⟨waiting.1, countable_zero ?_⟩, fun window inside => ?_, settled⟩
    · rw [coins_append, none]
      rfl
    · obtain ⟨current, active, looping, noFraudEnd⟩ := coming window inside
      refine ⟨current, active, looping, fun inside => ?_⟩
      rcases List.mem_append.mp (ahead_append _ _ _ inside) with before | now
      · exact noFraudEnd before
      · cases List.mem_singleton.mp now
  | rolledBack pending refused =>
    have noCoin : inHand ledger.checked s.pulseTask = [] := inTime
    exact ⟨once, own, waiting, coming_nil noCoin, settled⟩
  | opened free queued =>
    rw [recordCoins_opened free queued]
    rw [free, queued] at waiting
    refine ⟨once, own, ⟨waiting.1, ?_⟩, fun window inside => ?_, (by simp [taskStage])⟩
    · simpa [coins, countable, ahead, startIp] using waiting.2
    · obtain ⟨current, active, -, noFraudEnd⟩ := coming window inside
      rw [free, queued] at noFraudEnd
      exact ⟨current, active, (by simp), fun inside => noFraudEnd (by simpa [ahead, startIp] using inside)⟩
  | @stray event rest _ free queued other =>
    have notCoin : ∀ mac, event ≠ .coin mac := by
      rintro mac rfl
      cases stray_noCoin conserved free queued other
    rw [recordCoins_other queued notCoin fun _ => other]
    exact conserved_stray conserved free queued other
  | @counted nodes mac rest _ counting queued =>
    have sized := numbered.queue
    rw [queued] at sized
    obtain ⟨window, windows, shape⟩ := coins_pos sized
    rw [recordCoins_counted counting queued shape]
    exact conserved_counted numbered conserved counting queued shape
  | @aborted nodes rest _ counting queued =>
    rw [recordCoins_other queued (by simp) (by simp [counting])]
    rw [counting, queued] at waiting
    have none : coins rest = 0 := waiting.2
    refine ⟨once, own, ⟨waiting.1, countable_zero none⟩, fun window inside => ?_, (by simp [taskStage])⟩
    have taking := (coming window inside).2
    rw [Taking, counting, queued] at taking
    exact absurd List.mem_cons_self taking.2.2
  | @restarted nodes _ _ rest _ counting queued =>
    rw [recordCoins_other queued (by simp) (by simp [counting])]
    rw [counting, queued] at waiting
    refine ⟨once, own, ⟨waiting.1, ?_⟩, fun window inside => ?_, settled⟩
    · rw [counting]
      simpa [coins, countable, ahead] using waiting.2
    · obtain ⟨same, active, looping, noFraudEnd⟩ := coming window inside
      refine ⟨same, active, looping, fun inside => noFraudEnd ?_⟩
      rw [counting, queued]
      rw [counting] at inside
      exact List.mem_cons_of_mem _ inside
  | timedOut counting drained =>
    have noCoin : inHand ledger.checked s.pulseTask = [] := inTime
    have none : coins s.coinSessionQueue = 0 := by rw [drained]; rfl
    exact ⟨once, own, ⟨waiting.1, countable_zero none⟩, coming_nil noCoin, (by simp [taskStage])⟩
  | cleared closing => exact conserved_cleared numbered conserved closing
  | began finalizing =>
    refine ⟨once, own, ⟨waiting.1, by simpa [finalizing, countable, ahead] using waiting.2⟩, fun window inside => ?_, ?_⟩
    · obtain ⟨same, active, -, noFraudEnd⟩ := coming window inside
      exact ⟨same, active, (by simp), by simpa [finalizing, ahead] using noFraudEnd⟩
    · simpa [finalizing, taskStage, creditedCoins, recordCoins] using settled
  | finalized granting =>
    refine ⟨once, own, ⟨waiting.1, by simpa [granting, countable, ahead] using waiting.2⟩, fun window inside => ?_, (by simp [taskStage])⟩
    obtain ⟨same, active, -, noFraudEnd⟩ := coming window inside
    exact ⟨same, active, (by simp), by simpa [granting, ahead] using noFraudEnd⟩
  | _ => exact frame rfl rfl rfl rfl rfl

/-- After a step that comes too late, a coin is lost or cannot be counted in time. -/
theorem late_breaks {action : CoinTasks.Action} (numbered : Numbered address s ledger) (conserved : Conserved s ledger)
    (late : ¬ InTime (s, ledger) action) (took : step address macAddress s action = some next) :
    ¬ Conserved next (recordCoins s action ledger) := by
  intro after
  cases step_cases took with
  | suppressed filtering booting => exact late fun accepts => absurd accepts (not_accepted filtering (.inl booting))
  | rejected _ _ _ filtering ready fraud =>
    exact late fun accepts => absurd accepts (not_accepted filtering (.inr fraud))
  | @accepted pulse millis filtering ready wide slow =>
    have accepts : AcceptedAt s millis := ⟨pulse, filtering, ready, wide, slow⟩
    rw [recordCoins_accepted accepts] at after
    exact late fun _ => after.coming ledger.checked (by simp)
  | posted posting room =>
    refine late fun held => ⟨room, ?_⟩
    obtain ⟨window, inside⟩ := List.exists_mem_of_ne_nil _ held
    obtain ⟨-, mac, sending⟩ := inHand_coin inside
    obtain rfl := PulseTask.posting.inj (posting.symm.trans sending)
    cases claims : s.claims with
    | nil => rfl
    | cons claim rest =>
      obtain ⟨noStart, noWindow⟩ := held_claimed numbered.held (show s.claims[0]? = some claim by simp [claims])
      have waits : coins (s.coinSessionQueue ++ [.coin mac]) =
          coins (countable s.sessionTask (s.coinSessionQueue ++ [.coin mac])) := after.waiting.2
      rw [countable, ahead_quiet noStart (not_counting noWindow) (by simp [startIp]), coins_append] at waits
      cases waits
  | dropped posting full =>
    rw [recordCoins_dropped full] at after
    refine late fun held => absurd ?_ held
    have lost := after.once.symm.trans conserved.once
    exact (List.append_cancel_left lost).symm
  | timedOut counting drained =>
    refine late (List.eq_nil_iff_forall_not_mem.mpr fun window inside => ?_)
    exact (after.coming window inside).2.2.1 false _ rfl
  | rolledBack pending refused =>
    refine late (List.eq_nil_iff_forall_not_mem.mpr fun window inside => ?_)
    exact absurd (after.coming window inside).2.1 (by simp)
  | _ => exact late trivial

/-- In every run each accepted pulse is counted once in the session of its own
    window, or waits where that session will count it, exactly when every step comes
    in time for the pulses that are accepted. -/
theorem coins_conserved_iff {actions : List CoinTasks.Action} {last : Tasks × Ledger}
    (ran : run (following address macAddress) (initial, newLedger) actions = some last) :
    Always (following address macAddress) (fun here => Conserved here.1 here.2) (initial, newLedger) actions ↔
      Throughout (following address macAddress) InTime (initial, newLedger) actions := by
  refine @always_iff _ _ _ (fun here => Numbered address here.1 here.2) (fun here => Conserved here.1 here.2) _ _
    ?_ ?_ (fun _ conserved => conserved) ?_ _ _ _ ?_ ?_ ran
  · rintro ⟨s, ledger⟩ action ⟨next, after⟩ numbered took
    obtain ⟨moved, rfl⟩ := watch_some.mp took
    exact numbered_step numbered moved
  · rintro ⟨s, ledger⟩ action ⟨next, after⟩ numbered conserved inTime took
    obtain ⟨moved, rfl⟩ := watch_some.mp took
    exact conserved_step numbered conserved inTime moved
  · rintro ⟨s, ledger⟩ action ⟨next, after⟩ numbered conserved late took
    obtain ⟨moved, rfl⟩ := watch_some.mp took
    exact late_breaks numbered conserved late moved
  · exact ⟨held_initial, rfl, Nat.le_refl _, nofun, nofun, by simp [newLedger], by simp [initial, taskStage]⟩
  · exact ⟨rfl, by simp [newLedger], ⟨by simp [newLedger], rfl⟩, by simp [initial], by simp [initial, taskStage]⟩

end

def coin (millis : UInt32) : List CoinTasks.Action := handled 30000 millis

def twoCoins : List CoinTasks.Action :=
  windowStart 7 "10.0.0.5" 100 ++ coin 1000 ++ [.postEvent] ++ coin 2000 ++ [.postEvent, .receiveEvent 2000, .receiveEvent 2001] ++
    windowEnd

theorem coins_conserved_two :
    Always (following dottedQuad "AA") (fun here => Conserved here.1 here.2) (initial, newLedger) twoCoins := by
  have ran : (run (following dottedQuad "AA") (initial, newLedger) twoCoins).isSome := by decide +kernel
  obtain ⟨last, reached⟩ := Option.isSome_iff_exists.mp ran
  exact (coins_conserved_iff reached).mpr (by decide +kernel)

/-- The coin is accepted as the window times out, and is sent once the next client
    waits. -/
def lateCoin : List CoinTasks.Action :=
  windowStart 7 "10.0.0.5" 100 ++ coin 10099 ++ windowEnd ++ [.tryClaim false 8 "10.0.0.6", .postStart 0, .postEvent,
    .receiveEvent 10200, .receiveEvent 10201]

/-- The first client's coin is counted in the second client's session. -/
theorem coin_counted_later : ∃ s ledger,
    run (following dottedQuad "AA") (initial, newLedger) lateCoin = some (s, ledger) ∧
      ledger.accepted = [1] ∧ ledger.counted = [(1, 2)] ∧ s.coinCount = 1 ∧ ¬ Conserved s ledger := by
  have ran : (run (following dottedQuad "AA") (initial, newLedger) lateCoin).map (fun last =>
      (last.2.accepted, last.2.counted, last.1.coinCount)) = some ([1], [(1, 2)], 1) := by decide +kernel
  obtain ⟨⟨s, ledger⟩, reached, shown⟩ := Option.map_eq_some_iff.mp ran
  obtain ⟨accepted, counted, coinCount⟩ : ledger.accepted = [1] ∧ ledger.counted = [(1, 2)] ∧ s.coinCount = 1 := by
    simpa only [Prod.mk.injEq] using shown
  refine ⟨s, ledger, reached, accepted, counted, coinCount, fun conserved => ?_⟩
  have own := conserved.own (1, 2) (by rw [counted]; exact List.mem_singleton_self _)
  exact absurd own (by decide)

end EllaFi.CoinCount
