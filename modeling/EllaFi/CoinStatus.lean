import EllaFi.CoinSlot
import EllaFi.Portal

/-!
Whom the coin window is shown to. A status reads the slot, the flag, the count and the
deadline one after the other, while claims are won and sessions begin and end in
between. A status that shows the window as active has read its own address in the slot,
but the slot keeps an address until `finalizeSession` is over, when the next claim may
stand already. Every status that is sent shows the flag and the count of the client that
receives it as long as a client's status does not load the slot while the client's session
is being finalized and the next claim stands, no other client wins the slot between that
load and the load of the count, and the socket in the slot is still the client's
(`statuses_owned`). A status that is not interrupted is the one of the handlers
(`status_uninterrupted`).
-/
namespace EllaFi.CoinStatus
open EllaFi.Session EllaFi.Coins EllaFi.CoinTasks
open EllaFi.CoinSlot (claimant happening Refines refines_initial step_refines)
open EllaFi.Runs (run run_nil run_cons run_keeps Always Throughout always_mono throughout_all throughout_and
  throughout_always)
open EllaFi.Turnstile (Turn Event)

/-! ## Status builds -/

structure CoinSessionStatus where
  accepting : Bool
  count : Nat
  socketFd : Int
  clientIpV4 : UInt32
  deadlineMs : UInt32
deriving DecidableEq, Repr

/-- What `coinSessionSnapshot` has loaded. Beside the flag stands who held the claim
    when it was read, and beside the count whose session it counted. -/
inductive Reading where
  | start
  | slot (slot : CoinSessionSlot)
  | active (slot : CoinSessionSlot) (accepting : Bool) (heldBy : Option String)
  | count (slot : CoinSessionSlot) (accepting : Bool) (heldBy : Option String) (count : Nat) (countOf : Option String)

/-- A call of `buildStatusJson` for a session, and the client that the status is sent to. -/
structure Build where
  clientIp : String
  recipient : String
  reading : Reading

structure Report where
  clientIp : String
  recipient : String
  status : CoinSessionStatus
  heldBy : Option String
  countOf : Option String
deriving DecidableEq

/-- The tasks, whose claim stands and whose session `COIN_COUNT` counts, and the statuses
    that are being built and that were sent. -/
structure Watched where
  tasks : Tasks
  holder : Option String
  counted : Option String
  builds : List Build
  reports : List Report

inductive Action where
  | task (action : CoinTasks.Action)
  /-- A client's request is answered with its status. -/
  | request (client : String)
  /-- `pushCoinUpdateToClient` finds `recipient` at the socket of the slot. -/
  | push (recipient : String)
  | loadSlot (build : Nat)
  | loadActive (build : Nat)
  | loadCount (build : Nat)
  /-- The deadline is loaded, and the status sent. -/
  | loadDeadline (build : Nat)

section
variable (address : IPAddress)

/-- The status shows the window as active. -/
def CoinSessionStatus.MyCoinInsertActive (status : CoinSessionStatus) (clientIp : String) : Prop :=
  status.accepting = true ∧ coinIpToU32 address clientIp = status.clientIpV4

instance (status : CoinSessionStatus) (clientIp : String) : Decidable (status.MyCoinInsertActive address clientIp) :=
  inferInstanceAs (Decidable (_ ∧ _))

def CoinSessionStatus.coinCount (status : CoinSessionStatus) (clientIp : String) : Nat :=
  if status.MyCoinInsertActive address clientIp then status.count else 0

def CoinSessionStatus.coinInsertTimeLeft (status : CoinSessionStatus) (clientIp : String) (millis : UInt32) : Nat :=
  if status.MyCoinInsertActive address clientIp ∧ millis < status.deadlineMs then
    ((status.deadlineMs - millis) / 1000).toNat
  else 0

/-- Whose claim stands after a step. -/
def holderAfter (s : Tasks) (holder : Option String) (action : CoinTasks.Action) : Option String :=
  match happening s action with
  | some (.won client) => some client
  | some .withdrawn | some .released => none
  | _ => holder

/-- Whose session the count is of after a step; of none once it was taken. -/
def countedAfter (s : Tasks) (counted : Option String) (action : CoinTasks.Action) : Option String :=
  match action, happening s action with
  | .beginFinalize, _ => none
  | _, some (.begun client) => some client
  | _, _ => counted

def loadSlot (s : Watched) (i : Nat) : Option Watched :=
  match s.builds[i]? with
  | some ⟨clientIp, recipient, .start⟩ =>
    some { s with builds := s.builds.set i ⟨clientIp, recipient, .slot s.tasks.coinSessionSlot⟩ }
  | _ => none

def loadActive (s : Watched) (i : Nat) : Option Watched :=
  match s.builds[i]? with
  | some ⟨clientIp, recipient, .slot slot⟩ =>
    some { s with builds := s.builds.set i ⟨clientIp, recipient, .active slot s.tasks.coinInsertActive s.holder⟩ }
  | _ => none

def loadCount (s : Watched) (i : Nat) : Option Watched :=
  match s.builds[i]? with
  | some ⟨clientIp, recipient, .active slot accepting heldBy⟩ =>
    some { s with
      builds := s.builds.set i ⟨clientIp, recipient, .count slot accepting heldBy s.tasks.coinCount s.counted⟩ }
  | _ => none

def loadDeadline (s : Watched) (i : Nat) : Option Watched :=
  match s.builds[i]? with
  | some ⟨clientIp, recipient, .count slot accepting heldBy count countOf⟩ =>
    some { s with
      builds := s.builds.eraseIdx i
      reports := s.reports ++
        [{ clientIp, recipient, heldBy, countOf
           status :=
            { accepting, count, socketFd := slot.socketFd, clientIpV4 := slot.clientIpV4
              deadlineMs := s.tasks.coinDeadlineMillis } }] }
  | _ => none

def step (macAddress : String) (s : Watched) : Action → Option Watched
  | .task action =>
    (CoinTasks.step address macAddress s.tasks action).map fun tasks =>
      { s with
        tasks := tasks
        holder := holderAfter s.tasks s.holder action
        counted := countedAfter s.tasks s.counted action }
  | .request client => some { s with builds := s.builds ++ [⟨client, client, .start⟩] }
  | .push recipient =>
    if s.tasks.coinSessionSlot.socketFd < 0 ∨ s.tasks.coinSessionSlot.clientIpV4 = 0 then none
    else
      some { s with
        builds := s.builds ++ [⟨coinU32ToIp address s.tasks.coinSessionSlot.clientIpV4, recipient, .start⟩] }
  | .loadSlot i => loadSlot s i
  | .loadActive i => loadActive s i
  | .loadCount i => loadCount s i
  | .loadDeadline i => loadDeadline s i

def watchedInitial : Watched where
  tasks := initial
  holder := none
  counted := none
  builds := []
  reports := []

/-! ## What a step can do -/

inductive Step (macAddress : String) : Watched → Action → Watched → Prop
  | task {s action tasks} (took : CoinTasks.step address macAddress s.tasks action = some tasks) :
      Step macAddress s (.task action)
        { s with
          tasks := tasks
          holder := holderAfter s.tasks s.holder action
          counted := countedAfter s.tasks s.counted action }
  | asked s client : Step macAddress s (.request client) { s with builds := s.builds ++ [⟨client, client, .start⟩] }
  | pushed s recipient :
      Step macAddress s (.push recipient)
        { s with
          builds := s.builds ++ [⟨coinU32ToIp address s.tasks.coinSessionSlot.clientIpV4, recipient, .start⟩] }
  | slot {s i clientIp recipient} (building : s.builds[i]? = some ⟨clientIp, recipient, .start⟩) :
      Step macAddress s (.loadSlot i)
        { s with builds := s.builds.set i ⟨clientIp, recipient, .slot s.tasks.coinSessionSlot⟩ }
  | active {s i clientIp recipient slot} (building : s.builds[i]? = some ⟨clientIp, recipient, .slot slot⟩) :
      Step macAddress s (.loadActive i)
        { s with builds := s.builds.set i ⟨clientIp, recipient, .active slot s.tasks.coinInsertActive s.holder⟩ }
  | count {s i clientIp recipient slot accepting heldBy}
      (building : s.builds[i]? = some ⟨clientIp, recipient, .active slot accepting heldBy⟩) :
      Step macAddress s (.loadCount i)
        { s with
          builds := s.builds.set i ⟨clientIp, recipient, .count slot accepting heldBy s.tasks.coinCount s.counted⟩ }
  | sent {s i clientIp recipient slot accepting heldBy count countOf}
      (building : s.builds[i]? = some ⟨clientIp, recipient, .count slot accepting heldBy count countOf⟩) :
      Step macAddress s (.loadDeadline i)
        { s with
          builds := s.builds.eraseIdx i
          reports := s.reports ++
            [{ clientIp, recipient, heldBy, countOf
               status :=
                { accepting, count, socketFd := slot.socketFd, clientIpV4 := slot.clientIpV4
                  deadlineMs := s.tasks.coinDeadlineMillis } }] }

/-! ## Whose window a status shows -/

/-- The count is of the client's session, or nothing is counted yet. -/
def OwnCount (recipient : String) (count : Nat) (countOf : Option String) : Prop :=
  (countOf = none ∧ count = 0) ∨ countOf = some (claimant recipient)

/-- A status that shows the window as active shows that of the client that gets it. -/
def Owned (report : Report) : Prop :=
  report.status.MyCoinInsertActive address report.clientIp →
    report.heldBy = some (claimant report.recipient) ∧ OwnCount report.recipient report.status.count report.countOf

def AllOwned (s : Watched) : Prop := ∀ report ∈ s.reports, Owned address report

/-- So far nothing was read that another client's window shows. -/
def Clean (build : Build) : Prop :=
  match build.reading with
  | .start | .slot _ => True
  | .active slot accepting heldBy =>
    accepting = true → coinIpToU32 address build.clientIp = slot.clientIpV4 → heldBy = some (claimant build.recipient)
  | .count slot accepting heldBy count countOf =>
    accepting = true → coinIpToU32 address build.clientIp = slot.clientIpV4 →
      heldBy = some (claimant build.recipient) ∧ OwnCount build.recipient count countOf

/-- The status has found its own address in the slot and does not know the count yet. -/
def FoundOwn (build : Build) : Prop :=
  match build.reading with
  | .slot slot | .active slot true _ => coinIpToU32 address build.clientIp = slot.clientIpV4
  | _ => False

instance (build : Build) : Decidable (FoundOwn address build) :=
  match build with
  | ⟨_, _, .slot _⟩ | ⟨_, _, .active _ true _⟩ => inferInstanceAs (Decidable (_ = _))
  | ⟨_, _, .start⟩ | ⟨_, _, .active _ false _⟩ | ⟨_, _, .count ..⟩ => inferInstanceAs (Decidable False)

/-- What may come between: no client wins the slot while a status of another one has found its
    own address there, and no status finds its own address while another client's claim stands,
    or when the socket that it goes to has become another client's. -/
def Undisturbed (s : Watched) : Action → Prop
  | .task (.tryClaim bootTestRunning _ clientIp) =>
    bootTestRunning = false → s.tasks.coinInsertActive = false → ∀ build ∈ s.builds, FoundOwn address build →
      coinIpToU32 address (claimant clientIp) = coinIpToU32 address build.clientIp
  | .loadSlot i => ∀ build ∈ s.builds[i]?, coinIpToU32 address build.clientIp = s.tasks.coinSessionSlot.clientIpV4 →
      coinIpToU32 address build.recipient = coinIpToU32 address build.clientIp ∧
        ∀ holder ∈ s.holder, coinIpToU32 address holder = coinIpToU32 address build.clientIp
  | _ => True

instance (s : Watched) (action : Action) : Decidable (Undisturbed address s action) :=
  match action with
  | .task (.tryClaim ..) => inferInstanceAs (Decidable (_ → _ → ∀ build ∈ s.builds, _ → _))
  | .loadSlot i => inferInstanceAs (Decidable (∀ build ∈ s.builds[i]?, _ → _ ∧ ∀ holder ∈ s.holder, _))
  | .task (.pulse _) | .task .receivePulse | .task (.checkActive _) | .task (.filterPulse _) | .task .postEvent
  | .task (.postStart _) | .task (.rollBack _) | .task (.loadSlot ..) | .task (.swapSlot ..) | .task (.receiveEvent _)
  | .task .timeout | .task .clearActive | .task .beginFinalize | .task .endFinalize
  | .request _ | .push _ | .loadActive _ | .loadCount _ | .loadDeadline _ => inferInstanceAs (Decidable True)

/-- The text is the one that `toString` writes for its address. -/
def Written (clientIp : String) : Prop :=
  claimant clientIp = clientIp ∧ coinU32ToIp address (coinIpToU32 address clientIp) = clientIp

instance (clientIp : String) : Decidable (Written address clientIp) := inferInstanceAs (Decidable (_ ∧ _))

/-- Clients are known by the address of their connection. -/
def FromConnections : Action → Prop
  | .task (.tryClaim _ _ clientIp) => Written address clientIp
  | .request client => Written address client
  | .push recipient => Written address recipient
  | _ => True

instance (action : Action) : Decidable (FromConnections address action) :=
  match action with
  | .task (.tryClaim ..) | .request _ | .push _ => inferInstanceAs (Decidable (Written address _))
  | .task (.pulse _) | .task .receivePulse | .task (.checkActive _) | .task (.filterPulse _) | .task .postEvent
  | .task (.postStart _) | .task (.rollBack _) | .task (.loadSlot ..) | .task (.swapSlot ..) | .task (.receiveEvent _)
  | .task .timeout | .task .clearActive | .task .beginFinalize | .task .endFinalize
  | .loadSlot _ | .loadActive _ | .loadCount _ | .loadDeadline _ => inferInstanceAs (Decidable True)

end

section
variable {address : IPAddress} {macAddress : String} {s next : Watched} {action : Action} {builds : List Build}
  {build : Build} {i : Nat}

theorem step_cases (took : step address macAddress s action = some next) : Step address macAddress s action next := by
  cases action with
  | task action =>
    obtain ⟨tasks, moved, rfl⟩ := Option.map_eq_some_iff.mp took
    exact .task moved
  | request client =>
    cases took
    exact .asked s client
  | push recipient =>
    simp only [step] at took
    split at took
    · cases took
    · cases took
      exact .pushed s recipient
  | loadSlot i =>
    simp only [step, loadSlot] at took
    split at took
    · next building =>
      cases took
      exact .slot building
    · cases took
  | loadActive i =>
    simp only [step, loadActive] at took
    split at took
    · next building =>
      cases took
      exact .active building
    · cases took
  | loadCount i =>
    simp only [step, loadCount] at took
    split at took
    · next building =>
      cases took
      exact .count building
    · cases took
  | loadDeadline i =>
    simp only [step, loadDeadline] at took
    split at took
    · next building =>
      cases took
      exact .sent building
    · cases took

/-! ## The holder of the claim -/

def turnHolder : Turn String → Option String
  | .free _ => none
  | .claimed client _ | .queued client _ | .serving client => some client

/-- The client whose claim stands is the one that has the turn. -/
theorem holder_follows {tasks after : Tasks} {turn : Turn String} {action : CoinTasks.Action}
    (refines : Refines address tasks turn) (took : CoinTasks.step address macAddress tasks action = some after) :
    ∃ turnAfter, run Turnstile.step turn (happening tasks action).toList = some turnAfter ∧
      Refines address after turnAfter ∧ holderAfter tasks (turnHolder turn) action = turnHolder turnAfter := by
  obtain ⟨turnAfter, ran, refinesAfter⟩ := step_refines refines took
  refine ⟨turnAfter, ran, refinesAfter, ?_⟩
  unfold holderAfter
  cases happened : happening tasks action with
  | none =>
    rw [happened, Option.toList_none, run_nil, Option.some.injEq] at ran
    rw [ran]
  | some event =>
    rw [happened, Option.toList_some, run_cons] at ran
    obtain ⟨next, moved, same⟩ := ran
    cases same
    cases event with
    | won | withdrawn | released | finished =>
      rcases turn with ⟨_ | _⟩ | ⟨_, _ | _⟩ | ⟨_, _ | _⟩ | _ <;> cases moved <;> rfl
    | posted | begun =>
      rcases turn with _ | _ | ⟨_, _ | _⟩ | _ <;> simp only [Turnstile.step, reduceCtorEq] at moved
      all_goals
        split at moved
        · next same =>
          cases moved
          rw [same]
          rfl
        · cases moved

/-! ## Accounts of the count -/

/-- Only the begin of a session and that of its finalizing change whose session is
    counted. -/
theorem countedAfter_kept {tasks : Tasks} {action : CoinTasks.Action} (counted : Option String)
    (other : action ≠ .beginFinalize) (unopened : ∀ client, happening tasks action ≠ some (.begun client)) :
    countedAfter tasks counted action = counted := by
  unfold countedAfter
  split
  · exact absurd rfl other
  · next begun => exact absurd begun (unopened _)
  · rfl

/-- While nobody's session is counted the count is 0. -/
def Accounted (tasks : Tasks) (counted : Option String) : Prop :=
  match tasks.sessionTask with
  | .receiving | .granting .. => counted = none ∧ tasks.coinCount = 0
  | .counting _ | .closing .. | .finalizing .. => counted ≠ none

theorem accounted_task {tasks after : Tasks} {counted : Option String} {action : CoinTasks.Action}
    (accounted : Accounted tasks counted) (took : CoinTasks.step address macAddress tasks action = some after) :
    Accounted after (countedAfter tasks counted action) := by
  cases CoinTasks.step_cases took with
  | pulse | receivePulse | diverted | inside | outside | suppressed | rejected | accepted | posted | dropped
  | rolledBack | loaded | swapped | unswapped => exact accounted
  | taken | won | started | refused =>
    rw [countedAfter_kept counted (by simp) fun client => by simp only [happening]; split <;> simp]
    exact accounted
  | opened free queued => simp [Accounted, countedAfter, happening, free, queued]
  | stray free queued other =>
    rw [countedAfter_kept counted (by simp) fun client => ?_]
    · exact accounted
    · simp only [happening, free]
      split
      · next begins =>
        rw [queued, List.cons.injEq] at begins
        exact absurd begins.1 (other _ _)
      · simp
  | counted counting | aborted counting | restarted counting =>
    rw [countedAfter_kept counted (by simp) fun client => by simp [happening, counting]]
    simpa [Accounted, counting] using accounted
  | timedOut counting => simpa [Accounted, counting, countedAfter, happening] using accounted
  | cleared closing => simpa [Accounted, closing, countedAfter, happening] using accounted
  | began => exact ⟨rfl, rfl⟩
  | finalized granting => simpa [Accounted, granting, countedAfter, happening] using accounted

theorem ownCount_of_accounted {recipient : String} (accounted : Accounted s.tasks s.counted)
    (own : s.counted = none ∨ s.counted = some (claimant recipient)) : OwnCount recipient s.tasks.coinCount s.counted := by
  refine own.imp_left fun nobody => ⟨nobody, ?_⟩
  unfold Accounted at accounted
  split at accounted
  · exact accounted.2
  · exact accounted.2
  · exact absurd nobody accounted
  · exact absurd nobody accounted
  · exact absurd nobody accounted

/-! ## Who is named while a status is built -/

theorem all_set {P : Build → Prop} {new : Build} (all : ∀ build ∈ builds, P build) (holds : P new) :
    ∀ build ∈ builds.set i new, P build := fun _ inside =>
  (List.mem_or_eq_of_mem_set inside).elim (all _) fun same => same ▸ holds

/-- The client has the claim, or the session that is counted. -/
def Named (s : Watched) (client : String) : Prop := s.holder = some client ∨ s.counted = some client

theorem countedAfter_some {tasks : Tasks} {counted : Option String} {action : CoinTasks.Action} {client : String}
    (counts : countedAfter tasks counted action = some client) :
    happening tasks action = some (.begun client) ∨
      counted = some client ∧ ∀ client, happening tasks action ≠ some (.begun client) := by
  unfold countedAfter at counts
  split at counts
  · cases counts
  · next begun => exact .inl (begun.trans (congrArg (some ∘ Event.begun) (Option.some.inj counts)))
  · next notBegun => exact .inr ⟨counts, notBegun⟩

/-- A session begins with the claim that is queued. -/
theorem begun_queued {turn after : Turn String} {client : String}
    (moved : Turnstile.step turn (.begun client) = some after) :
    turn = .queued client none ∧ after = .serving client := by
  rcases turn with _ | _ | ⟨holder, _ | _⟩ | _ <;> simp only [Turnstile.step, reduceCtorEq] at moved
  split at moved
  · next same =>
    cases moved
    exact ⟨congrArg (Turn.queued · none) same, rfl⟩
  · cases moved

/-- Only a claim that is won names another client. -/
theorem named_task {tasks after : Tasks} {turn : Turn String} {counted : Option String} {action : CoinTasks.Action}
    {client : String} (refines : Refines address tasks turn)
    (took : CoinTasks.step address macAddress tasks action = some after)
    (named : holderAfter tasks (turnHolder turn) action = some client ∨ countedAfter tasks counted action = some client) :
    turnHolder turn = some client ∨ counted = some client ∨ happening tasks action = some (.won client) := by
  obtain ⟨turnAfter, ran, -⟩ := step_refines refines took
  rcases named with held | counts
  · unfold holderAfter at held
    split at held
    · next won => exact .inr (.inr (won.trans (congrArg (some ∘ Event.won) (Option.some.inj held))))
    · cases held
    · cases held
    · exact .inl held
  · rcases countedAfter_some counts with begun | ⟨same, -⟩
    · rw [begun, Option.toList_some, run_cons] at ran
      obtain ⟨middle, moved, -⟩ := ran
      exact .inl ((begun_queued moved).1 ▸ rfl)
    · exact .inr (.inl same)

theorem finished_granting {tasks after : Tasks} {action : CoinTasks.Action}
    (took : CoinTasks.step address macAddress tasks action = some after)
    (finished : happening tasks action = some .finished) :
    ∃ fraudEnded coinCount nodes slot, tasks.sessionTask = .granting fraudEnded coinCount nodes slot := by
  cases action with
  | endFinalize =>
    cases CoinTasks.step_cases took with | finalized granting => exact ⟨_, _, _, _, granting⟩
  | tryClaim | postStart | receiveEvent =>
    simp only [happening] at finished
    split at finished <;> simp at finished
  | _ => cases finished

/-- The slot is of the client whose session is counted. -/
theorem counted_current {tasks after : Tasks} {turn turnAfter : Turn String} {counted : Option String}
    {action : CoinTasks.Action} {client : String} (accounted : Accounted tasks counted)
    (current : ∀ client, counted = some client → turn.current = some client)
    (took : CoinTasks.step address macAddress tasks action = some after)
    (ran : run Turnstile.step turn (happening tasks action).toList = some turnAfter)
    (counts : countedAfter tasks counted action = some client) : turnAfter.current = some client := by
  rcases countedAfter_some counts with begun | ⟨same, notBegun⟩
  · rw [begun, Option.toList_some, run_cons] at ran
    obtain ⟨middle, moved, same⟩ := ran
    cases same
    exact (begun_queued moved).2 ▸ rfl
  · have before := current client same
    cases happened : happening tasks action with
    | none =>
      rw [happened, Option.toList_none, run_nil, Option.some.injEq] at ran
      exact ran ▸ before
    | some event =>
      rw [happened, Option.toList_some, run_cons] at ran
      obtain ⟨middle, moved, ended⟩ := ran
      cases ended
      cases event with
      | begun client => exact absurd happened (notBegun client)
      | finished =>
        obtain ⟨_, _, _, _, granting⟩ := finished_granting took happened
        simp [Accounted, granting, same] at accounted
      | won | withdrawn | released =>
        rcases turn with ⟨_ | _⟩ | ⟨_, _ | _⟩ | ⟨_, _ | _⟩ | _ <;> cases moved <;> exact before
      | posted =>
        rcases turn with _ | _ | _ | _ <;> simp only [Turnstile.step, reduceCtorEq] at moved
        split at moved
        · cases moved
          exact before
        · cases moved

/-- Who has the claim and the count, and the statuses that have found their own address. -/
structure Tracked (address : IPAddress) (s : Watched) : Prop where
  accounted : Accounted s.tasks s.counted
  turn : ∃ turn, Refines address s.tasks turn ∧ s.holder = turnHolder turn ∧
    ∀ client, s.counted = some client → turn.current = some client
  written : ∀ client, Named s client → Written address client
  recipients : ∀ build ∈ s.builds, Written address build.recipient
  own : ∀ build ∈ s.builds, FoundOwn address build →
    coinIpToU32 address build.recipient = coinIpToU32 address build.clientIp ∧
      ∀ client, Named s client → coinIpToU32 address client = coinIpToU32 address build.clientIp

theorem tracked_initial : Tracked address watchedInitial where
  accounted := ⟨rfl, rfl⟩
  turn := ⟨_, refines_initial, rfl, nofun⟩
  written _ named := named.elim nofun nofun
  recipients := List.forall_mem_nil _
  own := List.forall_mem_nil _

/-- A load keeps the client that has the claim and the one that is counted. -/
theorem tracked_load {build : Build} (tracked : Tracked address s) (written : Written address build.recipient)
    (own : FoundOwn address build → coinIpToU32 address build.recipient = coinIpToU32 address build.clientIp ∧
      ∀ client, Named s client → coinIpToU32 address client = coinIpToU32 address build.clientIp) :
    Tracked address { s with builds := s.builds.set i build } where
  accounted := tracked.accounted
  turn := tracked.turn
  written := tracked.written
  recipients := all_set tracked.recipients written
  own := all_set tracked.own own

theorem tracked_asked (tracked : Tracked address s) (written : Written address build.recipient)
    (fresh : build.reading = .start) : Tracked address { s with builds := s.builds ++ [build] } where
  accounted := tracked.accounted
  turn := tracked.turn
  written := tracked.written
  recipients := List.forall_mem_append.mpr ⟨tracked.recipients, List.forall_mem_singleton.mpr written⟩
  own := by
    refine List.forall_mem_append.mpr ⟨tracked.own, List.forall_mem_singleton.mpr fun found => ?_⟩
    simp [FoundOwn, fresh] at found

theorem named_slot {client : String} (tracked : Tracked address s) (counts : s.counted = some client) :
    coinIpToU32 address client = s.tasks.coinSessionSlot.clientIpV4 := by
  obtain ⟨turn, refines, -, current⟩ := tracked.turn
  simp [refines.slot, current client counts]

theorem won_claim {tasks : Tasks} {action : CoinTasks.Action} {client : String}
    (won : happening tasks action = some (.won client)) :
    ∃ socketFd clientIp, action = .tryClaim false socketFd clientIp ∧ tasks.coinInsertActive = false ∧
      client = claimant clientIp := by
  cases action with
  | tryClaim bootTestRunning socketFd clientIp =>
    simp only [happening] at won
    split at won
    · cases won
    · next free =>
      simp only [not_or, Bool.not_eq_true] at free
      cases won
      exact ⟨socketFd, clientIp, by rw [free.1], free.2, rfl⟩
  | postStart =>
    simp only [happening] at won
    split at won <;> simp at won
  | receiveEvent =>
    simp only [happening] at won
    split at won <;> simp at won
  | _ => cases won

theorem tracked_task {tasks : Tasks} {action : CoinTasks.Action} (tracked : Tracked address s)
    (known : FromConnections address (.task action)) (permitted : Undisturbed address s (.task action))
    (took : CoinTasks.step address macAddress s.tasks action = some tasks) :
    Tracked address { s with
      tasks := tasks
      holder := holderAfter s.tasks s.holder action
      counted := countedAfter s.tasks s.counted action } := by
  obtain ⟨turn, refines, held, current⟩ := tracked.turn
  obtain ⟨turnAfter, ran, refinesAfter, follows⟩ := holder_follows refines took
  have same : ∀ client, Named { s with
      tasks := tasks
      holder := holderAfter s.tasks s.holder action
      counted := countedAfter s.tasks s.counted action } client →
        Named s client ∨ happening s.tasks action = some (.won client) := by
    intro client named
    unfold Named at named ⊢
    rw [held] at named ⊢
    exact (named_task refines took named).elim (fun held => .inl (.inl held)) (Or.imp_left .inr)
  refine
    { accounted := accounted_task tracked.accounted took
      turn := ⟨turnAfter, refinesAfter, held ▸ follows, fun _ => counted_current tracked.accounted current took ran⟩
      written := fun client named => ?_
      recipients := tracked.recipients
      own := fun build inside found => ⟨(tracked.own build inside found).1, fun client named => ?_⟩ }
  · rcases same client named with before | won
    · exact tracked.written client before
    · obtain ⟨socketFd, clientIp, rfl, -, rfl⟩ := won_claim won
      rw [known.1]
      exact known
  · rcases same client named with before | won
    · exact (tracked.own build inside found).2 client before
    · obtain ⟨socketFd, clientIp, rfl, free, rfl⟩ := won_claim won
      exact permitted rfl free build inside found

theorem found_active {clientIp recipient : String} {slot : CoinSessionSlot} {accepting : Bool} {heldBy : Option String} :
    FoundOwn address ⟨clientIp, recipient, .active slot accepting heldBy⟩ ↔
      accepting = true ∧ coinIpToU32 address clientIp = slot.clientIpV4 := by
  cases accepting <;> simp [FoundOwn]

theorem tracked_step (tracked : Tracked address s) (known : FromConnections address action)
    (permitted : Undisturbed address s action) (took : step address macAddress s action = some next) :
    Tracked address next := by
  cases step_cases took with
  | task moved => exact tracked_task tracked known permitted moved
  | asked | pushed => exact tracked_asked tracked known rfl
  | @slot i clientIp recipient building =>
    have written := tracked.recipients _ (List.mem_of_getElem? building)
    refine tracked_load tracked written fun found => ?_
    obtain ⟨recipients, holders⟩ := permitted _ building found
    refine ⟨recipients, fun client named => named.elim (holders client) fun counts => ?_⟩
    exact (named_slot tracked counts).trans found.symm
  | @active i clientIp recipient slot building =>
    have inside := List.mem_of_getElem? building
    have written : Written address recipient := tracked.recipients _ inside
    refine tracked_load tracked written fun found => ?_
    exact tracked.own ⟨clientIp, recipient, .slot slot⟩ inside (found_active.mp found).2
  | @count i clientIp recipient slot accepting heldBy building =>
    have written : Written address recipient := tracked.recipients _ (List.mem_of_getElem? building)
    exact tracked_load tracked written False.elim
  | sent =>
    exact
      { accounted := tracked.accounted
        turn := tracked.turn
        written := tracked.written
        recipients := fun build inside => tracked.recipients build (List.mem_of_mem_eraseIdx inside)
        own := fun build inside => tracked.own build (List.mem_of_mem_eraseIdx inside) }

/-! ## Clean statuses -/

/-- What was sent shows the window of its client, and what is being built will. -/
structure AllClean (address : IPAddress) (s : Watched) : Prop where
  reports : AllOwned address s
  builds : ∀ build ∈ s.builds, Clean address build

theorem written_same {client recipient : String} (written : Written address client)
    (other : Written address recipient) (same : coinIpToU32 address client = coinIpToU32 address recipient) :
    client = claimant recipient := by
  rw [other.1, ← written.2, same, other.2]

/-- Whoever is named while a status has found its own address is the client it goes to. -/
theorem named_recipient {client : String} (tracked : Tracked address s) (inside : build ∈ s.builds)
    (found : FoundOwn address build) (named : Named s client) : client = claimant build.recipient := by
  obtain ⟨recipients, all⟩ := tracked.own build inside found
  exact written_same (tracked.written client named) (tracked.recipients build inside)
    ((all client named).trans recipients.symm)

theorem holder_active (tracked : Tracked address s) : s.holder.isSome = s.tasks.coinInsertActive := by
  obtain ⟨turn, refines, held, -⟩ := tracked.turn
  rw [held, refines.active]
  cases turn <;> rfl

theorem clean_step (tracked : Tracked address s) (clean : AllClean address s)
    (took : step address macAddress s action = some next) : AllClean address next := by
  cases step_cases took with
  | task => exact ⟨clean.reports, clean.builds⟩
  | asked | pushed =>
    refine ⟨clean.reports, List.forall_mem_append.mpr ⟨clean.builds, ?_⟩⟩
    exact List.forall_mem_singleton.mpr trivial
  | slot building => exact ⟨clean.reports, all_set clean.builds trivial⟩
  | active building =>
    refine ⟨clean.reports, all_set clean.builds fun accepting own => ?_⟩
    obtain ⟨holder, held⟩ := Option.isSome_iff_exists.mp ((holder_active tracked).trans accepting)
    have same := named_recipient tracked (List.mem_of_getElem? building) own (.inl held)
    exact held.trans (congrArg some same)
  | count building =>
    have inside := List.mem_of_getElem? building
    refine ⟨clean.reports, all_set clean.builds fun accepting own => ⟨clean.builds _ inside accepting own, ?_⟩⟩
    refine ownCount_of_accounted tracked.accounted ?_
    cases counts : s.counted with
    | none => exact .inl rfl
    | some client =>
      have same := named_recipient tracked inside (found_active.mpr ⟨accepting, own⟩) (.inr counts)
      exact .inr (congrArg some same)
  | sent building =>
    refine ⟨List.forall_mem_append.mpr ⟨clean.reports, ?_⟩, fun build inside => ?_⟩
    · refine List.forall_mem_singleton.mpr fun active => ?_
      exact clean.builds _ (List.mem_of_getElem? building) active.1 active.2
    · exact clean.builds build (List.mem_of_mem_eraseIdx inside)

theorem clean_initial : AllClean address watchedInitial where
  reports := List.forall_mem_nil _
  builds := List.forall_mem_nil _

/-- In every interleaving in which no status finds its own address while another client's claim
    stands, and no other client wins the slot before that status has read the count, every
    status that shows the window as active goes to the client that holds the claim, and
    carries the flag and the count of that client's session. -/
theorem statuses_owned {actions : List Action} (known : ∀ action ∈ actions, FromConnections address action)
    (undisturbed : Throughout (step address macAddress) (Undisturbed address) watchedInitial actions) :
    Always (step address macAddress) (AllOwned address) watchedInitial actions := by
  have both := throughout_always
    (fun s action next (holds : Tracked address s ∧ AllClean address s)
        (permitted : FromConnections address action ∧ Undisturbed address s action) took =>
      ⟨tracked_step holds.1 permitted.1 permitted.2 took, clean_step holds.1 holds.2 took⟩)
    ⟨tracked_initial, clean_initial⟩ (throughout_and.mpr ⟨throughout_all known, undisturbed⟩)
  exact always_mono (fun _ holds => holds.2.reports) both

/-- What a status reads when nothing comes between is what the handlers answer. -/
theorem status_uninterrupted (s : Watched) (client : String) :
    ∃ report, run (step address macAddress) s
        [.request client, .loadSlot s.builds.length, .loadActive s.builds.length, .loadCount s.builds.length,
          .loadDeadline s.builds.length] = some { s with reports := s.reports ++ [report] } ∧
      report.recipient = client ∧
      ∀ config around type session, session.clientIp = client →
        let shown := Portal.buildStatus address config around type session s.tasks
        shown.coinCount = report.status.coinCount address client ∧
          shown.coinInsertTimeLeft = report.status.coinInsertTimeLeft address client around.millis := by
  refine ⟨{
    clientIp := client
    recipient := client
    heldBy := s.holder
    countOf := s.counted
    status :=
      { accepting := s.tasks.coinInsertActive
        count := s.tasks.coinCount
        socketFd := s.tasks.coinSessionSlot.socketFd
        clientIpV4 := s.tasks.coinSessionSlot.clientIpV4
        deadlineMs := s.tasks.coinDeadlineMillis } }, ?_, rfl, ?_⟩
  · simp [run, step, loadSlot, loadActive, loadCount, loadDeadline, List.eraseIdx_append_of_length_le]
  · rintro config around type session rfl
    exact ⟨rfl, rfl⟩

end

/-! ## A claim while the session before it is being finalized -/

def requested (client : String) (build : Nat) : List Action :=
  [.request client, .loadSlot build, .loadActive build, .loadCount build, .loadDeadline build]

/-- The second client asks while the first one's window is open, and claims as soon as it is over. -/
def twoWindows : List Action :=
  (windowStart 7 "10.0.0.5" 0 ++ handled 5000 600).map .task ++
    [.task .postEvent, .task (.receiveEvent 600), .push "10.0.0.5", .loadSlot 0, .request "10.0.0.6", .loadActive 0,
      .loadSlot 1, .loadCount 0, .loadActive 1, .loadDeadline 0, .task .timeout, .task .clearActive,
      .task (.tryClaim false 8 "10.0.0.6"), .loadCount 0, .loadDeadline 0]

theorem statuses_owned_two_windows :
    Always (step dottedQuad "AA") (AllOwned dottedQuad) watchedInitial twoWindows :=
  statuses_owned (by decide +kernel) (by decide +kernel)

/-- The first client's window is over; the second one's claim stands while the slot and
    the count are still the first one's. -/
def lateStatus : List Action :=
  (windowStart 7 "10.0.0.5" 0 ++ handled 5000 600).map .task ++
    [.task .postEvent, .task (.receiveEvent 600), .task .timeout, .task .clearActive,
      .task (.tryClaim false 8 "10.0.0.6")] ++ requested "10.0.0.5" 0

/-- The first client is shown the second one's window, with its own coin. -/
theorem late_status_shown :
    ∃ s, run (step dottedQuad "AA") watchedInitial lateStatus = some s ∧ s.holder = some "10.0.0.6" ∧
      (∃ report ∈ s.reports, report.recipient = "10.0.0.5" ∧
        report.status.MyCoinInsertActive dottedQuad report.clientIp ∧ report.status.count = 1 ∧
          report.heldBy = some "10.0.0.6") ∧
      ¬ AllOwned dottedQuad s := by
  have ends : (run (step dottedQuad "AA") watchedInitial lateStatus).map (fun s => (s.holder, s.reports)) =
      some (some "10.0.0.6", [{
        clientIp := "10.0.0.5"
        recipient := "10.0.0.5"
        heldBy := some "10.0.0.6"
        countOf := some "10.0.0.5"
        status := { accepting := true, count := 1, socketFd := 7, clientIpV4 := 0x0500000A, deadlineMs := 10600 } }]) := by
    decide +kernel
  obtain ⟨s, ran, same⟩ := Option.map_eq_some_iff.mp ends
  obtain ⟨held, sent⟩ := Prod.mk.inj same
  have shown : CoinSessionStatus.MyCoinInsertActive dottedQuad
      { accepting := true, count := 1, socketFd := 7, clientIpV4 := 0x0500000A, deadlineMs := 10600 } "10.0.0.5" := by
    decide +kernel
  refine ⟨s, ran, held, ⟨_, by rw [sent]; exact List.mem_cons_self, rfl, shown, rfl, rfl⟩, fun owned => ?_⟩
  have own := (owned _ (by rw [sent]; exact List.mem_cons_self) shown).1
  exact absurd own (by decide +kernel)

end EllaFi.CoinStatus
