import EllaFi.Runs
import EllaFi.Startup

/-!
The order of `setup`. Interrupts, request handlers and tasks run as soon as they are
attached or created, while `setup` still creates the handles that they use. All they
use is created before, with three exceptions: the interrupts of the coin lines are
attached before the queue for the pulses is created, the web server is started before
the mutex of the credentials is, and the task of the coin session before the task that
it notifies. So no handle is used before it is created exactly when no pulse ends, no
handler takes the mutex, and no session notifies the task, in the time between
(`boot_safe_iff`).
-/
namespace EllaFi.BootOrder
open EllaFi.Runs (Throughout throughout_iff)
open EllaFi.Startup

/-! ## Setup -/

/-- The handles of mutexes, queues and tasks. One that every use checks for null, or
    creates where it is null, is left out. -/
inductive Handle where
  | ledTask
  | nodeMapMutex
  | udpSocketMutex
  | webSocketJobQueue
  | coinPulseQueue
  | coinSessionQueue
  | credsMutex
  | updateClientTask
deriving DecidableEq, Repr

inductive Line where
  | button
  | slot
deriving DecidableEq, Repr

/-- What runs besides `setup`. -/
inductive Activity where
  | interrupt (line : Line)
  | web
  | coinPulseTask
  | coinSessionTask
  | webSocketTask
deriving DecidableEq, Repr

/-- How a boot goes. -/
structure World where
  isMaster : Bool
  wifiConnects : Bool
  sitesLoad : Bool
deriving DecidableEq, Repr

section
variable (world : World)

def setupLed : List (Op Handle Activity) := [.creates .ledTask]

def setupPins : List (Op Handle Activity) := [.enables (.interrupt .button), .enables (.interrupt .slot)]

/-- Only the button's interrupt is detached; the recovery never returns. -/
def runWifiRecovery : List (Op Handle Activity) := [.disables (.interrupt .button)]

def setupNetwork : List (Op Handle Activity) := [.creates .nodeMapMutex, .creates .udpSocketMutex]

def setupQueues : List (Op Handle Activity) :=
  [.creates .webSocketJobQueue, .creates .coinPulseQueue] ++ if world.isMaster then [.creates .coinSessionQueue] else []

def setupWeb : List (Op Handle Activity) := [.enables .web]

/-- The login for the sites, and for the sessions when there are any. -/
def setupOmada : List (Op Handle Activity) :=
  [.creates .credsMutex, .uses .credsMutex] ++ if world.sitesLoad then [.uses .credsMutex] else []

def setupTasks : List (Op Handle Activity) :=
  [.enables .coinPulseTask] ++
    if world.isMaster then [.enables .coinSessionTask, .enables .webSocketTask, .creates .updateClientTask] else []

def logResources : List (Op Handle Activity) := [.uses .webSocketJobQueue]

def setup : List (Op Handle Activity) :=
  setupLed ++ setupPins ++
    if world.wifiConnects then
      setupNetwork ++ setupQueues world ++ (if world.isMaster then setupWeb ++ setupOmada world else []) ++
        setupTasks world ++ logResources
    else runWifiRecovery

end

/-! ## Handlers and tasks -/

/-- The requests and frames whose handlers use a handle; that of a claim is apart. -/
inductive Route where
  | adminNodes
  | adminRecheck
  | diagHammer
  | adminSales
  | adminStatement
  | adminLeaderboard
  | adminSellers
  | adminVouchers
  | adminRebootAll
  | wsPause
  | wsResume
  | wsTestInsertCoin
deriving DecidableEq, Repr

/-- What a handler may use, in the functions that it calls too. -/
def handlerUses : Route → List Handle
  | .adminNodes => [.credsMutex, .nodeMapMutex]
  | .adminRecheck => [.webSocketJobQueue]
  | .diagHammer => [.webSocketJobQueue, .credsMutex]
  | .adminSales => [.credsMutex]
  | .adminStatement => [.credsMutex]
  | .adminLeaderboard => [.credsMutex]
  | .adminSellers => [.credsMutex]
  | .adminVouchers => [.credsMutex]
  | .adminRebootAll => [.udpSocketMutex]
  | .wsPause => [.webSocketJobQueue]
  | .wsResume => [.webSocketJobQueue]
  | .wsTestInsertCoin => [.coinPulseQueue]

/-- A pulse goes on to the session, or to the master. -/
def coinPulseTaskUses (world : World) : List Handle :=
  [.coinPulseQueue, if world.isMaster then .coinSessionQueue else .udpSocketMutex]

def webSocketTaskUses : List Handle := [.webSocketJobQueue, .credsMutex]

/-- What `coinSessionTask` does at the start of a session. -/
def sessionStart : List Handle := [.ledTask, .udpSocketMutex, .updateClientTask]

/-- And at its end, when there are coins to be accounted for or not. -/
def finalizeSession (coins : Bool) : List Handle :=
  [.ledTask, .udpSocketMutex] ++ if coins then [.credsMutex, .webSocketJobQueue] else []

/-! ## Boots -/

structure Boot where
  world : World
  setup : Progress Handle Activity
  /-- The lines with a falling edge that was taken and no rising one since. -/
  fell : List Line
  /-- `COIN_INSERT_ACTIVE`. -/
  coinInsertActive : Bool
  /-- A START waits in the queue of `coinSessionTask`. -/
  startQueued : Bool
  inSession : Bool
  /-- What `coinSessionTask` is about to use. -/
  pending : List Handle
deriving DecidableEq, Repr

def powerOn (world : World) : Boot where
  world
  setup := begin_ (setup world)
  fell := []
  coinInsertActive := false
  startQueued := false
  inSession := false
  pending := []

/-- Every use of a handle is an action of its own, as anything may come between two of
    them. -/
inductive Action where
  | setup
  /-- A falling edge; `taken` if it is not within the button's debounce time. -/
  | falling (line : Line) (taken : Bool)
  | rising (line : Line)
  /-- The handler of a request uses a handle. -/
  | request (route : Route) (handle : Handle)
  /-- The frame `startCoinInsert`, with the answer of `isServiceReady`. -/
  | claim (isServiceReady : Bool)
  | coinPulse (handle : Handle)
  | webSocket (handle : Handle)
  /-- `coinSessionTask` takes an event that it drops or ignores. -/
  | stray
  | takeStart
  | takeCoin
  | finish (coins : Bool)
  /-- `coinSessionTask` goes on to its next use. -/
  | sessionUse
deriving DecidableEq, Repr

/-- Whether what an action stands for is live at all. -/
def Possible (boot : Boot) : Action → Prop
  | .setup => boot.setup.todo ≠ []
  | .falling line _ => .interrupt line ∈ boot.setup.live
  | .rising line => .interrupt line ∈ boot.setup.live
  | .request route handle => .web ∈ boot.setup.live ∧ handle ∈ handlerUses route
  | .claim _ => .web ∈ boot.setup.live
  | .coinPulse handle => .coinPulseTask ∈ boot.setup.live ∧ handle ∈ coinPulseTaskUses boot.world
  | .webSocket handle => .webSocketTask ∈ boot.setup.live ∧ handle ∈ webSocketTaskUses
  | .stray => .coinSessionTask ∈ boot.setup.live ∧ boot.pending = []
  | .takeStart => .coinSessionTask ∈ boot.setup.live ∧ boot.pending = [] ∧ boot.inSession = false ∧ boot.startQueued = true
  | .takeCoin => .coinSessionTask ∈ boot.setup.live ∧ boot.pending = [] ∧ boot.inSession = true
  | .finish _ => .coinSessionTask ∈ boot.setup.live ∧ boot.pending = [] ∧ boot.inSession = true
  | .sessionUse => .coinSessionTask ∈ boot.setup.live ∧ boot.pending ≠ []

instance : ∀ (boot : Boot) (action : Action), Decidable (Possible boot action)
  | _, .setup => inferInstanceAs (Decidable (_ ≠ _))
  | _, .falling _ _ => inferInstanceAs (Decidable (_ ∈ _))
  | _, .rising _ => inferInstanceAs (Decidable (_ ∈ _))
  | _, .request _ _ => inferInstanceAs (Decidable (_ ∧ _))
  | _, .claim _ => inferInstanceAs (Decidable (_ ∈ _))
  | _, .coinPulse _ => inferInstanceAs (Decidable (_ ∧ _))
  | _, .webSocket _ => inferInstanceAs (Decidable (_ ∧ _))
  | _, .stray => inferInstanceAs (Decidable (_ ∧ _))
  | _, .takeStart => inferInstanceAs (Decidable (_ ∧ _))
  | _, .takeCoin => inferInstanceAs (Decidable (_ ∧ _))
  | _, .finish _ => inferInstanceAs (Decidable (_ ∧ _))
  | _, .sessionUse => inferInstanceAs (Decidable (_ ∧ _))

/-- What an action uses. -/
def uses (boot : Boot) : Action → List Handle
  | .setup => nextUse boot.setup
  | .falling _ _ => []
  | .rising line => if line ∈ boot.fell then [.coinPulseQueue] else []
  | .request _ handle => [handle]
  | .claim isServiceReady => if isServiceReady ∧ ¬ boot.coinInsertActive then [.coinSessionQueue] else []
  | .coinPulse handle => [handle]
  | .webSocket handle => [handle]
  | .stray => [.coinSessionQueue]
  | .takeStart => [.coinSessionQueue]
  | .takeCoin => [.coinSessionQueue]
  | .finish _ => [.coinSessionQueue]
  | .sessionUse => boot.pending.take 1

def act (boot : Boot) : Action → Boot
  | .setup => { boot with setup := (advance boot.setup).getD boot.setup }
  | .falling line taken => if taken then { boot with fell := line :: boot.fell } else boot
  | .rising line => { boot with fell := boot.fell.filter (· ≠ line) }
  | .request _ _ => boot
  | .claim isServiceReady =>
    if isServiceReady ∧ ¬ boot.coinInsertActive then { boot with coinInsertActive := true, startQueued := true } else boot
  | .coinPulse _ => boot
  | .webSocket _ => boot
  | .stray => boot
  | .takeStart => { boot with startQueued := false, inSession := true, pending := sessionStart }
  | .takeCoin => { boot with pending := [.updateClientTask] }
  | .finish coins => { boot with coinInsertActive := false, inSession := false, pending := finalizeSession coins }
  | .sessionUse => { boot with pending := boot.pending.drop 1 }

def step (boot : Boot) (action : Action) : Option Boot := if Possible boot action then some (act boot action) else none

/-! ## Safety -/

/-- An action that happens uses only handles that are created. -/
def Safe (boot : Boot) (action : Action) : Prop :=
  Possible boot action → ∀ handle ∈ uses boot action, handle ∈ boot.setup.created

instance (boot : Boot) (action : Action) : Decidable (Safe boot action) := inferInstanceAs (Decidable (_ → _))

/-- What happens too early: a pulse that ends before its queue is created, a handler that
    takes the mutex of the credentials before it is, and a session that notifies
    `updateClientTask` before it is. -/
def Early (boot : Boot) : Action → Prop
  | .rising line => .interrupt line ∈ boot.setup.live ∧ line ∈ boot.fell ∧ .coinPulseQueue ∉ boot.setup.created
  | .request route handle =>
    .web ∈ boot.setup.live ∧ handle ∈ handlerUses route ∧ handle = .credsMutex ∧ .credsMutex ∉ boot.setup.created
  | .sessionUse =>
    .coinSessionTask ∈ boot.setup.live ∧ boot.pending.head? = some .updateClientTask ∧
      .updateClientTask ∉ boot.setup.created
  | _ => False

/-! ## What is created in time -/

def webNeeds : List Handle := [.nodeMapMutex, .udpSocketMutex, .webSocketJobQueue, .coinPulseQueue, .coinSessionQueue]

def sessionNeeds : List Handle := [.coinSessionQueue, .ledTask, .udpSocketMutex, .credsMutex, .webSocketJobQueue]

/-- What an activity uses, but for what is created after it. -/
def needs (world : World) : Activity → List Handle
  | .interrupt _ => []
  | .web => webNeeds
  | .coinPulseTask => coinPulseTaskUses world
  | .coinSessionTask => sessionNeeds
  | .webSocketTask => webSocketTaskUses

theorem setup_ordered (world : World) : Ordered (needs world) [] (setup world) := by
  obtain ⟨isMaster, wifiConnects, sitesLoad⟩ := world
  revert isMaster wifiConnects sitesLoad
  decide

structure Sound (boot : Boot) : Prop where
  provided : Provided (needs boot.world) boot.setup
  pending : ∀ handle ∈ boot.pending, handle = .updateClientTask ∨ handle ∈ sessionNeeds

section
variable {boot next : Boot} {action : Action}

theorem sound_powerOn (world : World) : Sound (powerOn world) := ⟨provided_begin (setup_ordered world), by simp [powerOn]⟩

theorem sessionStart_needs : ∀ handle ∈ sessionStart, handle = .updateClientTask ∨ handle ∈ sessionNeeds := by decide

theorem finalizeSession_needs :
    ∀ coins, ∀ handle ∈ finalizeSession coins, handle = .updateClientTask ∨ handle ∈ sessionNeeds := by decide

theorem handlerUses_needs (route : Route) : ∀ handle ∈ handlerUses route, handle = .credsMutex ∨ handle ∈ webNeeds := by
  cases route <;> decide

theorem sound_act (sound : Sound boot) (possible : Possible boot action) : Sound (act boot action) := by
  cases action with
  | setup =>
    refine ⟨?_, sound.pending⟩
    cases taken : advance boot.setup with
    | none => simpa [act, taken] using sound.provided
    | some later => simpa [act, taken] using provided_advance sound.provided taken
  | falling line taken =>
    cases taken with
    | true => exact ⟨sound.provided, sound.pending⟩
    | false => exact sound
  | claim isServiceReady =>
    simp only [act]
    split
    · exact ⟨sound.provided, sound.pending⟩
    · exact sound
  | rising line => exact ⟨sound.provided, sound.pending⟩
  | request route handle => exact sound
  | coinPulse handle => exact sound
  | webSocket handle => exact sound
  | stray => exact sound
  | takeStart => exact ⟨sound.provided, sessionStart_needs⟩
  | takeCoin => exact ⟨sound.provided, fun handle inside => .inl (List.mem_singleton.mp inside)⟩
  | finish coins => exact ⟨sound.provided, finalizeSession_needs coins⟩
  | sessionUse => exact ⟨sound.provided, fun handle inside => sound.pending handle (List.mem_of_mem_drop inside)⟩

theorem sound_step (sound : Sound boot) (taken : step boot action = some next) : Sound next := by
  unfold step at taken
  split at taken
  · next possible =>
    cases taken
    exact sound_act sound possible
  · cases taken

/-- A live activity uses only what is created, if it is among its needs. -/
theorem created_of_live (sound : Sound boot) {activity : Activity} (live : activity ∈ boot.setup.live) {handle : Handle}
    (needed : handle ∈ needs boot.world activity) : handle ∈ boot.setup.created :=
  sound.provided.live activity live handle needed

theorem queue_created (sound : Sound boot) (live : .coinSessionTask ∈ boot.setup.live) :
    ∀ handle ∈ [Handle.coinSessionQueue], handle ∈ boot.setup.created := by
  intro handle used
  rw [List.mem_singleton.mp used]
  have needed : .coinSessionQueue ∈ sessionNeeds := by decide
  exact created_of_live sound live needed

/-- A request is safe unless its handler takes the mutex of the credentials. -/
theorem request_safe_iff (sound : Sound boot) {route : Route} {handle : Handle} :
    Safe boot (.request route handle) ↔ ¬ Early boot (.request route handle) := by
  constructor
  · rintro safe ⟨live, used, rfl, uncreated⟩
    exact uncreated (safe ⟨live, used⟩ .credsMutex (List.mem_singleton.mpr rfl))
  · rintro notEarly ⟨live, used⟩ other isHandle
    rw [List.mem_singleton.mp isHandle]
    rcases handlerUses_needs route handle used with rfl | needed
    · by_contra uncreated
      exact notEarly ⟨live, used, rfl, uncreated⟩
    · exact created_of_live sound live needed

theorem rising_safe_iff {line : Line} : Safe boot (.rising line) ↔ ¬ Early boot (.rising line) := by
  by_cases fell : line ∈ boot.fell
  · simp [Safe, Early, Possible, uses, fell]
  · simp [Safe, Early, Possible, uses, fell]

/-- A use of `coinSessionTask` is safe unless it is the notification. -/
theorem sessionUse_safe_iff (sound : Sound boot) : Safe boot .sessionUse ↔ ¬ Early boot .sessionUse := by
  have pending := sound.pending
  cases waiting : boot.pending with
  | nil => simp [Safe, Early, Possible, waiting]
  | cons first rest =>
    rw [waiting] at pending
    simp only [Safe, Early, Possible, uses, waiting, List.take_succ_cons, List.take_zero, List.mem_singleton,
      forall_eq, List.head?_cons, Option.some.injEq, ne_eq, reduceCtorEq, not_false_eq_true, and_true]
    rcases pending first List.mem_cons_self with rfl | needed
    · simp
    · refine iff_of_true (fun live => created_of_live sound live needed) ?_
      rintro ⟨live, rfl, uncreated⟩
      exact absurd needed (by decide)

theorem safe_iff (sound : Sound boot) : Safe boot action ↔ ¬ Early boot action := by
  cases action with
  | rising line => exact rising_safe_iff
  | request route handle => exact request_safe_iff sound
  | sessionUse => exact sessionUse_safe_iff sound
  | setup => exact iff_of_true (fun _ => nextUse_created sound.provided) id
  | falling line taken => exact iff_of_true (fun _ handle used => absurd used List.not_mem_nil) id
  | claim isServiceReady =>
    refine iff_of_true (fun live handle used => ?_) id
    simp only [uses] at used
    split at used
    · rw [List.mem_singleton.mp used]
      have needed : .coinSessionQueue ∈ webNeeds := by decide
      exact created_of_live sound live needed
    · exact absurd used List.not_mem_nil
  | coinPulse handle =>
    refine iff_of_true (fun possible other used => ?_) id
    rw [List.mem_singleton.mp used]
    exact created_of_live sound possible.1 possible.2
  | webSocket handle =>
    refine iff_of_true (fun possible other used => ?_) id
    rw [List.mem_singleton.mp used]
    exact created_of_live sound possible.1 possible.2
  | stray => exact iff_of_true (fun possible => queue_created sound possible.1) id
  | takeStart => exact iff_of_true (fun possible => queue_created sound possible.1) id
  | takeCoin => exact iff_of_true (fun possible => queue_created sound possible.1) id
  | finish coins => exact iff_of_true (fun possible => queue_created sound possible.1) id

end

/-- At every moment of a boot, however it goes and in whatever order edges, requests and
    tasks come, only handles that are created are used, if and only if nothing comes too
    early. -/
theorem boot_safe_iff (world : World) (actions : List Action) :
    Throughout step Safe (powerOn world) actions ↔
      Throughout step (fun boot action => ¬ Early boot action) (powerOn world) actions :=
  throughout_iff (fun _ _ _ sound taken => sound_step sound taken) (fun _ _ sound => safe_iff sound) (sound_powerOn world)

/-! ## Early uses -/

def master : World := { isMaster := true, wifiConnects := true, sitesLoad := true }

/-- A coin while the device connects to the network. -/
def earlyCoin : List Action := List.replicate 3 .setup ++ [.falling .slot true, .rising .slot]

/-- A request between the start of the server and the first line of `setupOmada`. -/
def earlyRequest : List Action := List.replicate 9 .setup ++ [.request .adminNodes .credsMutex]

/-- A claim before `setupTasks`, which `coinSessionTask` takes at once. -/
def earlyClaim : List Action :=
  List.replicate 12 .setup ++ [.claim true, .setup, .setup, .takeStart, .sessionUse, .sessionUse, .sessionUse]

def withoutWifi : World := { isMaster := true, wifiConnects := false, sitesLoad := false }

/-- A coin during the recovery, in which only the button is detached. -/
def recoveryCoin : List Action := List.replicate 4 .setup ++ [.falling .slot true, .rising .slot]

theorem early_uses :
    ¬ Throughout step Safe (powerOn master) earlyCoin ∧ ¬ Throughout step Safe (powerOn master) earlyRequest ∧
      ¬ Throughout step Safe (powerOn master) earlyClaim ∧ ¬ Throughout step Safe (powerOn withoutWifi) recoveryCoin := by
  decide +kernel

end EllaFi.BootOrder
