import EllaFi.CrashPoints
import EllaFi.Serial
import Mathlib.Data.List.Permutation

/-!
The operations on one client's session as they interleave. The coin task, the
WebSocket task and the loop each read the client's entry, make a call to the
controller and write back what they make of its reply; another task can run while
a request is on its way and while its reply is (`program`; uninterrupted, the
programs are the jobs, `finalize_run`, `pause_run`, `resume_run`, `refresh_run`).
An interleaving leaves the identifier, the ends and the paused time of some serial
order when no call takes effect, and no fetched list is written, on the strength of
something that is no longer so, or between the effect of another call and its
write-back (`sessions_serializable`). A refresh that was fetched before an
extension and is written after it takes the minutes back (`stale_refresh_written`).
-/
namespace EllaFi.SessionOps
open EllaFi.Session EllaFi.Cache EllaFi.Coins EllaFi.Files EllaFi.Omada EllaFi.Refresh EllaFi.Finalize
open EllaFi.PauseResume EllaFi.Steps
open EllaFi.Runs (run Throughout)
open EllaFi.Serial (Program Tail State step start serial Undisturbed Reads serial_of_undisturbed)

/-- The client's entry and the controller. -/
structure Client (issuer : Issuer) where
  session : SessionParams
  controller : Controller issuer

/-- How a call goes, and what the clocks show: the unit's when the operation begins
    and when the reply is read, the controller's when the request arrives. -/
structure Call where
  link : Link
  begins : Nat
  arrives : Nat
  replied : Nat

/-- What the two fetches of a refresh bring, and the unit's clock when it merges
    them. -/
structure Fetches where
  hotspotArrives : Bool
  allClients : List WifiClient
  clock : Nat

inductive Operation where
  | finalize (call : Call) (coinCount : Nat)
  | pause (call : Call) (saveOpens : Bool)
  | resume (call : Call) (fetches : Fetches)
  | refresh (fetches : Fetches)

section
variable {issuer : Issuer}

/-- The entry after a refresh: the client's merged record, if there is one, is
    written to it. -/
def refreshSession (clock : Nat) (hotspotClients : List HotspotClient) (allClients : List WifiClient)
    (s : SessionParams) : SessionParams :=
  match (mergeClientLists hotspotClients allClients (nowEpochMillis clock)).find? fun client => client.mac = s.clientMac with
  | none => s
  | some client =>
    (refreshed client).apply (if asString client.ip = "" then s else { s with clientIp := asString client.ip })

def send (clock : Nat) (request : Request) (client : Client issuer) : Client issuer :=
  { client with controller := (handle clock client.controller request).2 }

def assign (write : SessionParams → SessionParams) (client : Client issuer) : Client issuer :=
  { client with session := write client.session }

/-- The request is made of the entry as it is then, and an accepted one goes on. -/
def callProgram (call : Call) (request : SessionParams → Request) (accepted : Tail (Client issuer)) :
    Program (Client issuer) :=
  .read fun client =>
    let sent := request client.session
    match call.link with
    | .loginFailed _ | .unreachable _ => .done
    | .replyLost _ => .commit (send call.arrives sent) fun _ => .done
    | .up => .commit (send call.arrives sent) fun client =>
      if (handle call.arrives client.controller sent).1.errorCode = 0 then accepted else .done

def fetched (fetches : Fetches) (client : Client issuer) : List HotspotClient :=
  if fetches.hotspotArrives then client.controller.hotspotSessions else []

def refreshTail (fetches : Fetches) : Tail (Client issuer) :=
  .step id fun client =>
    .step (assign (refreshSession fetches.clock (fetched fetches client) fetches.allClients)) fun _ => .done

variable (config : Config)

def program : Operation → Program (Client issuer)
  | .finalize call coinCount =>
    .read fun client =>
      let additionalMillis := coinMillis config coinCount
      if coinCount = 0 then .done
      else if Extends call.begins client.session then
        callProgram call (fun session => .extend session.clientId additionalMillis)
          (.step (assign (extended additionalMillis).apply) fun _ => .done)
      else
        callProgram call (fun session => .auth (authRequest config session additionalMillis))
          (.step (assign (authenticated (nowEpochMillis call.replied) additionalMillis).apply) fun _ => .done)
  | .pause call saveOpens =>
    .read fun client =>
      if client.session.sessionEndMillis = 0 ∨ client.session.clientId = "" then .done
      else if client.session.sessionEndMillis ≤ nowEpochMillis call.begins then .done
      else
        let remaining := toUnsignedLong (client.session.sessionEndMillis - nowEpochMillis call.begins)
        if saveOpens then
          callProgram call (fun session => .disconnect session.clientId)
            (.step (assign fun session => (setPaused remaining).apply (disconnected.apply session)) fun _ => .done)
        else .done
  | .resume call fetches =>
    .read fun client =>
      let pausedRemainingMillis := client.session.pausedRemainingMillis
      if pausedRemainingMillis = 0 then .done
      else
        callProgram call (fun session => .auth (authRequest config session pausedRemainingMillis))
          (.step (assign fun session => (setPaused 0).apply
            ((authenticated (nowEpochMillis call.replied) pausedRemainingMillis).apply session)) fun _ =>
              refreshTail fetches)
  | .refresh fetches =>
    .read fun client =>
      .commit (assign (refreshSession fetches.clock (fetched fetches client) fetches.allClients)) fun _ => .done

/-- The operations by number. -/
def programs (ops : List Operation) (t : Nat) : Program (Client issuer) :=
  match ops[t]? with
  | some op => program config op
  | none => .done

/-- What the operations leave of the client. -/
structure Outcome where
  clientId : String
  sessionEndMillis : Nat
  pausedRemainingMillis : Nat
  controllerEnd : Nat
deriving DecidableEq, Repr

def outcome (client : Client issuer) : Outcome where
  clientId := client.session.clientId
  sessionEndMillis := client.session.sessionEndMillis
  pausedRemainingMillis := client.session.pausedRemainingMillis
  controllerEnd := client.controller.sessionEnd client.session.clientMac

end

/-! ## The operations without interruption -/

section
variable {issuer : Issuer} {config : Config} {address : IPAddress} {world : World issuer} {session : SessionParams}
  {mac : String}

/-- A call at one time. -/
def atOnce (link : Link) (clock : Nat) : Call where
  link := link
  begins := clock
  arrives := clock
  replied := clock

theorem callProgram_run (link : Link) (clock : Nat) (name : String) (request : SessionParams → Request)
    (accepted : Tail (Client issuer)) (client : Client issuer) :
    (callProgram (atOnce link clock) request accepted).run client =
      match omadaCall link clock client.controller name (request client.session) with
      | (.ok _, controller) => accepted.run { client with controller }
      | (.error _, controller) => { client with controller } := by
  cases link with
  | loginFailed | unreachable | replyLost => rfl
  | up =>
    by_cases accepts : (handle clock client.controller (request client.session)).1.errorCode = 0 <;>
      simp [callProgram, Program.run, Tail.run, atOnce, omadaCall, readReply, accepts, send]

/-- The program leaves the client as the world is. -/
def Leaves (mac : String) (client : Client issuer) (world : World issuer) : Prop :=
  world.cache.byMac mac = some client.session ∧ world.controller = client.controller

theorem finalize_run {around : Surroundings} {window : Window} (grants : Grants address window world session) :
    Leaves session.clientMac
      ((program config (.finalize (atOnce around.link world.clock) window.tally.coinCount)).run
        ⟨session, world.controller⟩)
      (finalizeSession config address around window world).1 := by
  obtain ⟨-, there⟩ := SessionCache.findByIp_some.mp grants.found
  obtain ⟨flash, after⟩ := @finalizeSession_grants _ config address around window world session grants
  have inserted : window.tally.coinCount ≠ 0 := Nat.ne_of_gt grants.inserted
  have begins : (atOnce around.link world.clock).begins = world.clock := rfl
  rw [after]
  by_cases running : Extends world.clock session
  · simp only [program, Program.run, inserted, begins, running, ↓reduceIte, grantCall]
    rw [callProgram_run _ _ "Extend", extendOmadaClient, calling]
    rcases omadaCall around.link world.clock world.controller "Extend" _ with ⟨reported, controller⟩
    cases reported with
    | ok _ => exact ⟨SessionCache.write_self _ there, rfl⟩
    | error errorDetail => exact ⟨there, rfl⟩
  · simp only [program, Program.run, inserted, begins, running, ↓reduceIte, grantCall]
    rw [callProgram_run _ _ "Auth", authenticateOmadaClient, calling]
    rcases omadaCall around.link world.clock world.controller "Auth" _ with ⟨reported, controller⟩
    cases reported with
    | ok _ => exact ⟨SessionCache.write_self _ there, rfl⟩
    | error errorDetail => exact ⟨there, rfl⟩

theorem pause_run {around : JobSurroundings} (found : world.cache.findByMac mac = some session) :
    Leaves mac ((program config (.pause (atOnce around.link world.clock) around.saveOpens)).run
      ⟨session, world.controller⟩) (processPause around mac world).1 := by
  obtain ⟨-, there⟩ := SessionCache.findByMac_some.mp found
  by_cases asks : Pausable world.clock session ∧ around.saveOpens = true
  · obtain ⟨pausable, opened⟩ := asks
    obtain ⟨flash, after⟩ := processPause_asks found pausable opened
    have running : ¬ (session.sessionEndMillis = 0 ∨ session.clientId = "") :=
      not_or.mpr ⟨Nat.ne_of_gt (Nat.zero_lt_of_lt pausable.2), pausable.1⟩
    have begins : (atOnce around.link world.clock).begins = world.clock := rfl
    rw [after]
    simp only [program, Program.run, begins, running, Nat.not_le.mpr pausable.2, opened, ↓reduceIte]
    rw [callProgram_run _ _ "Disconnect", disconnectOmadaClient, calling]
    rcases omadaCall around.link world.clock world.controller "Disconnect" _ with ⟨reported, controller⟩
    cases reported with
    | ok _ => exact ⟨SessionCache.write_self _ (SessionCache.write_self _ there), rfl⟩
    | error errorDetail => exact ⟨there, rfl⟩
  · have idle : ¬ ∃ session, world.cache.findByMac mac = some session ∧ Pausable world.clock session ∧
        around.saveOpens = true := by
      rintro ⟨other, also, pausable⟩
      obtain rfl := Option.some.inj (found.symm.trans also)
      exact asks pausable
    rw [processPause_idle idle]
    have unchanged : (program config (.pause (atOnce around.link world.clock) around.saveOpens)).run
        ⟨session, world.controller⟩ = ⟨session, world.controller⟩ := by
      simp only [program, Program.run]
      split
      · rfl
      · next running =>
        split
        · rfl
        · next timely =>
          have closed : ¬ around.saveOpens = true :=
            fun opened => asks ⟨⟨(not_or.mp running).2, Nat.not_le.mp timely⟩, opened⟩
          rw [if_neg closed]
          rfl
    rw [unchanged]
    exact ⟨there, rfl⟩

/-- What a refresh with both lists leaves of the client's entry. -/
theorem refreshed_session (config : Config) (named : mac ≠ "") {flash : Flash} {opens : Bool} {cache : SessionCache}
    (there : cache.byMac mac = some session) (clock : Nat) (hotspotClients : List HotspotClient)
    (allClients : List WifiClient) :
    (refreshHotspotSessionCache flash opens config clock hotspotClients allClients cache).cache.byMac mac =
      some (refreshSession clock hotspotClients allClients session) := by
  have own := cache.keyed there
  unfold refreshSession
  cases merged : (mergeClientLists hotspotClients allClients (nowEpochMillis clock)).find?
    fun client => client.mac = session.clientMac with
  | none =>
    refine (foldl_refreshClient_byMac_other _ fun client inside _ same => ?_).trans there
    exact absurd (same.trans own.symm) (by simpa using List.find?_eq_none.mp merged client inside)
  | some client =>
    have inside := List.mem_of_find?_eq_some merged
    have clientMac : client.mac = mac := (by simpa using List.find?_some merged : client.mac = session.clientMac).trans own
    have made := @foldl_refreshClient_byMac flash opens cache client _ mergeClientLists_nodup inside
      (clientMac.symm ▸ named)
    rw [clientMac, there] at made
    exact made

theorem refresh_run {loadOpens : Bool} (fetches : Fetches) (found : world.cache.findByMac mac = some session)
    (now : fetches.clock = world.clock) (arrives : fetches.hotspotArrives = true) :
    Leaves mac ((program config (.refresh fetches)).run ⟨session, world.controller⟩)
      (refreshWorld config loadOpens world.controller.hotspotSessions fetches.allClients world) := by
  obtain ⟨named, there⟩ := SessionCache.findByMac_some.mp found
  refine ⟨(refreshed_session config named there _ _ _).trans ?_, rfl⟩
  simp [program, Program.run, Tail.run, assign, fetched, now, arrives]

theorem resume_run {around : JobSurroundings} (fetches : Fetches) (found : world.cache.findByMac mac = some session)
    (now : fetches.clock = world.clock) (arrives : fetches.hotspotArrives = true) :
    Leaves mac ((program config (.resume (atOnce around.link world.clock) fetches)).run ⟨session, world.controller⟩)
      (processResume config around (resumeSession config around mac world).1.controller.hotspotSessions
        fetches.allClients mac world).1 := by
  obtain ⟨named, there⟩ := SessionCache.findByMac_some.mp found
  rw [processResume_world]
  by_cases paused : session.pausedRemainingMillis = 0
  · have idle : ¬ ∃ session, world.cache.findByMac mac = some session ∧ session.pausedRemainingMillis ≠ 0 := by
      rintro ⟨other, also, some_⟩
      obtain rfl := Option.some.inj (found.symm.trans also)
      exact some_ paused
    obtain ⟨same, refused⟩ := @resumeSession_idle _ config around mac world idle
    rw [refused, same]
    simp only [program, Program.run, paused, ↓reduceIte]
    exact ⟨there, rfl⟩
  · obtain ⟨flash, after, granted⟩ := @resumeSession_asks _ config around mac world session found paused
    simp only [program, Program.run, paused, ↓reduceIte]
    rw [callProgram_run _ _ "Auth"]
    rw [granted, after, authenticateOmadaClient, calling]
    rcases omadaCall around.link world.clock world.controller "Auth" _ with ⟨reported, controller⟩
    cases reported with
    | error errorDetail => exact ⟨there, rfl⟩
    | ok _ =>
      refine ⟨(refreshed_session config named
        (SessionCache.write_self _ (SessionCache.write_self _ there)) _ _ _).trans ?_, rfl⟩
      simp [Tail.run, refreshTail, assign, fetched, now, arrives, atOnce]

theorem programs_done {ops : List Operation} {t : Nat} :
    @programs issuer config ops t ≠ .done ↔ t < ops.length := by
  unfold programs
  cases there : ops[t]? with
  | none => simpa using List.getElem?_eq_none_iff.mp there
  | some op =>
    have inside := (List.getElem?_eq_some_iff.mp there).1
    cases op <;> simp [program, inside]

/-- Operations that do not disturb each other leave what some serial order of them
    leaves. -/
theorem sessions_serializable (ops : List Operation) (client : Client issuer) {schedule : List Nat}
    {last : State (Client issuer) Nat}
    (undisturbed : Throughout step (Undisturbed (programs config ops)) (start (programs config ops) client) schedule)
    (ran : run step (start (programs config ops) client) schedule = some last) (finished : ∀ t, (last.progress t).Over) :
    ∃ order : List Nat, order.Perm (List.range ops.length) ∧
      outcome last.data = outcome (serial (programs config ops) client order) := by
  obtain ⟨order, nodup, all, ends⟩ := serial_of_undisturbed undisturbed ran finished
  refine ⟨order, (List.perm_ext_iff_of_nodup nodup List.nodup_range).mpr fun t => ?_, by rw [ends]⟩
  rw [all, programs_done, List.mem_range]

end

/-! ## A refresh across an extension -/

/-- A client whose session is running. -/
def runningClient : Client plainIssuer := ⟨CrashPoints.runningSession, CrashPoints.bought.controller⟩

def bothArrive : Fetches where
  hotspotArrives := true
  allClients := []
  clock := CrashPoints.bought.clock

/-- A refresh of the loop and a coin's extension. -/
def refreshAndExtend (fetches : Fetches) : List Operation :=
  [.refresh fetches, .finalize (atOnce .up CrashPoints.bought.clock) 1]

/-- The refresh fetches first, the extension goes through, and the refresh writes. -/
def across : List Nat := [0, 1, 1, 1, 1, 0]

/-- The client's entry ends a minute before its session at the controller. -/
def lateClient : Client plainIssuer :=
  ⟨{ CrashPoints.runningSession with sessionEndMillis := CrashPoints.runningSession.sessionEndMillis - 60000 },
    CrashPoints.bought.controller⟩

/-- The extension begins, the refresh goes through, and the extension makes its call. -/
def between : List Nat := [1, 0, 0, 1, 1, 1]

/-- Where the entry extends, what is read leads to the extension. -/
theorem extend_reads {issuer : Issuer} {config : Config} {client : Client issuer} {call : Call} {coinCount : Nat}
    (up : call.link = .up) (inserted : coinCount ≠ 0) (running : Extends call.begins client.session) :
    Reads client (program config (.finalize call coinCount))
      (.commit (send call.arrives (.extend client.session.clientId (coinMillis config coinCount))) fun after =>
        if (handle call.arrives after.controller
            (.extend client.session.clientId (coinMillis config coinCount))).1.errorCode = 0 then
          .step (assign (extended (coinMillis config coinCount)).apply) fun _ => .done
        else .done) := by
  refine .read ?_
  simp only [if_neg inserted, if_pos running, callProgram, up]
  exact .read (.here _)

/-- A refresh that brings the entry up to date between the beginning of an extension and its
    call. -/
theorem sessions_serializable_between :
    ∃ last, run step (start (programs defaultConfig (refreshAndExtend bothArrive)) lateClient) between = some last ∧
      (∃ order : List Nat, order.Perm (List.range 2) ∧
        outcome last.data = outcome (serial (programs defaultConfig (refreshAndExtend bothArrive)) lateClient order)) ∧
      outcome ((program defaultConfig (.refresh bothArrive)).run lateClient) ≠ outcome lateClient := by
  have ran : ∃ last, run step (start (programs defaultConfig (refreshAndExtend bothArrive)) lateClient) between =
      some last ∧ ∀ t, (last.progress t).Over := by
    refine ⟨_, rfl, fun t => ?_⟩
    match t with
    | 0 | 1 | t + 2 => trivial
  obtain ⟨last, ran, finished⟩ := ran
  refine ⟨last, ran, sessions_serializable (refreshAndExtend bothArrive) lateClient ?_ ran finished, by decide +kernel⟩
  refine ⟨fun ends => ?_, fun begun taken => ?_⟩
  · simp only [Nat.one_ne_zero, ↓reduceIte] at ends
    split at ends <;> cases ends
  obtain rfl := Option.some.inj taken
  refine ⟨nofun, fun fetched taken => ?_⟩
  obtain rfl := Option.some.inj taken
  refine ⟨.inr ⟨fun u => ?_, .read (.here _)⟩, fun merged taken => ?_⟩
  · match u with
    | 0 | 1 | u + 2 => exact id
  obtain rfl := Option.some.inj taken
  refine ⟨nofun, fun asked taken => ?_⟩
  obtain rfl := Option.some.inj taken
  refine ⟨.inr ⟨fun u => ?_, extend_reads rfl Nat.one_ne_zero (by decide +kernel)⟩, fun sent taken => ?_⟩
  · match u with
    | 0 | 1 | u + 2 => exact id
  obtain rfl := Option.some.inj taken
  exact ⟨trivial, fun written taken => trivial⟩

/-- The cached end is then the one from before the coin, which no serial order leaves. -/
theorem stale_refresh_written :
    ∃ last, run step (start (programs defaultConfig (refreshAndExtend bothArrive)) runningClient) across = some last ∧
      (∀ t, (last.progress t).Over) ∧
      ∀ order : List Nat, order.Perm (List.range 2) →
        outcome last.data ≠ outcome (serial (programs defaultConfig (refreshAndExtend bothArrive)) runningClient order) := by
  refine ⟨_, rfl, fun t => ?_, ?_⟩
  · match t with
    | 0 | 1 | t + 2 => trivial
  · simp only [← List.mem_permutations']
    decide +kernel

end EllaFi.SessionOps
