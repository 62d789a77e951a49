import EllaFi.CoinTasks
import EllaFi.Steps

/-!
The entry points of the portal: the page, the status, and the WebSocket. Each finds
out in its own way which client it serves: by the address that the request comes
from, or one that it names in its place, and by the MAC that its parameters name or
the cache holds for the address. They write the cache, the slot of the coin window,
and the queues of the tasks. The WebSocket task takes the jobs that they queue, and the
client lists are read in between. A claim of the slot and a swap of its socket are the
steps of the tasks without interruption (`tryClaim_run`, `updateSocket_run`).
-/
namespace EllaFi.Portal
open EllaFi.Session EllaFi.Cache EllaFi.Coins EllaFi.Files EllaFi.Omada EllaFi.CoinTasks
open EllaFi.Refresh (WifiClient)
open EllaFi.Finalize (World)
open EllaFi.PauseResume (JobSurroundings processPause resumeSession refreshWorld)
open EllaFi.Steps (Redirect seedPortalSession)
open EllaFi.Runs (run)

inductive WsJobType where
  | pause
  | resume
  | refreshCache
deriving DecidableEq, Repr

structure WsJob where
  type : WsJobType
  mac : String
deriving DecidableEq, Repr

def wsJob (type : WsJobType) (mac : String) : WsJob := { type, mac := truncated 17 mac }

def wsJobQueueSize : Nat := 8

/-- What the handlers of the web server and the WebSocket task share. -/
structure Server (issuer : Issuer) where
  world : World issuer
  tasks : Tasks
  wsJobs : List WsJob

def Server.withCache {issuer : Issuer} (server : Server issuer) (cache : SessionCache) : Server issuer :=
  { server with world := { server.world with cache } }

/-- What a handler reads besides: whether the files open, the controller's status, the
    clock and the devices; and the pulse that the button gives when it is read. -/
structure Around where
  loadOpens : Bool
  isServiceReady : Bool
  bootTestRunning : Bool
  millis : UInt32
  coinButtonPulse : Option CoinPulse
  deviceStatusJson : String

/-! ## Requests and replies -/

structure HttpRequest where
  remoteIp : String
  clientIp : Option String
  clientMac : Option String
  apMac : Option String
  ssidName : Option String
  radioId : Option String
deriving DecidableEq, Repr

/-- The members of a frame's document that are read; empty where it has none. -/
structure Frame where
  clientIp : String
  action : String
deriving DecidableEq, Repr

/-- A frame; `none` is a payload that is no JSON. -/
structure WsRequest where
  remoteIp : String
  socketFd : Int
  doc : Option Frame
deriving DecidableEq, Repr

inductive Request where
  | root (request : HttpRequest)
  | getStatus (request : HttpRequest)
  | wsOpen (remoteIp : String) (socketFd : Int)
  | ws (request : WsRequest)
deriving DecidableEq, Repr

/-- The status of a client's session and of its coin window. -/
structure Status where
  type : String
  coinCount : Nat
  coinInsertTimeLeft : Nat
  sessionStartMillis : Nat
  sessionEndMillis : Nat
  pausedRemainingMillis : Nat
  clientMac : String
  clientIp : String
  minutesPerCoin : Nat
  devices : String
deriving DecidableEq, Repr

def Status.json (s : Status) : String :=
  "\x7b\"type\":\"" ++ s.type ++ "\",\"coinCount\":" ++ toString s.coinCount ++
    ",\"coinInsertTimeLeft\":" ++ toString s.coinInsertTimeLeft ++
    ",\"sessionStartMillis\":" ++ toString s.sessionStartMillis ++
    ",\"sessionEndMillis\":" ++ toString s.sessionEndMillis ++
    ",\"pausedRemainingMillis\":" ++ toString s.pausedRemainingMillis ++
    ",\"clientMac\":\"" ++ s.clientMac ++ "\",\"clientIp\":\"" ++ s.clientIp ++
    "\",\"minutesPerCoin\":" ++ toString s.minutesPerCoin ++ ",\"devices\":" ++ s.devices ++ "\x7d"

inductive Reply where
  | unidentifiedPage
  | indexPage
  | status (shown : Status)
  /-- The status of a client without a session. -/
  | noSession (devices : String)
  /-- The connection is closed after it. -/
  | wsError (subtype : Option String) (message : String)
  | silent
deriving DecidableEq, Repr

/-- What is sent, where it is not a page. -/
def Reply.json : Reply → Option String
  | .unidentifiedPage | .indexPage | .silent => none
  | .status shown => some shown.json
  | .noSession devices =>
    some ("\x7b\"type\":\"status\",\"sessionEndMillis\":0,\"pausedRemainingMillis\":0,\"coinInsertTimeLeft\":0,\"devices\":"
      ++ devices ++ "\x7d")
  | .wsError none message => some ("\x7b\"type\":\"error\",\"message\":\"" ++ message ++ "\"\x7d")
  | .wsError (some subtype) message =>
    some ("\x7b\"type\":\"error\",\"subtype\":\"" ++ subtype ++ "\",\"message\":\"" ++ message ++ "\"\x7d")

/-! ## The coin window -/

section
variable (address : IPAddress)

/-- `none` where the slot is not claimed. -/
def coinSessionTryClaim (bootTestRunning : Bool) (socketFd : Int) (clientIp : String) (tasks : Tasks) : Option Tasks :=
  if bootTestRunning ∨ tasks.coinInsertActive then none
  else if tasks.coinSessionQueue.length < coinSessionQueueSize then
    some { tasks with
      coinInsertActive := true
      coinSessionQueue := tasks.coinSessionQueue ++ [startEvent socketFd clientIp] }
  else none

def coinSessionUpdateSocket (clientIp : String) (socketFd : Int) (tasks : Tasks) : Tasks :=
  if tasks.coinSessionSlot.clientIpV4 = coinIpToU32 address clientIp then
    { tasks with coinSessionSlot := { clientIpV4 := coinIpToU32 address clientIp, socketFd } }
  else tasks

/-- The coin window is the client's. -/
def MyCoinInsertActive (clientIp : String) (tasks : Tasks) : Prop :=
  tasks.coinInsertActive = true ∧ coinIpToU32 address clientIp = tasks.coinSessionSlot.clientIpV4

instance (clientIp : String) (tasks : Tasks) : Decidable (MyCoinInsertActive address clientIp tasks) :=
  inferInstanceAs (Decidable (_ ∧ _))

def buildStatus (config : Config) (around : Around) (type : String) (session : SessionParams) (tasks : Tasks) : Status where
  type := type
  coinCount := if MyCoinInsertActive address session.clientIp tasks then tasks.coinCount else 0
  coinInsertTimeLeft :=
    if MyCoinInsertActive address session.clientIp tasks ∧ around.millis < tasks.coinDeadlineMillis then
      ((tasks.coinDeadlineMillis - around.millis) / 1000).toNat
    else 0
  sessionStartMillis := session.sessionStartMillis
  sessionEndMillis := session.sessionEndMillis
  pausedRemainingMillis := session.pausedRemainingMillis
  clientMac := session.clientMac
  clientIp := session.clientIp
  minutesPerCoin := config.minutesPerCoin
  devices := around.deviceStatusJson

/-! ## Handlers -/

/-- The address that a request gives in place of its own (`TEST_MODE`). -/
def HttpRequest.ip (request : HttpRequest) : String := request.clientIp.getD request.remoteIp

def WsRequest.ip (request : WsRequest) (frame : Frame) : String :=
  if frame.clientIp ≠ "" then frame.clientIp else request.remoteIp

def HttpRequest.redirect (request : HttpRequest) (clientMac : String) : Redirect where
  clientIp := request.ip
  clientMac := clientMac
  apMac := request.apMac
  ssidName := request.ssidName
  radioId := request.radioId

/-- The MAC that the page is opened for: the request's, or else the one that the
    cache has for the address. -/
def rootMac (cache : SessionCache) (request : HttpRequest) : Option String :=
  let clientMac := request.clientMac.getD ""
  if clientMac = "" then
    (cache.findByIp request.ip).bind fun existing => if existing.clientMac = "" then none else some existing.clientMac
  else some clientMac

variable {issuer : Issuer} (config : Config) (around : Around)

/-- The cache once the redirect of a request is in it. -/
def seeded (request : HttpRequest) (clientMac : String) (server : Server issuer) : SessionCache :=
  seedPortalSession server.world.flash around.loadOpens (request.redirect clientMac) server.world.cache

def handleRoot (request : HttpRequest) (server : Server issuer) : Server issuer × Reply :=
  match rootMac server.world.cache request with
  | none => (server, .unidentifiedPage)
  | some clientMac => (server.withCache (seeded around request clientMac server), .indexPage)

def handleGetStatus (request : HttpRequest) (server : Server issuer) : Server issuer × Reply :=
  match request.clientMac with
  | some clientMac =>
    let cache := seeded around request clientMac server
    let session := cache.entry (server.world.cache.key request.ip clientMac)
    (server.withCache cache, .status (buildStatus address config around "status" session server.tasks))
  | none =>
    match server.world.cache.findByIp request.ip with
    | some session => (server, .status (buildStatus address config around "status" session server.tasks))
    | none => (server, .noSession around.deviceStatusJson)

def handleWsOpen (remoteIp : String) (socketFd : Int) (server : Server issuer) : Server issuer :=
  let server :=
    match server.world.cache.findByIp remoteIp with
    | some session => server.withCache (server.world.cache.write session.clientMac (setSocket socketFd))
    | none => server
  { server with tasks := coinSessionUpdateSocket address remoteIp socketFd server.tasks }

/-- The action of a frame, for the session that its address leads to. -/
def handleAction (socketFd : Int) (clientIp : String) (session : SessionParams) (action : String)
    (server : Server issuer) : Server issuer × Reply :=
  if action = "getStatus" then
    let tasks := coinSessionUpdateSocket address clientIp socketFd server.tasks
    ({ server with tasks }, .status (buildStatus address config around "status" session tasks))
  else if action = "startCoinInsert" then
    if ¬ around.isServiceReady then
      (server, .wsError none "Temporarily out of service — please try again shortly")
    else
      match coinSessionTryClaim around.bootTestRunning socketFd clientIp server.tasks with
      | some tasks => ({ server with tasks }, .status (buildStatus address config around "status" session tasks))
      | none => (server, .wsError none "Another user already inserting coins")
  else if action = "pause" then
    ({ server with wsJobs := send wsJobQueueSize server.wsJobs (wsJob .pause session.clientMac) }, .silent)
  else if action = "resume" then
    ({ server with wsJobs := send wsJobQueueSize server.wsJobs (wsJob .resume session.clientMac) }, .silent)
  else if action = "testInsertCoin" then
    match around.coinButtonPulse with
    | some pulse =>
      ({ server with
        tasks := { server.tasks with
          coinPulseQueue := send coinPulseQueueSize server.tasks.coinPulseQueue pulse } }, .silent)
    | none => (server, .silent)
  else (server, .wsError none "Unknown action")

def handleWsRequest (request : WsRequest) (server : Server issuer) : Server issuer × Reply :=
  match request.doc with
  | none => (server, .wsError none "Invalid WS JSON Request")
  | some frame =>
    match server.world.cache.findByIp (request.ip frame) with
    | none => (server, .wsError (some "no_session") "No portal session found for this device")
    | some session =>
      -- the address that is assigned too is the one that the entry was found by
      handleAction address config around request.socketFd (request.ip frame)
        ((setSocket request.socketFd).apply session) frame.action
        (server.withCache (server.world.cache.write session.clientMac (setSocket request.socketFd)))

def serve (server : Server issuer) : Request → Server issuer × Reply
  | .root request => handleRoot around request server
  | .getStatus request => handleGetStatus address config around request server
  | .wsOpen remoteIp socketFd => (handleWsOpen address remoteIp socketFd server, .silent)
  | .ws request => handleWsRequest address config around request server

/-- `webSocketTask` takes a job. The client lists that it reads afterwards, where the job or
    a granted resume asks for them, are a step of their own, since requests are served
    meanwhile. -/
def webSocketTask (around : JobSurroundings) (server : Server issuer) : Server issuer :=
  match server.wsJobs with
  | [] => server
  | job :: rest =>
    { server with
      wsJobs := rest
      world :=
        match job.type with
        | .pause => (processPause around job.mac server.world).1
        | .resume => (resumeSession config around job.mac server.world).1
        | .refreshCache => server.world }

inductive Action where
  | serve (around : Around) (request : Request)
  | runJob (around : JobSurroundings)
  | refresh (loadOpens : Bool) (hotspotClients : List HotspotClient) (allClients : List WifiClient)
  | elapse (millis : Nat)

def step (server : Server issuer) : Action → Option (Server issuer)
  | .serve around request => some (serve address config around server request).1
  | .runJob around => some (webSocketTask config around server)
  | .refresh loadOpens hotspotClients allClients =>
    some { server with world := refreshWorld config loadOpens hotspotClients allClients server.world }
  | .elapse millis => some { server with world := { server.world with clock := server.world.clock + millis } }

end

/-! ## The steps of the tasks -/

section
variable {address : IPAddress} {macAddress : String} {tasks : Tasks} {socketFd : Int} {clientIp : String}

/-- The slot as it is read is what the compare-exchange finds. -/
theorem updateSocket_run (quiet : tasks.updates = []) :
    run (CoinTasks.step address macAddress) tasks [.loadSlot clientIp socketFd, .swapSlot 0 false] =
      some (coinSessionUpdateSocket address clientIp socketFd tasks) := by
  have given : tasks = { tasks with updates := [] } := by rw [← quiet]
  by_cases mine : tasks.coinSessionSlot.clientIpV4 = coinIpToU32 address clientIp
  · rw [coinSessionUpdateSocket, if_pos mine]
    simp [run, CoinTasks.step, swapSlot, quiet, mine]
  · rw [coinSessionUpdateSocket, if_neg mine]
    simp [run, CoinTasks.step, swapSlot, quiet, mine, ← given]

/-- A claim sets the flag and is posted, or, where the queue is full, rolled back. -/
theorem tryClaim_run (quiet : tasks.claims = []) (bootTestRunning : Bool) :
    ∃ actions, run (CoinTasks.step address macAddress) tasks (.tryClaim bootTestRunning socketFd clientIp :: actions) =
      some ((coinSessionTryClaim bootTestRunning socketFd clientIp tasks).getD tasks) := by
  by_cases refused : bootTestRunning ∨ tasks.coinInsertActive
  · exact ⟨[], by simp [run, CoinTasks.step, coinSessionTryClaim, refused]⟩
  · obtain ⟨idle, free⟩ : bootTestRunning = false ∧ tasks.coinInsertActive = false := by simpa using refused
    have kept : { tasks with coinInsertActive := false, claims := [] } = tasks := by rw [← free, ← quiet]
    by_cases room : tasks.coinSessionQueue.length < coinSessionQueueSize
    · refine ⟨[.postStart 0], ?_⟩
      simp [run, CoinTasks.step, coinSessionTryClaim, postStart, idle, free, room, quiet]
    · refine ⟨[.postStart 0, .rollBack 0], ?_⟩
      simp [run, CoinTasks.step, coinSessionTryClaim, postStart, rollBack, idle, free, room, quiet, kept]

end

end EllaFi.Portal
