import EllaFi.Portal

/-!
What the portal's requests of some clients leave of another. A request that is
served for another address than a client's, names no MAC that the client's address
is bound to, and asks for no job that hits that MAC, leaves the client's binding, its
entry and its coin window as they are (`serve_unaffected`), and so do the jobs when they
are run (`runJob_unaffected`). A job carries only the first 17 characters of a MAC, and a
paused time is kept under the MAC without its colons, so a job of another entry can hit
too. After any sequence of such requests and jobs the client reads the status that it
would have read without them, but for the window of a slot that was free
(`portal_noninterference`). The handlers trust what a request names: the MAC of
another client moves that client to the sender's address (`named_client_moves`).
-/
namespace EllaFi.Noninterference
open EllaFi.Session EllaFi.Cache EllaFi.Coins EllaFi.Files EllaFi.Portal
open EllaFi.CoinTasks hiding Action step
open EllaFi.Omada (Issuer HotspotClient plainIssuer disconnectOmadaClient authenticateOmadaClient omadaAuthTypeExternalPortal)
open EllaFi.Refresh (WifiClient MergedClient asString mergeClientLists refreshClient refreshedEntry refreshClient_byMac
  refreshClient_unnamed)
open EllaFi.Finalize (World)
open EllaFi.PauseResume (JobSurroundings processPause resumeSession refreshWorld)
open EllaFi.Steps (Redirect seedPortalSession loaded byMac_seed byMac_seed_other seed_ipToMac)
open EllaFi.Runs (run run_cons Throughout)

/-! ## Requests of others -/

/-- The address that a request is served for. -/
def servedIp : Request → String
  | .root request | .getStatus request => request.ip
  | .wsOpen remoteIp _ => remoteIp
  | .ws request => (request.doc.map request.ip).getD request.remoteIp

/-- The MAC whose entry a request makes, or moves to its address. -/
def namedMac (cache : SessionCache) : Request → Option String
  | .root request => rootMac cache request
  | .getStatus request => request.clientMac.map (cache.key request.ip)
  | .wsOpen .. | .ws _ => none

def InsertsTestCoin : Request → Prop
  | .ws request => request.doc.map (·.action) = some "testInsertCoin"
  | .root _ | .getStatus _ | .wsOpen .. => False

instance : ∀ request, Decidable (InsertsTestCoin request)
  | .ws _ => inferInstanceAs (Decidable (_ = _))
  | .root _ | .getStatus _ | .wsOpen .. => inferInstanceAs (Decidable False)

/-- The job that a frame asks for. -/
def askedJob (cache : SessionCache) : Request → Option WsJob
  | .ws request =>
    request.doc.bind fun frame =>
      (cache.findByIp (request.ip frame)).bind fun session =>
        if frame.action = "pause" then some (wsJob .pause session.clientMac)
        else if frame.action = "resume" then some (wsJob .resume session.clientMac)
        else none
  | .root _ | .getStatus _ | .wsOpen .. => none

/-- The job is for the MAC, or for one whose paused time is kept in the same file, or in
    the file that a request under no MAC reads. -/
def Hits (mac : String) (job : WsJob) : Prop :=
  job.type ≠ .refreshCache ∧ (macToFilename job.mac = macToFilename mac ∨ macToFilename job.mac = macToFilename "")

instance (mac : String) (job : WsJob) : Decidable (Hits mac job) := inferInstanceAs (Decidable (_ ∧ _))

/-- The request neither is served for the client at the address nor names it, asks for
    no job that hits it, and simulates no coin. -/
structure ServedElsewhere (address : IPAddress) (ip : String) (cache : SessionCache) (request : Request) : Prop where
  away : coinIpToU32 address (servedIp request) ≠ coinIpToU32 address ip
  named : ∀ mac ∈ namedMac cache request, cache.ipToMac ip ≠ some mac
  jobs : ∀ mac ∈ cache.ipToMac ip, ∀ job ∈ askedJob cache request, ¬ Hits mac job
  genuine : ¬ InsertsTestCoin request

instance (address : IPAddress) (ip : String) (cache : SessionCache) (request : Request) :
    Decidable (ServedElsewhere address ip cache request) :=
  decidable_of_iff
    (coinIpToU32 address (servedIp request) ≠ coinIpToU32 address ip ∧
      (∀ mac ∈ namedMac cache request, cache.ipToMac ip ≠ some mac) ∧
      (∀ mac ∈ cache.ipToMac ip, ∀ job ∈ askedJob cache request, ¬ Hits mac job) ∧ ¬ InsertsTestCoin request)
    ⟨fun ⟨away, named, jobs, genuine⟩ => ⟨away, named, jobs, genuine⟩,
      fun ⟨away, named, jobs, genuine⟩ => ⟨away, named, jobs, genuine⟩⟩

/-- The record has the client where it is, or is another one's elsewhere. -/
def KeepsPlace (ip : String) (cache : SessionCache) (client : MergedClient) : Prop :=
  if cache.ipToMac ip = some client.mac then asString client.ip = ip ∨ asString client.ip = ""
  else asString client.ip ≠ ip

instance (ip : String) (cache : SessionCache) (client : MergedClient) : Decidable (KeepsPlace ip cache client) :=
  inferInstanceAs (Decidable (ite ..))

/-- Requests and jobs of others, of which `waiting` were queued before, and lists that have
    the client where it is. -/
def Elsewhere {issuer : Issuer} (address : IPAddress) (ip : String) (waiting : List WsJob) (server : Server issuer) :
    Action → Prop
  | .serve _ request => ServedElsewhere address ip server.world.cache request
  | .runJob _ => ∀ mac ∈ server.world.cache.ipToMac ip, ∀ job ∈ server.wsJobs.head?, job ∈ waiting → ¬ Hits mac job
  | .refresh _ hotspotClients allClients =>
    ∀ client ∈ mergeClientLists hotspotClients allClients (nowEpochMillis server.world.clock),
      KeepsPlace ip server.world.cache client
  | .elapse _ => True

instance {issuer : Issuer} (address : IPAddress) (ip : String) (waiting : List WsJob) (server : Server issuer)
    (action : Action) : Decidable (Elsewhere address ip waiting server action) :=
  match action with
  | .serve _ request => inferInstanceAs (Decidable (ServedElsewhere address ip server.world.cache request))
  | .runJob _ =>
    inferInstanceAs (Decidable (∀ mac ∈ server.world.cache.ipToMac ip, ∀ job ∈ server.wsJobs.head?, _ → ¬ Hits mac job))
  | .refresh .. => inferInstanceAs (Decidable (∀ client ∈ mergeClientLists .., KeepsPlace ip server.world.cache client))
  | .elapse _ => inferInstanceAs (Decidable True)

/-- What goes on without the requests and the jobs. -/
def Ongoing : Action → Bool
  | .serve .. | .runJob _ => false
  | .refresh .. | .elapse _ => true

section
variable {issuer : Issuer}

/-- The binding of the address and the entry that it is bound to. -/
structure SameClient (ip : String) (before after : SessionCache) : Prop where
  binding : after.ipToMac ip = before.ipToMac ip
  entry : ∀ mac, before.ipToMac ip = some mac → after.byMac mac = before.byMac mac

/-- Another claim may have taken a free slot; everything else about a window stays. -/
structure SameWindow (address : IPAddress) (ip : String) (before after : Tasks) : Prop where
  frame : after = { before with
    coinInsertActive := after.coinInsertActive
    coinSessionQueue := after.coinSessionQueue
    coinSessionSlot := after.coinSessionSlot }
  held : before.coinInsertActive = true →
    after.coinInsertActive = true ∧ after.coinSessionQueue = before.coinSessionQueue
  owner : after.coinSessionSlot.clientIpV4 = before.coinSessionSlot.clientIpV4
  socket : before.coinSessionSlot.clientIpV4 = coinIpToU32 address ip → after.coinSessionSlot = before.coinSessionSlot

/-- The paused times that the client's status can bring back. -/
def SameFiles (ip : String) (before after : World issuer) : Prop :=
  ∀ own ∈ before.cache.ipToMac ip, ∀ mac, mac = own ∨ mac = "" →
    after.flash.pausedSessions (macToFilename mac) = before.flash.pausedSessions (macToFilename mac)

/-- The jobs that were added hit other clients only. -/
def OtherJobs (ip : String) (before after : Server issuer) : Prop :=
  ∀ job ∈ after.wsJobs, job ∈ before.wsJobs ∨ ∀ own ∈ before.world.cache.ipToMac ip, ¬ Hits own job

structure Unaffected (address : IPAddress) (ip : String) (before after : Server issuer) : Prop where
  clock : after.world.clock = before.world.clock
  client : SameClient ip before.world.cache after.world.cache
  files : SameFiles ip before.world after.world
  window : SameWindow address ip before.tasks after.tasks
  jobs : OtherJobs ip before after

end

section
variable {issuer : Issuer} {address : IPAddress} {ip : String} {first before after : Server issuer}

theorem SameClient.refl (ip : String) (cache : SessionCache) : SameClient ip cache cache where
  binding := rfl
  entry _ _ := rfl

theorem SameClient.trans {first before after : SessionCache} (one : SameClient ip first before)
    (two : SameClient ip before after) : SameClient ip first after where
  binding := two.binding.trans one.binding
  entry mac bound := (two.entry mac (one.binding.trans bound)).trans (one.entry mac bound)

theorem SameWindow.refl (address : IPAddress) (ip : String) (tasks : Tasks) : SameWindow address ip tasks tasks where
  frame := rfl
  held active := ⟨active, rfl⟩
  owner := rfl
  socket _ := rfl

theorem SameWindow.trans {first before after : Tasks} (one : SameWindow address ip first before)
    (two : SameWindow address ip before after) : SameWindow address ip first after where
  frame := by
    rw [two.frame, one.frame]
  held active := by
    obtain ⟨active', queue⟩ := one.held active
    obtain ⟨active'', queue'⟩ := two.held active'
    exact ⟨active'', queue'.trans queue⟩
  owner := two.owner.trans one.owner
  socket mine := (two.socket (one.owner.trans mine)).trans (one.socket mine)

theorem Unaffected.refl (address : IPAddress) (ip : String) (server : Server issuer) :
    Unaffected address ip server server where
  clock := rfl
  client := .refl ip _
  files _ _ _ _ := rfl
  window := .refl address ip _
  jobs _ := .inl

theorem Unaffected.trans (one : Unaffected address ip first before) (two : Unaffected address ip before after) :
    Unaffected address ip first after where
  clock := two.clock.trans one.clock
  client := one.client.trans two.client
  files own bound mac known :=
    (two.files own (one.client.binding.trans bound) mac known).trans (one.files own bound mac known)
  window := one.window.trans two.window
  jobs job inside :=
    (two.jobs job inside).elim (one.jobs job) fun others =>
      .inr fun own bound => others own (one.client.binding.trans bound)

end

/-! ## What each handler leaves -/

section
variable {address : IPAddress} {ip mac : String} {cache : SessionCache} {tasks next : Tasks} {session : SessionParams}

theorem seed_sameClient {flash : Flash} {opens : Bool} {request : Redirect} (elsewhere : request.clientIp ≠ ip)
    (other : cache.ipToMac ip ≠ some (cache.key request.clientIp request.clientMac)) :
    SameClient ip cache (seedPortalSession flash opens request cache) where
  binding := by
    rw [seed_ipToMac]
    by_cases given : request.clientIp = ""
    · rw [given, SessionCache.upsert_ipToMac_empty]
    · rw [SessionCache.upsert_ipToMac given, if_neg (Ne.symm elsewhere), if_neg other]
  entry mac bound := byMac_seed_other fun same => other (same ▸ bound)

/-- An entry that another address leads to is not bound to this one. -/
theorem found_elsewhere {other : String} (found : cache.findByIp other = some session) (elsewhere : other ≠ ip) :
    cache.ipToMac ip ≠ some session.clientMac := by
  intro bound
  obtain ⟨s, there, current⟩ := cache.indexed bound
  obtain ⟨-, there'⟩ := SessionCache.findByIp_some.mp found
  rw [there] at there'
  cases there'
  exact elsewhere ((SessionCache.findByIp_clientIp found).symm.trans current)

theorem write_sameClient {fields : FieldWrite} (other : cache.ipToMac ip ≠ some mac) :
    SameClient ip cache (cache.write mac fields) where
  binding := rfl
  entry holder bound := by
    rw [SessionCache.write_byMac, if_neg]
    rintro rfl
    exact other bound

theorem updateSocket_sameWindow {clientIp : String} {socketFd : Int}
    (elsewhere : coinIpToU32 address clientIp ≠ coinIpToU32 address ip) :
    SameWindow address ip tasks (coinSessionUpdateSocket address clientIp socketFd tasks) := by
  unfold coinSessionUpdateSocket
  split
  · next theirs => exact ⟨rfl, fun active => ⟨active, rfl⟩, theirs.symm, fun mine => absurd (theirs.symm.trans mine) elsewhere⟩
  · exact .refl address ip tasks

theorem tryClaim_sameWindow {bootTestRunning : Bool} {socketFd : Int} {clientIp : String}
    (claimed : coinSessionTryClaim bootTestRunning socketFd clientIp tasks = some next) :
    SameWindow address ip tasks next := by
  unfold coinSessionTryClaim at claimed
  split at claimed
  · cases claimed
  · next free =>
    split at claimed
    · obtain rfl := Option.some.inj claimed
      exact ⟨rfl, fun active => absurd (.inr active) free, rfl, fun _ => rfl⟩
    · cases claimed

theorem rootMac_ne {request : HttpRequest} (named : rootMac cache request = some mac) : mac ≠ "" := by
  simp only [rootMac] at named
  split at named
  · obtain ⟨existing, -, own⟩ := Option.bind_eq_some_iff.mp named
    split at own
    · cases own
    · next given => exact Option.some.inj own ▸ given
  · next given => exact Option.some.inj named ▸ given

variable {issuer : Issuer} {config : Config} {around : Around} {server : Server issuer}

theorem unaffected_cache (same : SameClient ip server.world.cache cache) :
    Unaffected address ip server (server.withCache cache) where
  clock := rfl
  client := same
  files _ _ _ _ := rfl
  window := .refl address ip _
  jobs _ := .inl

theorem unaffected_tasks (same : SameWindow address ip server.tasks tasks) :
    Unaffected address ip server { server with tasks := tasks } where
  clock := rfl
  client := .refl ip _
  files _ _ _ _ := rfl
  window := same
  jobs _ := .inl

theorem unaffected_send {job : WsJob} (others : ∀ mac ∈ server.world.cache.ipToMac ip, ¬ Hits mac job) :
    Unaffected address ip server { server with wsJobs := send wsJobQueueSize server.wsJobs job } where
  clock := rfl
  client := .refl ip _
  files _ _ _ _ := rfl
  window := .refl address ip _
  jobs queued inside := by
    simp only [send] at inside
    split at inside
    · rcases List.mem_append.mp inside with before | added
      · exact .inl before
      · exact .inr (List.mem_singleton.mp added ▸ others)
    · exact .inl inside

theorem handleAction_unaffected {socketFd : Int} {clientIp action : String}
    (elsewhere : coinIpToU32 address clientIp ≠ coinIpToU32 address ip)
    (pauses : action = "pause" → ∀ mac ∈ server.world.cache.ipToMac ip, ¬ Hits mac (wsJob .pause session.clientMac))
    (resumes : action = "resume" → ∀ mac ∈ server.world.cache.ipToMac ip, ¬ Hits mac (wsJob .resume session.clientMac))
    (genuine : action ≠ "testInsertCoin") :
    Unaffected address ip server
      (handleAction address config around socketFd clientIp session action server).1 := by
  unfold handleAction
  split
  · exact unaffected_tasks (updateSocket_sameWindow elsewhere)
  · split
    · split
      · exact .refl address ip server
      · split
        · next claimed => exact unaffected_tasks (tryClaim_sameWindow claimed)
        · exact .refl address ip server
    · split
      · next pause => exact unaffected_send (pauses pause)
      · split
        · next resume => exact unaffected_send (resumes resume)
        · exact .refl address ip server

/-- A request that is served elsewhere leaves the client at the address alone. -/
theorem serve_unaffected {request : Request} (elsewhere : ServedElsewhere address ip server.world.cache request) :
    Unaffected address ip server (serve address config around server request).1 := by
  obtain ⟨away, named, jobs, genuine⟩ := elsewhere
  have otherIp : servedIp request ≠ ip := fun same => away (by rw [same])
  cases request with
  | root request =>
    change Unaffected address ip server (handleRoot around request server).1
    unfold handleRoot
    split
    · exact .refl address ip server
    · next mac opened =>
      have key := @SessionCache.key_of_mac server.world.cache request.ip mac (rootMac_ne opened)
      refine unaffected_cache (seed_sameClient otherIp ?_)
      exact (congrArg some key).symm ▸ named mac opened
  | getStatus request =>
    change Unaffected address ip server (handleGetStatus address config around request server).1
    unfold handleGetStatus
    split
    · next clientMac given =>
      refine unaffected_cache (seed_sameClient otherIp (named _ ?_))
      rw [namedMac, given]
      rfl
    · split <;> exact .refl address ip server
  | wsOpen remoteIp socketFd =>
    change Unaffected address ip server (handleWsOpen address remoteIp socketFd server)
    unfold handleWsOpen
    refine .trans ?_ (unaffected_tasks (updateSocket_sameWindow away))
    split
    · next session found => exact unaffected_cache (write_sameClient (found_elsewhere found otherIp))
    · exact .refl address ip server
  | ws request =>
    change Unaffected address ip server (handleWsRequest address config around request server).1
    unfold handleWsRequest
    split
    · exact .refl address ip server
    · next frame read =>
      have at_ : servedIp (.ws request) = request.ip frame := by rw [servedIp, read]; rfl
      rw [at_] at otherIp
      split
      · exact .refl address ip server
      · next session found =>
        have asked : askedJob server.world.cache (.ws request) =
            if frame.action = "pause" then some (wsJob .pause session.clientMac)
            else if frame.action = "resume" then some (wsJob .resume session.clientMac)
            else none := by
          simp [askedJob, read, found]
        refine (unaffected_cache (write_sameClient (found_elsewhere found otherIp))).trans
          (handleAction_unaffected (at_ ▸ away) (fun pause mac bound => ?_) (fun resume mac bound => ?_) fun same => ?_)
        · exact jobs mac bound _ (by rw [asked, if_pos pause]; rfl)
        · exact jobs mac bound _ (by simp [asked, resume])
        · exact genuine (by simp [InsertsTestCoin, read, same])

end

/-! ## What a job leaves -/

section
variable {issuer : Issuer} {config : Config} {around : JobSurroundings} {ip mac : String} {before after : World issuer}

/-- Only the entry of the MAC and its file are written. -/
structure Confined (mac : String) (before after : World issuer) : Prop where
  clock : after.clock = before.clock
  index : after.cache.ipToMac = before.cache.ipToMac
  entries : ∀ other, other ≠ mac → after.cache.byMac other = before.cache.byMac other
  files : ∀ path, path ≠ macToFilename mac → after.flash.pausedSessions path = before.flash.pausedSessions path

theorem Confined.refl (mac : String) (world : World issuer) : Confined mac world world where
  clock := rfl
  index := rfl
  entries _ _ := rfl
  files _ _ := rfl

theorem processPause_confined (mac : String) (world : World issuer) : Confined mac world (processPause around mac world).1 := by
  unfold processPause
  split
  · exact .refl mac world
  · next session found =>
    have own : session.clientMac = mac := world.cache.keyed (SessionCache.findByMac_some.mp found).2
    split
    · exact .refl mac world
    · split
      · exact .refl mac world
      · simp only
        split
        · exact .refl mac world
        · next flash saved =>
          have files : ∀ path, path ≠ macToFilename mac → flash.pausedSessions path = world.flash.pausedSessions path := by
            intro path other
            simp only [savePausedSessionFile] at saved
            split at saved
            · cases saved
              simp [own, other]
            · cases saved
          split
          · refine ⟨rfl, rfl, fun other differs => ?_, fun path other => ?_⟩
            · simp [SessionCache.write_byMac, own, differs]
            · simpa using files path other
          · refine ⟨rfl, rfl, fun _ _ => rfl, fun path other => ?_⟩
            simpa [deletePausedSessionFile, own, other] using files path other

theorem resumeSession_confined (mac : String) (world : World issuer) :
    Confined mac world (resumeSession config around mac world).1 := by
  unfold resumeSession
  split
  · exact .refl mac world
  · next session found =>
    have own : session.clientMac = mac := world.cache.keyed (SessionCache.findByMac_some.mp found).2
    simp only
    split
    · exact .refl mac world
    · split
      · refine ⟨rfl, rfl, fun other differs => ?_, fun path other => ?_⟩
        · simp [SessionCache.write_byMac, own, differs]
        · simp [deletePausedSessionFile, own, other]
      · exact ⟨rfl, rfl, fun _ _ => rfl, fun _ _ => rfl⟩

theorem confined_unaffected {address : IPAddress} {server : Server issuer} {job : WsJob} {rest : List WsJob}
    (confined : Confined job.mac server.world after) (queued : server.wsJobs = job :: rest)
    (spared : ∀ own ∈ server.world.cache.ipToMac ip,
      ¬ (macToFilename job.mac = macToFilename own ∨ macToFilename job.mac = macToFilename "")) :
    Unaffected address ip server { server with world := after, wsJobs := rest } where
  clock := confined.clock
  client :=
    { binding := by rw [confined.index]
      entry := fun own bound => confined.entries own fun same => spared own bound (.inl (by rw [same])) }
  files own bound mac known := confined.files _ fun same => spared own bound <| by
    rcases known with rfl | rfl
    · exact .inl same.symm
    · exact .inr same.symm
  window := .refl address ip _
  jobs queued' inside := .inl (queued ▸ List.mem_cons_of_mem _ inside)

/-- A job that hits other clients only leaves the client at the address alone. -/
theorem runJob_unaffected {address : IPAddress} {server : Server issuer}
    (spared : ∀ own ∈ server.world.cache.ipToMac ip, ∀ job ∈ server.wsJobs.head?, ¬ Hits own job) :
    Unaffected address ip server (webSocketTask config around server) := by
  unfold webSocketTask
  split
  · exact .refl address ip server
  · next job rest queued =>
    have head : job ∈ server.wsJobs.head? := by rw [queued]; rfl
    cases type : job.type with
    | pause =>
      refine confined_unaffected (processPause_confined job.mac server.world) queued fun own bound hit => ?_
      exact spared own bound job head ⟨by simp [type], hit⟩
    | resume =>
      refine confined_unaffected (resumeSession_confined job.mac server.world) queued fun own bound hit => ?_
      exact spared own bound job head ⟨by simp [type], hit⟩
    | refreshCache =>
      exact
        { clock := rfl
          client := .refl ip _
          files := fun _ _ _ _ => rfl
          window := .refl address ip _
          jobs := fun other inside => .inl (queued ▸ List.mem_cons_of_mem _ inside) }

end

/-! ## What a refresh leaves -/

section
variable {issuer : Issuer} {config : Config} {ip : String} {cache before after : SessionCache} {flash flash' : Flash}
  {opens : Bool} {client : MergedClient}

theorem refreshClient_binding (keeps : KeepsPlace ip cache client) :
    (refreshClient flash opens cache client).ipToMac ip = cache.ipToMac ip := by
  unfold refreshClient
  simp only
  split
  · rfl
  · next written =>
    have named : client.mac ≠ "" := fun unnamed => written (.inl unnamed)
    have index : (cache.upsert (asString client.ip) client.mac).ipToMac ip = cache.ipToMac ip := by
      by_cases given : asString client.ip = ""
      · rw [given, SessionCache.upsert_ipToMac_empty]
      · rw [SessionCache.upsert_ipToMac given, SessionCache.key_of_mac named]
        unfold KeepsPlace at keeps
        split at keeps
        · next own => rw [if_pos (keeps.resolve_right given).symm, own]
        · next other => rw [if_neg (Ne.symm keeps), if_neg other]
    split <;> simpa using index

theorem refreshClient_sameClient (same : SameClient ip before after) (keeps : KeepsPlace ip before client) :
    SameClient ip (refreshClient flash opens before client) (refreshClient flash' opens after client) := by
  have keeps' : KeepsPlace ip after client := by
    unfold KeepsPlace at keeps ⊢
    rwa [same.binding]
  refine ⟨by rw [refreshClient_binding keeps, refreshClient_binding keeps', same.binding], fun mac bound => ?_⟩
  rw [refreshClient_binding keeps] at bound
  obtain ⟨session, there, -⟩ := before.indexed bound
  have entry := same.entry mac bound
  by_cases named : client.mac = ""
  · rw [refreshClient_unnamed named, refreshClient_unnamed named, entry]
  · rw [refreshClient_byMac named, refreshClient_byMac named, entry, there]
    -- the paused time on disk is read for a new entry only
    rfl

theorem foldl_refreshClient_sameClient {clients : List MergedClient} (same : SameClient ip before after)
    (keeps : ∀ client ∈ clients, KeepsPlace ip before client) :
    SameClient ip (clients.foldl (refreshClient flash opens) before) (clients.foldl (refreshClient flash' opens) after) ∧
      (clients.foldl (refreshClient flash opens) before).ipToMac ip = before.ipToMac ip := by
  induction clients generalizing before after with
  | nil => exact ⟨same, rfl⟩
  | cons first rest ih =>
    obtain ⟨head, tail⟩ := List.forall_mem_cons.mp keeps
    have binding := @refreshClient_binding ip before flash opens first head
    have moved : SameClient ip (refreshClient flash opens before first) (refreshClient flash' opens after first) :=
      refreshClient_sameClient same head
    obtain ⟨later, kept⟩ := ih moved
      (by
        intro client inside
        have there := tail client inside
        unfold KeepsPlace at there ⊢
        rwa [binding])
    exact ⟨later, kept.trans binding⟩

/-- Lists that have the client where it is bring both runs the same of it. -/
theorem refresh_unaffected {address : IPAddress} {first last : Server issuer} {hotspotClients : List HotspotClient}
    {allClients : List WifiClient} (same : Unaffected address ip first last)
    (keeps : ∀ client ∈ mergeClientLists hotspotClients allClients (nowEpochMillis last.world.clock),
      KeepsPlace ip last.world.cache client) :
    Unaffected address ip
      { first with world := refreshWorld config opens hotspotClients allClients first.world }
      { last with world := refreshWorld config opens hotspotClients allClients last.world } := by
  rw [same.clock] at keeps
  obtain ⟨client, binding⟩ := @foldl_refreshClient_sameClient ip first.world.cache last.world.cache first.world.flash
    last.world.flash opens _ same.client (by
      intro client inside
      have there := keeps client inside
      unfold KeepsPlace at there ⊢
      rwa [same.client.binding] at there)
  have binding' : (refreshWorld config opens hotspotClients allClients first.world).cache.ipToMac ip =
      first.world.cache.ipToMac ip := binding
  refine
    { clock := same.clock
      client := ?_
      files := fun own bound => same.files own (binding' ▸ bound)
      window := same.window
      jobs := fun job inside => (same.jobs job inside).imp_right fun others own bound => others own (binding' ▸ bound) }
  simpa only [refreshWorld, Refresh.refreshHotspotSessionCache, same.clock] using client

theorem elapse_unaffected {address : IPAddress} {first last : Server issuer} (same : Unaffected address ip first last)
    (millis : Nat) :
    Unaffected address ip { first with world := { first.world with clock := first.world.clock + millis } }
      { last with world := { last.world with clock := last.world.clock + millis } } where
  clock := by simp only [same.clock]
  client := same.client
  files := same.files
  window := same.window
  jobs := same.jobs

end

/-! ## What the client reads afterwards -/

/-- The client at the address asks for its status, under no MAC or its own. -/
def AsksStatus (ip : String) (cache : SessionCache) : Request → Prop
  | .getStatus request =>
    request.ip = ip ∧ ∀ clientMac, request.clientMac = some clientMac → cache.ipToMac ip = some (cache.key ip clientMac)
  | .ws request => ∃ frame, request.doc = some frame ∧ request.ip frame = ip ∧ frame.action = "getStatus"
  | .root _ | .wsOpen .. => False

/-- A status without what it says of the coin window. -/
def outsideWindow : Reply → Reply
  | .status shown => .status { shown with coinCount := 0, coinInsertTimeLeft := 0 }
  | reply => reply

/-- The slot is held, or is not left to the address. -/
def WindowSettled (address : IPAddress) (ip : String) (tasks : Tasks) : Prop :=
  tasks.coinInsertActive = true ∨ tasks.coinSessionSlot.clientIpV4 ≠ coinIpToU32 address ip

/-- Two replies differ at most in the window of a slot that nobody held. -/
def SameReply (address : IPAddress) (ip : String) (tasks : Tasks) (reply reply' : Reply) : Prop :=
  outsideWindow reply' = outsideWindow reply ∧ (WindowSettled address ip tasks → reply' = reply)

section
variable {address : IPAddress} {config : Config} {ip mac : String} {around : Around} {before after : SessionCache}
  {tasks tasks' : Tasks} {session : SessionParams}

theorem SameClient.findByIp (same : SameClient ip before after) : after.findByIp ip = before.findByIp ip := by
  unfold SessionCache.findByIp
  rw [same.binding]
  cases bound : before.ipToMac ip with
  | none => rfl
  | some mac => simp [same.entry mac bound]

theorem SameWindow.mine (same : SameWindow address ip tasks tasks') (settled : WindowSettled address ip tasks) :
    MyCoinInsertActive address ip tasks' ↔ MyCoinInsertActive address ip tasks := by
  unfold MyCoinInsertActive
  rw [same.owner]
  refine and_congr_left fun mine => ?_
  rcases settled with active | theirs
  · simp [active, (same.held active).1]
  · exact absurd mine.symm theirs

theorem SameWindow.tally (same : SameWindow address ip tasks tasks') :
    tasks'.coinCount = tasks.coinCount ∧ tasks'.coinDeadlineMillis = tasks.coinDeadlineMillis := by
  rw [same.frame]
  exact ⟨rfl, rfl⟩

theorem status_sameReply (same : SameWindow address ip tasks tasks') (at_ : session.clientIp = ip) :
    SameReply address ip tasks (.status (buildStatus address config around "status" session tasks))
      (.status (buildStatus address config around "status" session tasks')) := by
  refine ⟨rfl, fun settled => ?_⟩
  have mine := same.mine settled
  rw [← at_] at mine
  simp only [buildStatus, mine, same.tally.1, same.tally.2]

/-- The updated socket is not part of a status. -/
theorem buildStatus_updateSocket (clientIp : String) (socketFd : Int) (type : String) :
    buildStatus address config around type session (coinSessionUpdateSocket address clientIp socketFd tasks) =
      buildStatus address config around type session tasks := by
  by_cases mine : tasks.coinSessionSlot.clientIpV4 = coinIpToU32 address clientIp
  · have window : MyCoinInsertActive address session.clientIp (coinSessionUpdateSocket address clientIp socketFd tasks) ↔
        MyCoinInsertActive address session.clientIp tasks := by
      simp [MyCoinInsertActive, coinSessionUpdateSocket, mine]
    simp only [buildStatus, window]
    simp only [coinSessionUpdateSocket, if_pos mine]
  · rw [coinSessionUpdateSocket, if_neg mine]

theorem loaded_same {flash flash' : Flash} {opens : Bool}
    (file : flash'.pausedSessions (macToFilename mac) = flash.pausedSessions (macToFilename mac)) (s : SessionParams) :
    (loaded flash' opens mac).apply s = (loaded flash opens mac).apply s := by
  have has : hasPausedSessionFile flash' mac = hasPausedSessionFile flash mac := congrArg Option.isSome file
  have load : loadPausedSessionFile flash' mac opens = loadPausedSessionFile flash mac opens := by
    simp only [loadPausedSessionFile, file]
  simp only [loaded, has, load]

theorem seed_entry (same : SameClient ip before after) {flash flash' : Flash} {opens : Bool} {request : Redirect}
    (at_ : request.clientIp = ip) (bound : before.ipToMac ip = some (before.key ip request.clientMac))
    (file : flash'.pausedSessions (macToFilename request.clientMac) =
      flash.pausedSessions (macToFilename request.clientMac)) :
    (seedPortalSession flash' opens request after).entry (after.key ip request.clientMac) =
        (seedPortalSession flash opens request before).entry (before.key ip request.clientMac) ∧
      ((seedPortalSession flash opens request before).entry (before.key ip request.clientMac)).clientIp = ip := by
  have key : after.key ip request.clientMac = before.key ip request.clientMac := by
    unfold SessionCache.key
    rw [same.binding]
  have own := same.entry _ bound
  obtain ⟨session, there, current⟩ := before.indexed bound
  have made := @byMac_seed before flash opens request
  have made' := @byMac_seed after flash' opens request
  rw [at_] at made made'
  rw [key] at made' ⊢
  have entry : after.entry (before.key ip request.clientMac) = before.entry (before.key ip request.clientMac) := by
    unfold SessionCache.entry
    rw [own]
  rw [SessionCache.entry_of_byMac made, SessionCache.entry_of_byMac made', SessionCache.upsertEntry_eq,
    SessionCache.upsertEntry_eq, entry, loaded_same file]
  refine ⟨rfl, ?_⟩
  rw [FieldWrite.keepsIp, FieldWrite.keepsIp]
  split
  · rw [SessionCache.entry_of_byMac there, current]
  · rfl

/-- A MAC that names the client's own entry is its MAC, or none. -/
theorem key_own {own : String} (named : before.key ip mac = own) : mac = own ∨ mac = "" := by
  by_cases none : mac = ""
  · exact .inr none
  · exact .inl ((SessionCache.key_of_mac none).symm.trans named)

variable {issuer : Issuer} {server last : Server issuer} {request : Request}

theorem serve_sameReply (same : Unaffected address ip server last) (asks : AsksStatus ip server.world.cache request) :
    SameReply address ip server.tasks (serve address config around server request).2
      (serve address config around last request).2 := by
  cases request with
  | root | wsOpen => exact asks.elim
  | getStatus request =>
    obtain ⟨at_, own⟩ := asks
    simp only [serve, handleGetStatus]
    cases given : request.clientMac with
    | some clientMac =>
      have bound := own clientMac given
      obtain ⟨entry, clientIp⟩ := @seed_entry _ _ _ same.client server.world.flash last.world.flash around.loadOpens
        (request.redirect clientMac) at_ bound (same.files _ bound clientMac (key_own rfl))
      simp only [at_, seeded]
      rw [show (request.redirect clientMac).clientMac = clientMac from rfl] at entry clientIp
      rw [entry]
      exact status_sameReply same.window clientIp
    | none =>
      rw [at_, same.client.findByIp]
      cases found : server.world.cache.findByIp ip with
      | none => exact ⟨rfl, fun _ => rfl⟩
      | some session => exact status_sameReply same.window (SessionCache.findByIp_clientIp found)
  | ws request =>
    obtain ⟨frame, read, at_, action⟩ := asks
    simp only [serve, handleWsRequest, read, at_]
    rw [same.client.findByIp]
    cases found : server.world.cache.findByIp ip with
    | none => exact ⟨rfl, fun _ => rfl⟩
    | some session =>
      simp only [handleAction, Server.withCache, action, ↓reduceIte, buildStatus_updateSocket]
      exact status_sameReply same.window ((FieldWrite.keepsIp _ session).trans (SessionCache.findByIp_clientIp found))

theorem step_unaffected {first : Server issuer} {action : Action} (same : Unaffected address ip first server)
    (elsewhere : Elsewhere address ip first.wsJobs server action) (taken : step address config server action = some last) :
    ∃ alone, run (step address config) first ([action].filter Ongoing) = some alone ∧ Unaffected address ip alone last ∧
      alone.wsJobs = first.wsJobs := by
  cases action with
  | serve around request =>
    obtain rfl := Option.some.inj taken
    exact ⟨first, rfl, same.trans (serve_unaffected elsewhere), rfl⟩
  | runJob around =>
    obtain rfl := Option.some.inj taken
    refine ⟨first, rfl, same.trans (runJob_unaffected fun own bound job head hits => ?_), rfl⟩
    rcases same.jobs job (List.mem_of_mem_head? head) with waiting | others
    · exact elsewhere own bound job head waiting hits
    · exact others own (same.client.binding ▸ bound) hits
  | refresh loadOpens hotspotClients allClients =>
    obtain rfl := Option.some.inj taken
    exact ⟨_, rfl, refresh_unaffected same elsewhere, rfl⟩
  | elapse millis =>
    obtain rfl := Option.some.inj taken
    exact ⟨_, rfl, elapse_unaffected same millis, rfl⟩

theorem run_unaffected {first : Server issuer} {actions : List Action} (same : Unaffected address ip first server)
    (elsewhere : Throughout (step address config) (Elsewhere address ip first.wsJobs) server actions)
    (ran : run (step address config) server actions = some last) :
    ∃ alone, run (step address config) first (actions.filter Ongoing) = some alone ∧ Unaffected address ip alone last := by
  induction actions generalizing first server with
  | nil =>
    obtain rfl := Option.some.inj ran
    exact ⟨first, rfl, same⟩
  | cons action rest ih =>
    obtain ⟨next, taken, later⟩ := run_cons.mp ran
    obtain ⟨middle, here, sameNext, waiting⟩ := step_unaffected same elsewhere.1 taken
    obtain ⟨alone, ranOn, sameLast⟩ := ih sameNext (waiting ▸ elsewhere.2 next taken) later
    refine ⟨alone, ?_, sameLast⟩
    rw [← List.singleton_append, List.filter_append, Runs.run_append, here]
    exact ranOn

/-- Any number of requests that are served elsewhere, and the jobs that they queue, leave the
    client at the address as it would be without them, and it reads the status that it would
    have read. -/
theorem portal_noninterference {actions : List Action}
    (elsewhere : Throughout (step address config) (Elsewhere address ip server.wsJobs) server actions) :
    ∃ last alone, run (step address config) server actions = some last ∧
      run (step address config) server (actions.filter Ongoing) = some alone ∧ Unaffected address ip alone last ∧
      ∀ around request, AsksStatus ip alone.world.cache request →
        SameReply address ip alone.tasks (serve address config around alone request).2
          (serve address config around last request).2 := by
  obtain ⟨last, ran⟩ :=
    @Runs.run_total (Server issuer) _ (step address config) (fun _ a => by cases a <;> exact ⟨_, rfl⟩) server actions
  obtain ⟨alone, without, same⟩ := run_unaffected (.refl address ip server) elsewhere ran
  exact ⟨last, alone, ran, without, same, fun around request asks => serve_sameReply same asks⟩

end

/-! ## Two phones -/

def opened (remoteIp clientMac : String) : Request :=
  .root { remoteIp, clientIp := none, clientMac := some clientMac, apMac := none, ssidName := none, radioId := none }

def sent (remoteIp : String) (frame : Frame) : Request :=
  .ws { remoteIp, socketFd := if remoteIp = "10.0.0.5" then 5 else 9, doc := some frame }

def inService : Around where
  loadOpens := true
  isServiceReady := true
  bootTestRunning := false
  millis := 0
  coinButtonPulse := none
  deviceStatusJson := "\x7b\x7d"

/-- The WebSocket task reaches the controller. -/
def atWork : Action :=
  .runJob { link := .up, getClient := fun _ => true, saveOpens := true, loadOpens := true, activityOpens := true }

/-- An hour of two phones is on disk. -/
def paused : Server plainIssuer where
  world :=
    { Finalize.powered with
      flash :=
        { Flash.empty with
          pausedSessions := fun path =>
            if path = macToFilename "0A-00-00-00-00-05" ∨ path = macToFilename "0A-00-00-00-00-06" then some 3600000
            else none } }
  tasks := initial
  wsJobs := []

/-- What the controller lists of the two of them. -/
def listedSessions : List HotspotClient :=
  [{ mac := "0A-00-00-00-00-05", id := "c", startMillis := 1000500, endMillis := 4600500
     authType := omadaAuthTypeExternalPortal, ip := some "10.0.0.5" },
    { mac := "0A-00-00-00-00-06", id := "cc", startMillis := 1000500, endMillis := 4600500
      authType := omadaAuthTypeExternalPortal, ip := some "10.0.0.6" }]

/-- The phone at 10.0.0.5 has opened the portal and runs its session again. -/
def visited : Server plainIssuer :=
  (run (step dottedQuad defaultConfig) paused
    [.serve inService (opened "10.0.0.5" "0A-00-00-00-00-05"),
      .serve inService (sent "10.0.0.5" { clientIp := "", action := "resume" }), atWork,
      .refresh true (listedSessions.take 1) []]).getD paused

/-- Another phone opens it, claims the coin window, and runs and pauses its own session. -/
def another : List Action :=
  [.serve inService (opened "10.0.0.6" "0A-00-00-00-00-06"),
    .serve inService (sent "10.0.0.6" { clientIp := "", action := "startCoinInsert" }),
    .serve inService (sent "10.0.0.6" { clientIp := "", action := "resume" }), atWork,
    .refresh true listedSessions [], .elapse 60000,
    .serve inService (sent "10.0.0.6" { clientIp := "", action := "pause" }), atWork]

theorem portal_noninterference_another :
    ∃ last alone, run (step dottedQuad defaultConfig) visited another = some last ∧
      run (step dottedQuad defaultConfig) visited (another.filter Ongoing) = some alone ∧
      Unaffected dottedQuad "10.0.0.5" alone last ∧
      ∀ around request, AsksStatus "10.0.0.5" alone.world.cache request →
        SameReply dottedQuad "10.0.0.5" alone.tasks (serve dottedQuad defaultConfig around alone request).2
          (serve dottedQuad defaultConfig around last request).2 :=
  portal_noninterference (by decide +kernel)

/-- The address that a request comes from. -/
def remoteIp : Request → String
  | .root request | .getStatus request => request.remoteIp
  | .wsOpen remoteIp _ => remoteIp
  | .ws request => request.remoteIp

/-- Both phones have opened the portal, and the first one's coin window is open. -/
def inserting : Server plainIssuer :=
  { (serve dottedQuad defaultConfig inService visited (opened "10.0.0.6" "0A-00-00-00-00-06")).1 with
    tasks := (run (CoinTasks.step dottedQuad "") initial (windowStart 5 "10.0.0.5" 0)).getD initial }

/-- The button reads as pressed for a tenth of a second. -/
def pressed : Around :=
  { inService with coinButtonPulse := some { source := .button, widthMicros := 100000, timestampMicros := 0, mac := "" } }

/-- The other phone gives the first one's MAC, or its address, or tests a coin, which
    the tasks then count in the open window, or pauses under a MAC that the job cuts to the
    first one's. -/
theorem named_client_moves :
    visited.world.cache.ipToMac "10.0.0.5" = some "0A-00-00-00-00-05" ∧
      (∃ request last, remoteIp request = "10.0.0.6" ∧
        run (step dottedQuad defaultConfig) visited [.serve inService request] = some last ∧
        last.world.cache.ipToMac "10.0.0.5" = none ∧
        last.world.cache.byMac "0A-00-00-00-00-05" ≠ visited.world.cache.byMac "0A-00-00-00-00-05") ∧
      (∃ request last, remoteIp request = "10.0.0.6" ∧
        run (step dottedQuad defaultConfig) visited [.serve inService request] = some last ∧
        last.world.cache.byMac "0A-00-00-00-00-05" ≠ visited.world.cache.byMac "0A-00-00-00-00-05") ∧
      (∃ request last tasks, remoteIp request = "10.0.0.6" ∧
        run (step dottedQuad defaultConfig) inserting [.serve pressed request] = some last ∧
        run (CoinTasks.step dottedQuad "") last.tasks
          [.receivePulse, .checkActive false, .filterPulse 1000, .postEvent, .receiveEvent 1000] = some tasks ∧
        inserting.tasks.coinCount = 0 ∧ tasks.coinCount = 1) ∧
      ∃ visit pause last, remoteIp visit = "10.0.0.6" ∧ remoteIp pause = "10.0.0.6" ∧
        run (step dottedQuad defaultConfig) visited [.serve inService visit, .serve inService pause, atWork] = some last ∧
        last.world.cache.ipToMac "10.0.0.5" = some "0A-00-00-00-00-05" ∧
        last.world.cache.byMac "0A-00-00-00-00-05" ≠ visited.world.cache.byMac "0A-00-00-00-00-05" := by
  refine ⟨by decide +kernel, ⟨opened "10.0.0.6" "0A-00-00-00-00-05", _, rfl, rfl, ?_, ?_⟩,
    ⟨sent "10.0.0.6" { clientIp := "10.0.0.5", action := "getStatus" }, _, rfl, rfl, ?_⟩,
    ⟨sent "10.0.0.6" { clientIp := "", action := "testInsertCoin" }, _, _, rfl, rfl, rfl, ?_, ?_⟩,
    opened "10.0.0.6" "0A-00-00-00-00-05-", sent "10.0.0.6" { clientIp := "", action := "pause" }, _, rfl, rfl, rfl, ?_, ?_⟩ <;>
    decide +kernel

end EllaFi.Noninterference
