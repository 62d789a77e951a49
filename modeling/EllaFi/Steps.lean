import EllaFi.PauseResume
import EllaFi.Runs

/-!
The master as a machine whose steps are whole jobs: a finalized window, a pause, a
resume, a refresh that agrees with the controller, a portal request, and the
passing of time. In every reachable state an identifier that the cache keeps names
no session but that client's own (`reachable_named`), so no call about one client
moves the session of another (`grantCall_sessionEnd`, `disconnect_sessionEnd`).
-/
namespace EllaFi.Steps
open EllaFi.Session EllaFi.Cache EllaFi.Coins EllaFi.Files EllaFi.Omada EllaFi.Refresh EllaFi.Finalize
open EllaFi.PauseResume
open EllaFi.Runs (run run_keeps)

/-! ## Portal requests -/

/-- The parameters that the controller redirects a client with. -/
structure Redirect where
  clientIp : String
  clientMac : String
  apMac : Option String
  ssidName : Option String
  radioId : Option String
deriving DecidableEq, Repr

/-- The paused time on disk, for an entry that has none. -/
def loaded (flash : Flash) (opens : Bool) (mac : String) : FieldWrite where
  apply s :=
    if hasPausedSessionFile flash mac ∧ s.pausedRemainingMillis = 0 then
      { s with pausedRemainingMillis := loadPausedSessionFile flash mac opens }
    else s
  keepsMac s := by split <;> rfl
  keepsIp s := by split <;> rfl

theorem loaded_unrestored {flash : Flash} {opens : Bool} {mac : String} {s : SessionParams}
    (unrestored : hasPausedSessionFile flash mac → s.pausedRemainingMillis ≠ 0) : (loaded flash opens mac).apply s = s :=
  if_neg fun both => unrestored both.1 both.2

/-- The entry of a request is made or found, and takes the request's parameters. -/
def seedPortalSession (flash : Flash) (opens : Bool) (request : Redirect) (cache : SessionCache) : SessionCache :=
  let key := cache.key request.clientIp request.clientMac
  ((cache.upsert request.clientIp request.clientMac).write key
    (setRedirect request.apMac request.ssidName request.radioId)).write key
    (loaded flash opens request.clientMac)

section
variable {cache : SessionCache} {mac : String}

@[simp] theorem seed_ipToMac (flash : Flash) (opens : Bool) (request : Redirect) :
    (seedPortalSession flash opens request cache).ipToMac = (cache.upsert request.clientIp request.clientMac).ipToMac := by
  simp [seedPortalSession]

theorem byMac_seed_other {flash : Flash} {opens : Bool} {request : Redirect}
    (other : mac ≠ cache.key request.clientIp request.clientMac) :
    (seedPortalSession flash opens request cache).byMac mac = cache.byMac mac := by
  simp [seedPortalSession, SessionCache.write_byMac, SessionCache.upsert_byMac, other]

theorem byMac_seed (flash : Flash) (opens : Bool) (request : Redirect) :
    (seedPortalSession flash opens request cache).byMac (cache.key request.clientIp request.clientMac) =
      some ((loaded flash opens request.clientMac).apply
        ((setRedirect request.apMac request.ssidName request.radioId).apply
          (cache.upsertEntry request.clientIp (cache.key request.clientIp request.clientMac)))) := by
  simp [seedPortalSession, SessionCache.write_byMac, SessionCache.upsert_byMac]

end

/-! ## Steps -/

inductive Action where
  | finalize (around : Surroundings) (window : Window)
  | pause (around : JobSurroundings) (mac : String)
  | resume (around : JobSurroundings) (hotspotClients : List HotspotClient) (allClients : List WifiClient)
      (mac : String)
  | refresh (loadOpens : Bool) (hotspotClients : List HotspotClient) (allClients : List WifiClient)
  | seed (loadOpens : Bool) (request : Redirect)
  | elapse (millis : Nat)

section
variable {issuer : Issuer} (config : Config) (address : IPAddress)

/-- The list that a refresh reads agrees with the controller. -/
def Agrees (controller : Controller issuer) (hotspotClients : List HotspotClient) : Prop :=
  ∀ session ∈ hotspotClients, session ∈ controller.hotspotSessions

instance (controller : Controller issuer) (hotspotClients : List HotspotClient) :
    Decidable (Agrees controller hotspotClients) :=
  inferInstanceAs (Decidable (∀ session ∈ hotspotClients, session ∈ controller.hotspotSessions))

def step (world : World issuer) : Action → Option (World issuer)
  | .finalize around window => some (finalizeSession config address around window world).1
  | .pause around mac => some (processPause around mac world).1
  | .resume around hotspotClients allClients mac =>
    if Agrees (resumeSession config around mac world).1.controller hotspotClients then
      some (processResume config around hotspotClients allClients mac world).1
    else none
  | .refresh loadOpens hotspotClients allClients =>
    if Agrees world.controller hotspotClients then
      some (refreshWorld config loadOpens hotspotClients allClients world)
    else none
  | .seed loadOpens request =>
    some { world with cache := seedPortalSession world.flash loadOpens request world.cache }
  | .elapse millis => some { world with clock := world.clock + millis }

end

/-- The request that opens the portal page. -/
def visit : Action :=
  .seed true { clientIp := visitor.clientIp, clientMac := visitor.clientMac
               apMac := none, ssidName := none, radioId := none }

def jobAnswered : JobSurroundings where
  link := .up
  getClient _ := true
  saveOpens := true
  loadOpens := true
  activityOpens := true

/-- A refresh that lists the client's running session, which runs for the time of
    `coins` coins; `earlier` sessions were issued before it. -/
def listed (coins : Nat) (earlier : Nat := 0) : Action :=
  .refresh true
    [{ mac := visitor.clientMac, id := plainIssuer.clientId earlier, startMillis := powered.clock
       endMillis := powered.clock + coinMillis defaultConfig coins, authType := omadaAuthTypeExternalPortal
       ip := some visitor.clientIp }] []

/-! ## What a finalized window does -/

section
variable {issuer : Issuer} {config : Config} {address : IPAddress} {around : Surroundings} {window : Window}
  {world : World issuer}

/-- A window has coins to grant to the entry that its address leads to. -/
structure Grants (address : IPAddress) (window : Window) (world : World issuer) (session : SessionParams) :
    Prop where
  fair : window.fraudEnded = false
  inserted : 0 < window.tally.coinCount
  found : beneficiary address world.cache window.slot = some session

/-- The time is granted, or the controller refuses it, or nothing is asked of the
    controller. -/
theorem finalizeSession_cases :
    (∃ session fields controller flash, Grants address window world session ∧
      grantCall config around.link world session window.tally.coinCount = (.ok fields, controller) ∧
      (finalizeSession config address around window world).2.granted = some session.clientMac ∧
      (finalizeSession config address around window world).1 = { world with
        cache := world.cache.write session.clientMac fields, controller := controller, flash := flash }) ∨
    (∃ session errorDetail controller flash, Grants address window world session ∧
      grantCall config around.link world session window.tally.coinCount = (.error errorDetail, controller) ∧
      (finalizeSession config address around window world).2.granted = none ∧
      (finalizeSession config address around window world).1 = { world with
        controller := controller, flash := flash }) ∨
    ((finalizeSession config address around window world).2.granted = none ∧
      (finalizeSession config address around window world).1 = world) := by
  unfold finalizeSession
  split
  · exact .inr (.inr ⟨rfl, rfl⟩)
  · next fair =>
    split
    · exact .inr (.inr ⟨rfl, rfl⟩)
    · next inserted =>
      split
      · exact .inr (.inr ⟨rfl, rfl⟩)
      · next session found =>
        have grants : Grants address window world session := ⟨by simpa using fair, by omega, found⟩
        split
        · next fields controller called =>
          exact .inl ⟨session, fields, controller, _, grants, called, rfl, rfl⟩
        · next errorDetail controller called =>
          refine .inr (.inl ?_)
          unfold refund
          split
          · exact ⟨session, errorDetail, controller, _, grants, called, rfl, rfl⟩
          · exact ⟨session, errorDetail, controller, world.flash, grants, called, rfl, rfl⟩

/-- What a window with coins to grant does, whatever the controller answers. -/
theorem finalizeSession_grants {session : SessionParams} (grants : Grants address window world session) :
    ∃ flash, (finalizeSession config address around window world).1 = { world with
      cache :=
        match (grantCall config around.link world session window.tally.coinCount).1 with
        | .ok fields => world.cache.write session.clientMac fields
        | .error _ => world.cache
      controller := (grantCall config around.link world session window.tally.coinCount).2
      flash := flash } := by
  have inserted : window.tally.coinCount ≠ 0 := Nat.ne_of_gt grants.inserted
  unfold finalizeSession
  simp only [grants.fair, inserted, grants.found, Bool.false_eq_true, ↓reduceIte]
  rcases grantCall config around.link world session window.tally.coinCount with ⟨reported, controller⟩
  cases reported with
  | ok fields => exact ⟨_, rfl⟩
  | error errorDetail =>
    simp only [refund]
    split
    · exact ⟨_, rfl⟩
    · exact ⟨world.flash, rfl⟩

theorem grants_unique {first second : SessionParams} (one : Grants address window world first)
    (other : Grants address window world second) : first = second :=
  Option.some.inj (one.found.symm.trans other.found)

/-- A window that has nothing to grant leaves the world as it was. -/
theorem finalizeSession_idle (idle : ∀ session, ¬ Grants address window world session) :
    (finalizeSession config address around window world).1 = world := by
  rcases @finalizeSession_cases _ config address around window world with
    ⟨session, _, _, _, grants, -⟩ | ⟨session, _, _, _, grants, -⟩ | ⟨-, after⟩
  · exact absurd grants (idle session)
  · exact absurd grants (idle session)
  · exact after

end

/-! ## Identifiers -/

section
variable {issuer : Issuer}

/-- An identifier that was issued names no session of another client. -/
def Owns (controller : Controller issuer) (mac id : String) : Prop :=
  (id = "" ∨ ∃ n < controller.issued, id = issuer.clientId n) ∧
    ∀ row ∈ controller.hotspotSessions, row.id = id → row.mac = mac

theorem owns_empty (controller : Controller issuer) (mac : String) : Owns controller mac "" := by
  refine ⟨.inl rfl, ?_⟩
  intro row inside blank
  obtain ⟨n, -, own⟩ := controller.known row inside
  exact absurd (own.symm.trans blank) (issuer.nonempty n)

theorem owns_row {controller : Controller issuer} {row : HotspotClient} (inside : row ∈ controller.hotspotSessions) :
    Owns controller row.mac row.id := by
  refine ⟨.inr (controller.known row inside), ?_⟩
  intro other there same
  rw [List.inj_on_of_nodup_map controller.byId there inside same]

theorem owns_continues {before after : Controller issuer} {mac id : String}
    (later : Controller.Continues before after) (owns : Owns before mac id) : Owns after mac id := by
  obtain ⟨issued, own⟩ := owns
  constructor
  · rcases issued with blank | ⟨n, below, name⟩
    · exact .inl blank
    · exact .inr ⟨n, Nat.lt_of_lt_of_le below later.issued, name⟩
  · intro row inside same
    rcases later.inherited row inside with ⟨old, there, sameMac, sameId⟩ | ⟨n, fresh, name⟩
    · exact sameMac ▸ own old there (sameId.trans same)
    · rcases issued with blank | ⟨m, below, old⟩
      · exact absurd (name.symm.trans (same.trans blank)) (issuer.nonempty n)
      · have equal := issuer.distinct (name.symm.trans (same.trans old))
        omega

/-- Every identifier in the cache is its entry's own. -/
def NamedIn (controller : Controller issuer) (cache : SessionCache) : Prop :=
  ∀ mac s, cache.byMac mac = some s → Owns controller mac s.clientId

theorem namedIn_continues {before after : Controller issuer} {cache : SessionCache}
    (later : Controller.Continues before after) (named : NamedIn before cache) : NamedIn after cache :=
  fun mac s found => owns_continues later (named mac s found)

theorem namedIn_write {controller : Controller issuer} {cache : SessionCache} {mac : String} {fields : FieldWrite}
    (named : NamedIn controller cache)
    (keeps : ∀ s, (fields.apply s).clientId = s.clientId ∨ (fields.apply s).clientId = "") :
    NamedIn controller (cache.write mac fields) := by
  intro under s found
  rw [SessionCache.write_byMac] at found
  split at found
  · obtain ⟨before, there, rfl⟩ := Option.map_eq_some_iff.mp found
    rcases keeps before with same | blank
    · exact same ▸ named _ _ there
    · exact blank ▸ owns_empty controller under
  · exact named _ _ found

theorem namedIn_upsert {controller : Controller issuer} {cache : SessionCache} (named : NamedIn controller cache)
    (ip mac : String) : NamedIn controller (cache.upsert ip mac) := by
  intro under s found
  rw [SessionCache.upsert_byMac] at found
  split at found
  · cases found
    have same : (cache.upsertEntry ip under).clientId = (cache.entry under).clientId := by
      unfold SessionCache.upsertEntry
      split <;> rfl
    rw [same]
    cases there : cache.byMac under with
    | none => simpa [SessionCache.entry, there] using owns_empty controller under
    | some before => exact SessionCache.entry_of_byMac there ▸ named _ _ there
  · exact named _ _ found

theorem namedIn_seed {controller : Controller issuer} {cache : SessionCache} (named : NamedIn controller cache)
    (flash : Flash) (opens : Bool) (request : Redirect) :
    NamedIn controller (seedPortalSession flash opens request cache) := by
  refine namedIn_write (namedIn_write (namedIn_upsert named _ _) fun s => .inl rfl) fun s => .inl ?_
  simp only [loaded]
  split <;> rfl

theorem namedIn_refresh {controller : Controller issuer} {cache : SessionCache} (named : NamedIn controller cache)
    {hotspotClients : List HotspotClient} (agrees : Agrees controller hotspotClients) (flash : Flash) (opens : Bool)
    (config : Config) (clock : Nat) (allClients : List WifiClient) :
    NamedIn controller
      (refreshHotspotSessionCache flash opens config clock hotspotClients allClients cache).cache := by
  intro mac s found
  rcases refreshed_byMac config clock hotspotClients allClients mac with same | ⟨session, inside, own, -, made⟩
  · exact named _ _ (same ▸ found)
  · rw [found] at made
    have taken : s.clientId = session.id := refreshedEntry_clientId made.symm
    exact taken ▸ own ▸ owns_row (agrees session inside)

end

/-! ## Calls about one client -/

section
variable {issuer : Issuer} {config : Config} {link : Link} {world : World issuer} {session : SessionParams}
  {coinCount : Nat}

theorem grantCall_continues : Controller.Continues world.controller (grantCall config link world session coinCount).2 := by
  unfold grantCall
  split
  · exact calling_continues _
  · exact calling_continues _

theorem grantCall_later {reported : Except String FieldWrite} {after : Controller issuer}
    (called : grantCall config link world session coinCount = (reported, after)) :
    Controller.Continues world.controller after := by
  have later := @grantCall_continues _ config link world session coinCount
  rwa [called] at later

theorem grantCall_fields {fields : FieldWrite} {after : Controller issuer}
    (called : grantCall config link world session coinCount = (.ok fields, after)) :
    fields = extended (coinMillis config coinCount) ∨
      fields = authenticated (nowEpochMillis world.clock) (coinMillis config coinCount) := by
  unfold grantCall at called
  split at called
  · exact .inl (extend_ok.mp called).2.1
  · exact .inr (authenticate_ok.mp called).2.1

theorem grantCall_refused {errorDetail : String} {after : Controller issuer} (acknowledged : link.Acknowledged)
    (refused : grantCall config link world session coinCount = (.error errorDetail, after)) :
    after = world.controller := by
  unfold grantCall at refused
  split at refused
  · exact calling_refused acknowledged refused
  · exact calling_refused acknowledged refused

/-- A grant moves the session of no other client. -/
theorem grantCall_sessionEnd (owns : Owns world.controller session.clientMac session.clientId) {mac : String}
    (other : mac ≠ session.clientMac) :
    (grantCall config link world session coinCount).2.sessionEnd mac = world.controller.sessionEnd mac := by
  unfold grantCall
  split
  · refine calling_sessionEnd _ ?_
    rintro ⟨row, found, rfl⟩
    obtain ⟨inside, own⟩ := Controller.sessionById_some.mp found
    exact other (owns.2 row inside own)
  · exact calling_sessionEnd _ (Ne.symm other)

/-- What a granted window does to its client's session at the controller. -/
theorem grantCall_granted {fields : FieldWrite} {after : Controller issuer} (inserted : 0 < coinCount)
    (owns : Owns world.controller session.clientMac session.clientId)
    (called : grantCall config link world session coinCount = (.ok fields, after)) :
    (Extends world.clock session ∧ fields = extended (coinMillis config coinCount) ∧
      after.sessionEnd session.clientMac =
        world.controller.sessionEnd session.clientMac + coinMillis config coinCount) ∨
    (¬ Extends world.clock session ∧
      fields = authenticated (nowEpochMillis world.clock) (coinMillis config coinCount) ∧
      after.sessionEnd session.clientMac = world.clock + coinMillis config coinCount) := by
  unfold grantCall at called
  split at called
  · next cached =>
    obtain ⟨-, rfl, found, rfl⟩ := extend_ok.mp called
    obtain ⟨row, there⟩ := Option.isSome_iff_exists.mp found
    obtain ⟨inside, own⟩ := Controller.sessionById_some.mp there
    have mine : row.mac = session.clientMac := owns.2 row inside own
    refine .inl ⟨cached, rfl, ?_⟩
    rw [revise_sessionEnd there, if_pos mine.symm, ← mine, Controller.sessionEnd_of_mem inside]
    rfl
  · next fresh =>
    obtain ⟨-, rfl, rfl⟩ := authenticate_ok.mp called
    have positive := coinMillis_pos config inserted
    have nonzero : coinMillis config coinCount ≠ 0 := by unfold millisPerMinute at positive; omega
    exact .inr ⟨fresh, rfl, by rw [authRequest_sessionEnd, if_neg nonzero]⟩

theorem disconnect_sessionEnd {clock : Nat} {controller : Controller issuer}
    (owns : Owns controller session.clientMac session.clientId) {mac : String} (other : mac ≠ session.clientMac) :
    (disconnectOmadaClient link clock controller session).2.sessionEnd mac = controller.sessionEnd mac := by
  refine calling_sessionEnd _ ?_
  rintro ⟨row, found, rfl⟩
  obtain ⟨inside, own⟩ := Controller.sessionById_some.mp found
  exact other (owns.2 row inside own)

end

/-! ## Reachable states -/

section
variable {issuer : Issuer} {config : Config} {address : IPAddress} {world next : World issuer} {action : Action}

/-- Every identifier in the cache is its entry's own. -/
def Named (world : World issuer) : Prop := NamedIn world.controller world.cache

theorem named_finalize (named : Named world) (around : Surroundings) (window : Window) :
    Named (finalizeSession config address around window world).1 := by
  rcases @finalizeSession_cases _ config address around window world with
    ⟨session, fields, controller, flash, -, called, -, after⟩ |
      ⟨session, errorDetail, controller, flash, -, called, -, after⟩ | ⟨-, after⟩
  · have later := grantCall_later called
    rw [after]
    refine namedIn_write (namedIn_continues later named) fun s => .inl ?_
    rcases grantCall_fields called with rfl | rfl <;> rfl
  · have later := grantCall_later called
    rw [after]
    exact namedIn_continues later named
  · rw [after]
    exact named

theorem named_pause (named : Named world) (around : JobSurroundings) (mac : String) :
    Named (processPause around mac world).1 := by
  rcases @processPause_cases _ around mac world with
    ⟨session, controller, flash, -, -, -, called, after⟩ |
      ⟨session, errorDetail, controller, flash, -, -, -, called, after⟩ | after
  · have later := calling_later called
    rw [after]
    exact namedIn_write (namedIn_write (namedIn_continues later named) fun s => .inr rfl) fun s => .inl rfl
  · have later := calling_later called
    rw [after]
    exact namedIn_continues later named
  · rw [after]
    exact named

theorem named_resumeSession (named : Named world) (around : JobSurroundings) (mac : String) :
    Named (resumeSession config around mac world).1 := by
  rcases @resumeSession_cases _ config around mac world with
    ⟨session, fields, controller, flash, -, -, called, after, -⟩ |
      ⟨session, errorDetail, controller, -, -, called, after, -⟩ | ⟨after, -⟩
  · have later := calling_later called
    obtain ⟨-, rfl, -⟩ := authenticate_ok.mp called
    rw [after]
    exact namedIn_write (namedIn_write (namedIn_continues later named) fun s => .inl rfl) fun s => .inl rfl
  · have later := calling_later called
    rw [after]
    exact namedIn_continues later named
  · rw [after]
    exact named

theorem named_refreshWorld (named : Named world) {hotspotClients : List HotspotClient}
    (agrees : Agrees world.controller hotspotClients) (loadOpens : Bool) (allClients : List WifiClient) :
    Named (refreshWorld config loadOpens hotspotClients allClients world) :=
  namedIn_refresh named agrees _ _ config _ _

theorem processResume_world (around : JobSurroundings) (hotspotClients : List HotspotClient)
    (allClients : List WifiClient) (mac : String) :
    (processResume config around hotspotClients allClients mac world).1 =
      if (resumeSession config around mac world).2.2 then
        refreshWorld config around.loadOpens hotspotClients allClients (resumeSession config around mac world).1
      else (resumeSession config around mac world).1 := by
  unfold processResume
  rcases resumeSession config around mac world with ⟨after, message, granted⟩
  cases granted <;> rfl

theorem step_named (named : Named world) (taken : step config address world action = some next) : Named next := by
  cases action with
  | finalize around window =>
    cases taken
    exact named_finalize named around window
  | pause around mac =>
    cases taken
    exact named_pause named around mac
  | resume around hotspotClients allClients mac =>
    simp only [step, Option.ite_none_right_eq_some, Option.some.injEq] at taken
    obtain ⟨agrees, rfl⟩ := taken
    have resumed := @named_resumeSession _ config world named around mac
    rw [processResume_world]
    split
    · exact named_refreshWorld resumed agrees _ _
    · exact resumed
  | refresh loadOpens hotspotClients allClients =>
    simp only [step, Option.ite_none_right_eq_some, Option.some.injEq] at taken
    obtain ⟨agrees, rfl⟩ := taken
    exact named_refreshWorld named agrees _ _
  | seed loadOpens request =>
    cases taken
    exact namedIn_seed named _ _ _
  | elapse millis =>
    cases taken
    exact named

/-- A device that has just started has an empty cache. -/
def Booted (world : World issuer) : Prop := world.cache = .empty

theorem reachable_named {actions : List Action} {last : World issuer} (booted : Booted world)
    (ran : run (step config address) world actions = some last) : Named last := by
  refine run_keeps (fun _ _ _ named taken => step_named named taken) ?_ ran
  intro mac s found
  rw [booted] at found
  cases found

end

end EllaFi.Steps
