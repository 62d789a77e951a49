import EllaFi.Finalize
import EllaFi.Refresh

/-!
The jobs of the WebSocket task. A pause writes the remaining time to disk, ends
the controller's session and keeps the time in the entry; a resume asks the
controller for a session of that length and reads the client lists again. Both
name the client by MAC.
-/
namespace EllaFi.PauseResume
open EllaFi.Session EllaFi.Cache EllaFi.Files EllaFi.Omada EllaFi.Refresh EllaFi.Finalize

/-- What a job meets: the way to the controller, the connected sockets, and which
    files open. -/
structure JobSurroundings where
  link : Link
  getClient : Int → Bool
  saveOpens : Bool
  loadOpens : Bool
  activityOpens : Bool

/-- A message to the client that asked for the job. -/
inductive JobMessage where
  | status (type : String)
  | error (subtype message detail : String)
deriving DecidableEq, Repr

section
variable {issuer : Issuer} (config : Config) (around : JobSurroundings)

/-- The message is sent if the entry's socket is still connected. -/
def tell (session : SessionParams) (message : JobMessage) : Option JobMessage :=
  if around.getClient session.socketFd then some message else none

def processPause (mac : String) (world : World issuer) : World issuer × Option JobMessage :=
  match world.cache.findByMac mac with
  | none => (world, none)
  | some session =>
    if session.sessionEndMillis = 0 ∨ session.clientId = "" then
      (world, tell around session (.error errSubtypeNoSession "No active session to pause" ""))
    else if session.sessionEndMillis ≤ nowEpochMillis world.clock then
      (world, tell around session (.error "" "No time remaining" ""))
    else
      let remaining := toUnsignedLong (session.sessionEndMillis - nowEpochMillis world.clock)
      match savePausedSessionFile world.flash session.clientMac around.saveOpens remaining with
      | none => (world, tell around session (.error "" "Pause failed" "Could not save to filesystem"))
      | some flash =>
        match disconnectOmadaClient around.link world.clock world.controller session with
        | (.ok fields, controller) =>
          ({ world with
              cache := (world.cache.write session.clientMac fields).write session.clientMac (setPaused remaining)
              controller := controller
              flash := appendActivityLog flash world.clock around.activityOpens "PAUSE" session.clientMac 0
                (remaining / millisPerMinute : Nat) },
            tell around session (.status "paused"))
        | (.error errorDetail, controller) =>
          ({ world with controller := controller, flash := deletePausedSessionFile flash session.clientMac },
            tell around session (.error "" "Pause failed" errorDetail))

/-- The cache after both client lists were read. -/
def refreshWorld (loadOpens : Bool) (hotspotClients : List HotspotClient) (allClients : List WifiClient)
    (world : World issuer) : World issuer :=
  { world with cache :=
      (refreshHotspotSessionCache world.flash loadOpens config world.clock hotspotClients allClients
        world.cache).cache }

/-- A resume up to the refresh; the flag says whether the controller granted it. -/
def resumeSession (mac : String) (world : World issuer) : World issuer × Option JobMessage × Bool :=
  match world.cache.findByMac mac with
  | none => (world, none, false)
  | some session =>
    let pausedRemainingMillis := session.pausedRemainingMillis
    if pausedRemainingMillis = 0 then
      (world, tell around session (.error "" "No paused session to resume" ""), false)
    else
      match authenticateOmadaClient around.link world.clock world.controller config session pausedRemainingMillis with
      | (.ok fields, controller) =>
        let flash := appendActivityLog world.flash world.clock around.activityOpens "RESUME" session.clientMac 0
          (pausedRemainingMillis / millisPerMinute : Nat)
        ({ world with
            cache := (world.cache.write session.clientMac fields).write session.clientMac (setPaused 0)
            controller := controller
            flash := deletePausedSessionFile flash session.clientMac },
          tell around session (.status "resumed"), true)
      | (.error errorDetail, controller) =>
        ({ world with controller := controller }, tell around session (.error "" "Resume failed" errorDetail), false)

/-- The controller's lists are read only after it granted the session. -/
def processResume (hotspotClients : List HotspotClient) (allClients : List WifiClient) (mac : String)
    (world : World issuer) : World issuer × Option JobMessage :=
  match resumeSession config around mac world with
  | (world, message, true) => (refreshWorld config around.loadOpens hotspotClients allClients world, message)
  | (world, message, false) => (world, message)

end

/-! ## What the jobs do -/

section
variable {issuer : Issuer} {config : Config} {around : JobSurroundings} {mac : String} {world : World issuer}

/-- The entry is a running session that the controller can be asked to end. -/
def Pausable (clock : Nat) (session : SessionParams) : Prop :=
  session.clientId ≠ "" ∧ nowEpochMillis clock < session.sessionEndMillis

/-- A pause takes effect, or the controller refuses it, or nothing is asked of the
    controller. -/
theorem processPause_cases :
    (∃ session controller flash, world.cache.findByMac mac = some session ∧ Pausable world.clock session ∧
      around.saveOpens ∧
      disconnectOmadaClient around.link world.clock world.controller session = (.ok disconnected, controller) ∧
      (processPause around mac world).1 = { world with
        cache := (world.cache.write mac disconnected).write mac
          (setPaused (toUnsignedLong (session.sessionEndMillis - nowEpochMillis world.clock)))
        controller := controller
        flash := flash }) ∨
    (∃ session errorDetail controller flash, world.cache.findByMac mac = some session ∧
      Pausable world.clock session ∧ around.saveOpens ∧
      disconnectOmadaClient around.link world.clock world.controller session = (.error errorDetail, controller) ∧
      (processPause around mac world).1 = { world with controller := controller, flash := flash }) ∨
    (processPause around mac world).1 = world := by
  unfold processPause
  cases found : world.cache.findByMac mac with
  | none => exact .inr (.inr rfl)
  | some session =>
    have own : session.clientMac = mac := world.cache.keyed (SessionCache.findByMac_some.mp found).2
    simp only
    split
    · exact .inr (.inr rfl)
    · next running =>
      obtain ⟨-, named⟩ := not_or.mp running
      split
      · exact .inr (.inr rfl)
      · next time =>
        have pausable : Pausable world.clock session := ⟨named, by omega⟩
        split
        · exact .inr (.inr rfl)
        · next flash saved =>
          have opened : around.saveOpens := by
            by_contra closed
            simp [savePausedSessionFile, closed] at saved
          split
          · next fields controller called =>
            obtain ⟨-, rfl, -⟩ := disconnect_ok.mp called
            exact .inl ⟨session, controller, _, rfl, pausable, opened, called, by rw [own]⟩
          · next errorDetail controller called =>
            exact .inr (.inl ⟨session, errorDetail, controller, _, rfl, pausable, opened, called, rfl⟩)

/-- A resume is granted, or the controller refuses it, or nothing is asked of the
    controller. -/
theorem resumeSession_cases :
    (∃ session fields controller flash, world.cache.findByMac mac = some session ∧
      session.pausedRemainingMillis ≠ 0 ∧
      authenticateOmadaClient around.link world.clock world.controller config session
        session.pausedRemainingMillis = (.ok fields, controller) ∧
      (resumeSession config around mac world).1 = { world with
        cache := (world.cache.write mac fields).write mac (setPaused 0), controller := controller, flash := flash } ∧
      (resumeSession config around mac world).2.2 = true) ∨
    (∃ session errorDetail controller, world.cache.findByMac mac = some session ∧
      session.pausedRemainingMillis ≠ 0 ∧
      authenticateOmadaClient around.link world.clock world.controller config session
        session.pausedRemainingMillis = (.error errorDetail, controller) ∧
      (resumeSession config around mac world).1 = { world with controller := controller } ∧
      (resumeSession config around mac world).2.2 = false) ∨
    ((resumeSession config around mac world).1 = world ∧ (resumeSession config around mac world).2.2 = false) := by
  unfold resumeSession
  cases found : world.cache.findByMac mac with
  | none => exact .inr (.inr ⟨rfl, rfl⟩)
  | some session =>
    have own : session.clientMac = mac := world.cache.keyed (SessionCache.findByMac_some.mp found).2
    simp only
    split
    · exact .inr (.inr ⟨rfl, rfl⟩)
    · next paused =>
      split
      · next fields controller called =>
        exact .inl ⟨session, fields, controller, _, rfl, paused, called, by rw [own], rfl⟩
      · next errorDetail controller called =>
        exact .inr (.inl ⟨session, errorDetail, controller, rfl, paused, called, rfl, rfl⟩)

/-- What a pause of a running session does, whatever the controller answers. -/
theorem processPause_asks {session : SessionParams} (found : world.cache.findByMac mac = some session)
    (pausable : Pausable world.clock session) (opened : around.saveOpens = true) :
    ∃ flash, (processPause around mac world).1 = { world with
      cache :=
        match (disconnectOmadaClient around.link world.clock world.controller session).1 with
        | .ok fields => (world.cache.write mac fields).write mac
            (setPaused (toUnsignedLong (session.sessionEndMillis - nowEpochMillis world.clock)))
        | .error _ => world.cache
      controller := (disconnectOmadaClient around.link world.clock world.controller session).2
      flash := flash } := by
  have own : session.clientMac = mac := world.cache.keyed (SessionCache.findByMac_some.mp found).2
  have running : ¬ (session.sessionEndMillis = 0 ∨ session.clientId = "") :=
    not_or.mpr ⟨Nat.ne_of_gt (Nat.zero_lt_of_lt pausable.2), pausable.1⟩
  unfold processPause
  simp only [found, running, Nat.not_le.mpr pausable.2, savePausedSessionFile, opened, own, ↓reduceIte]
  rcases disconnectOmadaClient around.link world.clock world.controller session with ⟨reported, controller⟩
  cases reported with
  | ok fields => exact ⟨_, rfl⟩
  | error errorDetail => exact ⟨_, rfl⟩

theorem processPause_idle (idle : ¬ ∃ session, world.cache.findByMac mac = some session ∧ Pausable world.clock session ∧
    around.saveOpens = true) : (processPause around mac world).1 = world := by
  rcases @processPause_cases _ around mac world with
    ⟨session, _, _, found, pausable, opened, -⟩ | ⟨session, _, _, _, found, pausable, opened, -⟩ | after
  · exact absurd ⟨session, found, pausable, opened⟩ idle
  · exact absurd ⟨session, found, pausable, opened⟩ idle
  · exact after

/-- What a resume of paused time does, whatever the controller answers. -/
theorem resumeSession_asks {session : SessionParams} (found : world.cache.findByMac mac = some session)
    (paused : session.pausedRemainingMillis ≠ 0) :
    ∃ flash, (resumeSession config around mac world).1 = { world with
        cache :=
          match (authenticateOmadaClient around.link world.clock world.controller config session
            session.pausedRemainingMillis).1 with
          | .ok fields => (world.cache.write mac fields).write mac (setPaused 0)
          | .error _ => world.cache
        controller := (authenticateOmadaClient around.link world.clock world.controller config session
          session.pausedRemainingMillis).2
        flash := flash } ∧
      (resumeSession config around mac world).2.2 =
        (authenticateOmadaClient around.link world.clock world.controller config session
          session.pausedRemainingMillis).1.isOk := by
  have own : session.clientMac = mac := world.cache.keyed (SessionCache.findByMac_some.mp found).2
  unfold resumeSession
  simp only [found, paused, own, ↓reduceIte]
  rcases authenticateOmadaClient around.link world.clock world.controller config session
    session.pausedRemainingMillis with ⟨reported, controller⟩
  cases reported with
  | ok fields => exact ⟨_, rfl, rfl⟩
  | error errorDetail => exact ⟨world.flash, rfl, rfl⟩

theorem resumeSession_idle
    (idle : ¬ ∃ session, world.cache.findByMac mac = some session ∧ session.pausedRemainingMillis ≠ 0) :
    (resumeSession config around mac world).1 = world ∧ (resumeSession config around mac world).2.2 = false := by
  rcases @resumeSession_cases _ config around mac world with
    ⟨session, _, _, _, found, paused, -⟩ | ⟨session, _, _, found, paused, -⟩ | unchanged
  · exact absurd ⟨session, found, paused⟩ idle
  · exact absurd ⟨session, found, paused⟩ idle
  · exact unchanged

end

end EllaFi.PauseResume
