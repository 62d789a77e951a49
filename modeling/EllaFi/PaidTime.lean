import EllaFi.Prepaid
import EllaFi.Steps

/-!
A client's paid time across the jobs of the master. Seen through one client's
entry and session (`meterOf`), every step that loses nothing is a move of a
prepaid meter (`step_follows`), so over any run the running and the paused time
are together what was paid minus what elapsed, up to a second for each step
(`paid_time`). A step loses nothing unless a reply of the controller is lost, a
pause finds a paused balance, a resume finds a running session, or a window's
client is running under no identifier (`Lossless`).
-/
namespace EllaFi.PaidTime
open EllaFi.Session EllaFi.Cache EllaFi.Coins EllaFi.Files EllaFi.Omada EllaFi.Refresh EllaFi.Finalize
open EllaFi.PauseResume EllaFi.Steps
open EllaFi.Prepaid (Meter Move Sound CoarseClock paid_time_conserved step_sound)
open EllaFi.Runs (run inflow Throughout run_simulates)

/-- The clock of the firmware ticks in seconds. -/
def seconds : CoarseClock where
  read := nowEpochMillis
  tick := 1000
  below := nowEpochMillis_le
  close := clock_lt_nowEpochMillis
  mono := nowEpochMillis_mono

section
variable {issuer : Issuer} (config : Config) (address : IPAddress) (mac : String)

/-- One client's time, as the cache and the controller keep it. -/
def meterOf (world : World issuer) : Meter where
  clock := world.clock
  known := (world.cache.byMac mac).isSome
  cached := (world.cache.entry mac).sessionEndMillis
  paused := (world.cache.entry mac).pausedRemainingMillis
  granted := world.controller.sessionEnd mac

/-- The time that a client has left, running or paused. -/
def timeLeft (world : World issuer) : Nat :=
  ((world.cache.entry mac).sessionEndMillis - world.clock) + (world.cache.entry mac).pausedRemainingMillis

/-- What the client pays for in a step. -/
def paidMillis (world : World issuer) : Action → Nat
  | .finalize around window =>
    if (finalizeSession config address around window world).2.granted = some mac then
      coinMillis config window.tally.coinCount
    else 0
  | _ => 0

/-- The running time that a step lets pass. -/
def elapsedMillis (world : World issuer) : Action → Nat
  | .elapse millis => min millis ((world.cache.entry mac).sessionEndMillis - world.clock)
  | _ => 0

def netMillis (world : World issuer) (action : Action) : Int :=
  (paidMillis config address mac world action : Int) - elapsedMillis mac world action

/-- Nothing of this client's time is lost or doubled: no reply about it is lost, a
    window finds it running only under an identifier, a pause finds nothing paused
    and less than 2^32 milliseconds, a resume finds nothing running, and a portal
    request finds no file of paused time to load. -/
def Lossless (world : World issuer) : Action → Prop
  | .finalize around window => ∀ session, Grants address window world session → session.clientMac = mac →
      around.link.Acknowledged ∧
        (around.link = .up → nowEpochMillis world.clock < session.sessionEndMillis → session.clientId ≠ "")
  | .pause around job => job = mac → ∀ session, world.cache.findByMac mac = some session →
      Pausable world.clock session → around.saveOpens → around.link.Acknowledged ∧
        (around.link = .up → session.pausedRemainingMillis = 0 ∧
          session.sessionEndMillis - nowEpochMillis world.clock < 2 ^ 32)
  | .resume around _ _ job => job = mac → ∀ session, world.cache.findByMac mac = some session →
      session.pausedRemainingMillis ≠ 0 → around.link.Acknowledged ∧
        (around.link = .up → session.sessionEndMillis ≤ nowEpochMillis world.clock)
  | .seed _ request => world.cache.key request.clientIp request.clientMac = mac →
      hasPausedSessionFile world.flash request.clientMac → (world.cache.entry mac).pausedRemainingMillis ≠ 0
  | .refresh .. | .elapse .. => True

end

/-! ## Each step is a move of the meter -/

section
variable {issuer : Issuer} {config : Config} {address : IPAddress} {mac : String} {world next : World issuer}

theorem idle_follows (same : meterOf mac next = meterOf mac world) :
    Prepaid.step seconds (meterOf mac world) .idle = some (meterOf mac next) := by
  rw [same]; rfl

theorem meterOf_eq {session : SessionParams} (found : world.cache.byMac mac = some session) :
    meterOf mac world =
      { clock := world.clock, known := true, cached := session.sessionEndMillis
        paused := session.pausedRemainingMillis, granted := world.controller.sessionEnd mac } := by
  simp [meterOf, found, SessionCache.entry_of_byMac found]

/-- A change of the controller that is about another client leaves the meter. -/
theorem meterOf_frame (clock : next.clock = world.clock) (entry : next.cache.byMac mac = world.cache.byMac mac)
    (session : next.controller.sessionEnd mac = world.controller.sessionEnd mac) :
    meterOf mac next = meterOf mac world := by
  simp [meterOf, clock, session, SessionCache.entry, entry]

theorem finalize_follows {around : Surroundings} {window : Window} (named : Named world)
    (lossless : Lossless address mac world (.finalize around window)) :
    ∃ move, Prepaid.step seconds (meterOf mac world) move =
        some (meterOf mac (finalizeSession config address around window world).1) ∧
      Prepaid.brings (meterOf mac world) move = netMillis config address mac world (.finalize around window) := by
  rcases @finalizeSession_cases _ config address around window world with
    ⟨session, fields, controller, flash, grants, called, granted, after⟩ |
      ⟨session, errorDetail, controller, flash, grants, called, granted, after⟩ | ⟨granted, after⟩
  · obtain ⟨-, there⟩ := SessionCache.findByIp_some.mp grants.found
    have owns := named _ _ there
    rw [after]
    by_cases mine : session.clientMac = mac
    · subst mine
      have running := (lossless session grants rfl).2
      have paid : netMillis config address session.clientMac world (.finalize around window) =
          coinMillis config window.tally.coinCount := by
        simp [netMillis, paidMillis, elapsedMillis, granted]
      have wrote := SessionCache.write_self fields there
      rw [paid, meterOf_eq there, meterOf_eq wrote]
      rcases grantCall_granted grants.inserted owns called with ⟨cached, rfl, ends⟩ | ⟨fresh, rfl, ends⟩
      · refine ⟨.extend (coinMillis config window.tally.coinCount), ?_, rfl⟩
        simp [Prepaid.step, seconds, cached.1, ends, extended]
      · refine ⟨.authenticate (coinMillis config window.tally.coinCount), ?_, rfl⟩
        have up : around.link = .up := by
          unfold grantCall at called
          rw [if_neg fresh] at called
          exact (authenticate_ok.mp called).1
        have finished : session.sessionEndMillis ≤ nowEpochMillis world.clock := by
          by_contra still
          exact fresh ⟨by omega, running up (by omega)⟩
        simp [Prepaid.step, seconds, finished, ends, authenticated]
    · have unpaid : netMillis config address mac world (.finalize around window) = 0 := by
        simp [netMillis, paidMillis, elapsedMillis, granted, mine]
      refine ⟨.idle, idle_follows (meterOf_frame rfl ?_ ?_), unpaid.symm⟩
      · rw [SessionCache.write_byMac, if_neg (Ne.symm mine)]
      · have frame := @grantCall_sessionEnd _ config around.link world session window.tally.coinCount owns mac (Ne.symm mine)
        rwa [called] at frame
  · have unpaid : netMillis config address mac world (.finalize around window) = 0 := by
      simp [netMillis, paidMillis, elapsedMillis, granted]
    obtain ⟨-, there⟩ := SessionCache.findByIp_some.mp grants.found
    rw [after]
    refine ⟨.idle, idle_follows (meterOf_frame rfl rfl ?_), unpaid.symm⟩
    by_cases mine : session.clientMac = mac
    · simp only [grantCall_refused (lossless session grants mine).1 called]
    · have frame := @grantCall_sessionEnd _ config around.link world session window.tally.coinCount (named _ _ there)
        mac (Ne.symm mine)
      rwa [called] at frame
  · have unpaid : netMillis config address mac world (.finalize around window) = 0 := by
      simp [netMillis, paidMillis, elapsedMillis, granted]
    exact ⟨.idle, idle_follows (by rw [after]), unpaid.symm⟩

theorem pause_follows {around : JobSurroundings} {job : String} (named : Named world)
    (lossless : Lossless address mac world (.pause around job)) :
    ∃ move, Prepaid.step seconds (meterOf mac world) move = some (meterOf mac (processPause around job world).1) ∧
      Prepaid.brings (meterOf mac world) move = 0 := by
  rcases @processPause_cases _ around job world with
    ⟨session, controller, flash, found, pausable, opened, called, after⟩ |
      ⟨session, errorDetail, controller, flash, found, pausable, opened, called, after⟩ | after
  · obtain ⟨-, there⟩ := SessionCache.findByMac_some.mp found
    have own := world.cache.keyed there
    have owns : Owns world.controller session.clientMac session.clientId := own ▸ named _ _ there
    rw [after]
    by_cases mine : job = mac
    · subst mine
      obtain ⟨up, -, known, rfl⟩ := disconnect_ok.mp called
      obtain ⟨free, small⟩ := (lossless rfl session found pausable opened).2 up
      obtain ⟨row, named_⟩ := Option.isSome_iff_exists.mp known
      obtain ⟨inside, sameId⟩ := Controller.sessionById_some.mp named_
      have rowMac : row.mac = job := (owns.2 row inside sameId).trans own
      have ends : (world.controller.revise (fun row => row.id = session.clientId) (ended world.clock)).sessionEnd job =
          world.clock := by
        rw [revise_sessionEnd named_, if_pos rowMac.symm]
        rfl
      have wrote := SessionCache.write_self
        (setPaused (toUnsignedLong (session.sessionEndMillis - nowEpochMillis world.clock)))
        (SessionCache.write_self disconnected there)
      refine ⟨.pause, ?_, rfl⟩
      rw [meterOf_eq there, meterOf_eq wrote, toUnsignedLong, Nat.mod_eq_of_lt small, ends]
      simp [Prepaid.step, seconds, pausable.2, free, setPaused, disconnected]
    · refine ⟨.idle, idle_follows (meterOf_frame rfl ?_ ?_), rfl⟩
      · simp [SessionCache.write_byMac, Ne.symm mine]
      · have frame := @disconnect_sessionEnd _ around.link session world.clock world.controller owns mac
          (own ▸ Ne.symm mine)
        rwa [called] at frame
  · obtain ⟨-, there⟩ := SessionCache.findByMac_some.mp found
    have own := world.cache.keyed there
    rw [after]
    refine ⟨.idle, idle_follows (meterOf_frame rfl rfl ?_), rfl⟩
    by_cases mine : job = mac
    · subst mine
      simp only [calling_refused (lossless rfl session found pausable opened).1 called]
    · have frame := @disconnect_sessionEnd _ around.link session world.clock world.controller
        (own ▸ named _ _ there) mac (own ▸ Ne.symm mine)
      rwa [called] at frame
  · exact ⟨.idle, idle_follows (by rw [after]), rfl⟩

/-- A refresh reads the end of a running session from the controller, or leaves the
    client alone. -/
theorem refreshWorld_follows {loadOpens : Bool} {hotspotClients : List HotspotClient} {allClients : List WifiClient}
    (sound : Sound seconds (meterOf mac world)) (agrees : Agrees world.controller hotspotClients) :
    meterOf mac (refreshWorld config loadOpens hotspotClients allClients world) = meterOf mac world ∨
      ((meterOf mac world).known ∧ nowEpochMillis world.clock < world.controller.sessionEnd mac ∧
        meterOf mac (refreshWorld config loadOpens hotspotClients allClients world) =
          { meterOf mac world with cached := world.controller.sessionEnd mac }) := by
  rcases @refreshed_byMac world.flash loadOpens world.cache config world.clock hotspotClients allClients mac with
    same | ⟨session, inside, own, active, made⟩
  · exact .inl (meterOf_frame rfl same rfl)
  · have ends : world.controller.sessionEnd mac = session.endMillis :=
      own ▸ Controller.sessionEnd_of_mem (agrees session inside)
    have running : nowEpochMillis world.clock < world.controller.sessionEnd mac := ends ▸ active.1
    cases there : world.cache.byMac mac with
    | none =>
      have unknown : (meterOf mac world).known = false := by simp [meterOf, there]
      rcases sound with ⟨known, -⟩ | ⟨-, -, past⟩
      · rw [unknown] at known
        cases known
      · exact absurd running (Nat.not_lt.mpr (past unknown))
    | some before =>
      rw [there] at made
      obtain ⟨after, wrote⟩ : ∃ after, (refreshWorld config loadOpens hotspotClients allClients world).cache.byMac mac =
          some after := ⟨_, made⟩
      obtain ⟨read, -, kept⟩ := refreshedEntry_known (made.symm.trans wrote)
      refine .inr ⟨by simp [meterOf, there], running, ?_⟩
      rw [meterOf_eq there, meterOf_eq wrote, read, kept, ends]
      simp [refreshWorld, mergedClient, ends]

theorem refresh_follows {loadOpens : Bool} {hotspotClients : List HotspotClient} {allClients : List WifiClient}
    (sound : Sound seconds (meterOf mac world)) (agrees : Agrees world.controller hotspotClients) :
    ∃ move, Prepaid.step seconds (meterOf mac world) move =
        some (meterOf mac (refreshWorld config loadOpens hotspotClients allClients world)) ∧
      Prepaid.brings (meterOf mac world) move = 0 := by
  rcases @refreshWorld_follows _ config mac world loadOpens hotspotClients allClients sound agrees with
    same | ⟨known, running, synced⟩
  · exact ⟨.idle, idle_follows same, rfl⟩
  · refine ⟨.sync, ?_, rfl⟩
    rw [synced]
    exact if_pos ⟨known, running⟩

theorem resume_follows {around : JobSurroundings} {hotspotClients : List HotspotClient}
    {allClients : List WifiClient} {job : String} (sound : Sound seconds (meterOf mac world))
    (lossless : Lossless address mac world (.resume around hotspotClients allClients job))
    (agrees : Agrees (resumeSession config around job world).1.controller hotspotClients) :
    ∃ move, Prepaid.step seconds (meterOf mac world) move =
        some (meterOf mac (processResume config around hotspotClients allClients job world).1) ∧
      Prepaid.brings (meterOf mac world) move = 0 := by
  rw [processResume_world]
  rcases @resumeSession_cases _ config around job world with
    ⟨session, fields, controller, flash, found, paused, called, after, granted⟩ |
      ⟨session, errorDetail, controller, found, paused, called, after, refused⟩ | ⟨after, refused⟩
  · obtain ⟨-, there⟩ := SessionCache.findByMac_some.mp found
    have own := world.cache.keyed there
    obtain ⟨up, rfl, rfl⟩ := authenticate_ok.mp called
    rw [if_pos granted]
    by_cases mine : job = mac
    · subst mine
      have finished := (lossless rfl session found paused).2 up
      have ends : (resumeSession config around job world).1.controller.sessionEnd job =
          world.clock + session.pausedRemainingMillis := by
        rw [after]
        have sent := @authRequest_sessionEnd _ world.clock world.controller config session session.pausedRemainingMillis
        rwa [own, if_neg paused] at sent
      have wrote : (resumeSession config around job world).1.cache.byMac job =
          some ((setPaused 0).apply ((authenticated (nowEpochMillis world.clock) session.pausedRemainingMillis).apply
            session)) := by
        rw [after]
        exact SessionCache.write_self (setPaused 0) (SessionCache.write_self _ there)
      have clock : (resumeSession config around job world).1.clock = world.clock := by rw [after]
      have unread : Prepaid.step seconds (meterOf job world) (.resume false) =
          some (meterOf job (resumeSession config around job world).1) := by
        rw [meterOf_eq there, meterOf_eq wrote, ends, clock]
        simp [Prepaid.step, seconds, finished, setPaused, authenticated]
      have read : Prepaid.step seconds (meterOf job world) (.resume true) =
          some { meterOf job (resumeSession config around job world).1 with
            cached := world.clock + session.pausedRemainingMillis } := by
        rw [meterOf_eq there, meterOf_eq wrote, ends, clock]
        simp [Prepaid.step, seconds, finished, setPaused]
      have resumed : Sound seconds (meterOf job (resumeSession config around job world).1) := step_sound sound unread
      rcases @refreshWorld_follows _ config job _ around.loadOpens hotspotClients allClients resumed agrees with
        same | ⟨-, -, synced⟩
      · exact ⟨.resume false, by rw [unread, same], rfl⟩
      · exact ⟨.resume true, by rw [read, synced, ends], rfl⟩
    · have same : meterOf mac (resumeSession config around job world).1 = meterOf mac world := by
        rw [after]
        refine meterOf_frame rfl ?_ ?_
        · simp [SessionCache.write_byMac, Ne.symm mine]
        · rw [auth_sessionEnd, if_neg]
          exact fun equal => mine (own.symm.trans equal.symm)
      rw [← same] at sound ⊢
      exact refresh_follows sound agrees
  · obtain ⟨-, there⟩ := SessionCache.findByMac_some.mp found
    have own := world.cache.keyed there
    rw [if_neg (by rw [refused]; decide), after]
    refine ⟨.idle, idle_follows (meterOf_frame rfl rfl ?_), rfl⟩
    by_cases mine : job = mac
    · subst mine
      simp only [calling_refused (lossless rfl session found paused).1 called]
    · have frame := @calling_sessionEnd _ around.link world.clock world.controller "Auth"
        (.auth (authRequest config session session.pausedRemainingMillis))
        (authenticated (nowEpochMillis world.clock) session.pausedRemainingMillis) mac
        (fun same => mine (own.symm.trans same))
      rwa [show calling _ _ _ _ _ _ = _ from called] at frame
  · rw [if_neg (by rw [refused]; decide)]
    exact ⟨.idle, idle_follows (by rw [after]), rfl⟩

theorem seed_follows {loadOpens : Bool} {request : Redirect}
    (lossless : Lossless address mac world (.seed loadOpens request)) :
    ∃ move, Prepaid.step seconds (meterOf mac world) move =
        some (meterOf mac { world with cache := seedPortalSession world.flash loadOpens request world.cache }) ∧
      Prepaid.brings (meterOf mac world) move = 0 := by
  by_cases mine : mac = world.cache.key request.clientIp request.clientMac
  · subst mine
    refine ⟨.enroll, ?_, rfl⟩
    have seeded := @meterOf_eq _ _
      { world with cache := seedPortalSession world.flash loadOpens request world.cache } _
      (byMac_seed world.flash loadOpens request)
    have unrestored : hasPausedSessionFile world.flash request.clientMac →
        ((setRedirect request.apMac request.ssidName request.radioId).apply
          (world.cache.upsertEntry request.clientIp
            (world.cache.key request.clientIp request.clientMac))).pausedRemainingMillis ≠ 0 := by
      rw [SessionCache.upsertEntry_eq]
      exact lossless rfl
    rw [seeded, loaded_unrestored unrestored, SessionCache.upsertEntry_eq]
    rfl
  · exact ⟨.idle, idle_follows (meterOf_frame rfl (byMac_seed_other mine) rfl), rfl⟩

/-- What a client sees of a step that loses nothing is one move of its meter, which
    pays what the step pays. -/
theorem step_follows {action : Action} (named : Named world) (sound : Sound seconds (meterOf mac world))
    (lossless : Lossless address mac world action) (taken : step config address world action = some next) :
    ∃ move, Prepaid.step seconds (meterOf mac world) move = some (meterOf mac next) ∧
      Prepaid.brings (meterOf mac world) move = netMillis config address mac world action := by
  cases action with
  | finalize around window =>
    cases taken
    exact finalize_follows named lossless
  | pause around job =>
    cases taken
    exact pause_follows named lossless
  | resume around hotspotClients allClients job =>
    simp only [step, Option.ite_none_right_eq_some, Option.some.injEq] at taken
    obtain ⟨agrees, rfl⟩ := taken
    exact resume_follows sound lossless agrees
  | refresh loadOpens hotspotClients allClients =>
    simp only [step, Option.ite_none_right_eq_some, Option.some.injEq] at taken
    obtain ⟨agrees, rfl⟩ := taken
    exact refresh_follows sound agrees
  | seed loadOpens request =>
    cases taken
    exact seed_follows lossless
  | elapse millis =>
    cases taken
    exact ⟨.elapse millis, rfl, by simp [Prepaid.brings, netMillis, paidMillis, elapsedMillis, meterOf]⟩

/-! ## Conservation -/

/-- A client with no running and no paused time, at the controller as in the cache. -/
structure Idle (mac : String) (world : World issuer) : Prop where
  cached : (world.cache.entry mac).sessionEndMillis ≤ nowEpochMillis world.clock
  paused : (world.cache.entry mac).pausedRemainingMillis = 0
  granted : world.controller.sessionEnd mac ≤ nowEpochMillis world.clock

theorem idle_sound (idle : Idle mac world) : Sound seconds (meterOf mac world) :=
  .inr ⟨idle.cached, Nat.le_trans idle.granted (nowEpochMillis_le _), fun _ => idle.granted⟩

theorem idle_timeLeft (idle : Idle mac world) : timeLeft mac world = 0 := by
  have below := nowEpochMillis_le world.clock
  have finished := idle.cached
  rw [timeLeft, idle.paused]
  omega

/-- In any state that the master reaches, from no time at all and along any run whose
    steps lose nothing of a client's time, the running and the paused time are
    together what was paid minus the running time that elapsed, up to a second for
    each step. -/
theorem paid_time {boot last : World issuer} {before actions : List Action} (booted : Booted boot)
    (reached : run (step config address) boot before = some world) (idle : Idle mac world)
    (lossless : Throughout (step config address) (Lossless address mac) world actions)
    (ran : run (step config address) world actions = some last) :
    |(timeLeft mac last : Int) - inflow (step config address) (netMillis config address mac) world actions| ≤
      1000 * actions.length := by
  obtain ⟨moves, followed, sameLength, sameInflow⟩ :=
    @run_simulates _ _ _ _ (step config address) (Prepaid.step seconds) (meterOf mac)
      (fun world => Named world ∧ Sound seconds (meterOf mac world)) (Lossless address mac)
      (netMillis config address mac) Prepaid.brings
      (by
        rintro before action after ⟨named, sound⟩ kept taken
        obtain ⟨move, moved, -⟩ := step_follows named sound kept taken
        exact ⟨step_named named taken, step_sound sound moved⟩)
      (fun _ _ _ holds kept taken => step_follows holds.1 holds.2 kept taken)
      _ _ _ ⟨reachable_named booted reached, idle_sound idle⟩ lossless ran
  have conserved := paid_time_conserved (idle_sound idle) followed
  rw [sameLength, sameInflow] at conserved
  have none_ : Prepaid.left (meterOf mac world) = 0 := idle_timeLeft idle
  rw [none_] at conserved
  simpa [Prepaid.left, meterOf, timeLeft, seconds] using conserved

end

/-- A client opens the portal, buys one coin's time, pauses after a minute, and has used
    another minute when it has resumed. -/
def twoMinutesUsed : List Action :=
  [visit, .finalize answered oneCoin, listed 1, .elapse 60000, .pause jobAnswered visitor.clientMac, .elapse 30000,
    .resume jobAnswered [] [] visitor.clientMac, .elapse 60000]

theorem paid_time_two_minutes_used :
    |(timeLeft visitor.clientMac ((run (step defaultConfig dottedQuad) powered twoMinutesUsed).getD powered) : Int) -
        inflow (step defaultConfig dottedQuad) (netMillis defaultConfig dottedQuad visitor.clientMac) powered
          twoMinutesUsed| ≤ 1000 * twoMinutesUsed.length := by
  have noFile : ¬ hasPausedSessionFile powered.flash visitor.clientMac := by decide
  refine @paid_time _ defaultConfig dottedQuad visitor.clientMac powered powered _ [] twoMinutesUsed rfl rfl
    ⟨by decide, by decide, by decide⟩ ⟨fun _ file => absurd file noFile, ?_⟩ rfl
  intro seeded taken
  obtain rfl := Option.some.inj taken
  refine ⟨?_, ?_⟩
  · intro session grants _
    refine ⟨nofun, fun _ running => ?_⟩
    have found := congrArg (Option.map (·.sessionEndMillis)) grants.found
    have unused : session.sessionEndMillis = 0 := (Option.some.inj (Eq.trans (by decide) found)).symm
    omega
  intro finalized taken
  obtain rfl := Option.some.inj taken
  refine ⟨trivial, fun refreshed taken => ?_⟩
  obtain rfl := Option.some.inj taken
  refine ⟨trivial, fun later taken => ?_⟩
  obtain rfl := Option.some.inj taken
  refine ⟨?_, fun paused taken => ?_⟩
  · intro _ session found pausable _
    refine ⟨nofun, fun _ => ?_⟩
    clear pausable
    revert session
    show ∀ session ∈ (_ : Option SessionParams), _
    decide +kernel
  obtain rfl := Option.some.inj taken
  refine ⟨trivial, fun waited taken => ?_⟩
  obtain rfl := Option.some.inj taken
  refine ⟨?_, fun _ _ => ⟨trivial, fun _ _ => trivial⟩⟩
  intro _ session found waiting
  refine ⟨nofun, fun _ => ?_⟩
  clear waiting
  revert session
  show ∀ session ∈ (_ : Option SessionParams), _
  decide +kernel

/-- A client pauses, buys another coin's time and pauses again. -/
def pausedTwice : List Action :=
  [visit, .finalize answered oneCoin, listed 1, .pause jobAnswered visitor.clientMac,
    .finalize answered oneCoin, listed 1 1, .pause jobAnswered visitor.clientMac]

/-- The second pause overwrites the time that the first one put aside. -/
theorem second_pause_forgets :
    ∃ last, run (step defaultConfig dottedQuad) powered pausedTwice = some last ∧
      Booted powered ∧ Idle visitor.clientMac powered ∧
      ¬ |(timeLeft visitor.clientMac last : Int) -
          inflow (step defaultConfig dottedQuad) (netMillis defaultConfig dottedQuad visitor.clientMac) powered
            pausedTwice| ≤ 1000 * pausedTwice.length := by
  refine ⟨_, rfl, rfl, ⟨by decide, by decide, by decide⟩, ?_⟩
  decide +kernel

end EllaFi.PaidTime
