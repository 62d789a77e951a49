import EllaFi.Steps

/-!
What a crash leaves of a client's time. A pause and a resume change the files and
the controller one effect at a time, and a reboot finds the state after any of
them (`pauseTrail`, `resumeTrail`; run to their ends they are the jobs themselves,
`pauseTrail_last`, `resumeTrail_last`). The time is found again in the
controller's session or in the pause file (`Recoverable`). A resume never loses
time that is on disk. A pause loses it when the controller ends the session and
the file does not hold all of it: the write failed, 32 bits were too few, or the
reply was lost and the file was removed again (`crash_keeps_time_iff`).
-/
namespace EllaFi.CrashPoints
open EllaFi.Session EllaFi.Cache EllaFi.Files EllaFi.Omada EllaFi.Finalize EllaFi.PauseResume EllaFi.Steps
open EllaFi.Runs (run)
open Function (update)

/-- What outlives a reboot. -/
structure Durable (issuer : Issuer) where
  clock : Nat
  controller : Controller issuer
  flash : Flash

def durable {issuer : Issuer} (world : World issuer) : Durable issuer where
  clock := world.clock
  controller := world.controller
  flash := world.flash

/-- Which accesses to an opened or existing pause file take effect. -/
structure FileEffects where
  writes : Bool
  removes : Bool

def sound : FileEffects where
  writes := true
  removes := true

section
variable {issuer : Issuer} (files : FileEffects) (config : Config) (around : JobSurroundings) (mac : String)
  (world : World issuer)

/-- Opening the file for writing empties it, and an empty file reads as 0. -/
def openedFlash (flash : Flash) (mac : String) : Flash :=
  { flash with pausedSessions := update flash.pausedSessions (macToFilename mac) (some 0) }

/-- A failed write goes unnoticed: the file stays empty. -/
def writtenFlash (flash : Flash) (mac : String) (remainingMillis : Nat) : Flash :=
  if files.writes then
    { flash with pausedSessions := update flash.pausedSessions (macToFilename mac) (some remainingMillis) }
  else openedFlash flash mac

def removedFlash (flash : Flash) (mac : String) : Flash :=
  if files.removes then deletePausedSessionFile flash mac else flash

/-- What `processPause` leaves behind after each of its effects, the state before it
    first. -/
def pauseTrail : List (Durable issuer) :=
  match world.cache.findByMac mac with
  | none => [durable world]
  | some session =>
    if session.sessionEndMillis = 0 ∨ session.clientId = "" then [durable world]
    else if session.sessionEndMillis ≤ nowEpochMillis world.clock then [durable world]
    else
      let remaining := toUnsignedLong (session.sessionEndMillis - nowEpochMillis world.clock)
      if around.saveOpens then
        let opened := { durable world with flash := openedFlash world.flash session.clientMac }
        let saved := { durable world with flash := writtenFlash files world.flash session.clientMac remaining }
        match disconnectOmadaClient around.link world.clock world.controller session with
        | (.ok _, controller) =>
          [durable world, opened, saved, { saved with controller },
            { saved with
                controller
                flash := appendActivityLog saved.flash world.clock around.activityOpens "PAUSE" session.clientMac 0
                  (remaining / millisPerMinute : Nat) }]
        | (.error _, controller) =>
          [durable world, opened, saved, { saved with controller },
            { saved with controller, flash := removedFlash files saved.flash session.clientMac }]
      else [durable world]

/-- What `processResume` leaves behind; its refresh writes nothing that lasts. -/
def resumeTrail : List (Durable issuer) :=
  match world.cache.findByMac mac with
  | none => [durable world]
  | some session =>
    let pausedRemainingMillis := session.pausedRemainingMillis
    if pausedRemainingMillis = 0 then [durable world]
    else
      match authenticateOmadaClient around.link world.clock world.controller config session pausedRemainingMillis with
      | (.ok _, controller) =>
        let logged := appendActivityLog world.flash world.clock around.activityOpens "RESUME" session.clientMac 0
          (pausedRemainingMillis / millisPerMinute : Nat)
        [durable world, { durable world with controller }, { durable world with controller, flash := logged },
          { durable world with controller, flash := removedFlash files logged session.clientMac }]
      | (.error _, controller) => [durable world, { durable world with controller }]

/-! ## What a reboot finds -/

/-- The controller runs a session of the client with that time left, to one second. -/
def Running (remaining : Nat) (left : Durable issuer) : Prop :=
  left.clock < left.controller.sessionEnd mac ∧
    nowEpochMillis left.clock + remaining ≤ left.controller.sessionEnd mac ∧
    left.controller.sessionEnd mac < nowEpochMillis left.clock + remaining + 1000

/-- The pause file holds that time, and the client's next portal request loads it
    into the empty cache. -/
def OnFile (remaining : Nat) (left : Durable issuer) : Prop :=
  left.flash.pausedSessions (macToFilename mac) = some remaining ∧
    ∀ request : Redirect, request.clientMac = mac →
      ((seedPortalSession left.flash true request .empty).findByMac mac).map (·.pausedRemainingMillis) = some remaining

def Recoverable (remaining : Nat) (left : Durable issuer) : Prop :=
  Running mac remaining left ∨ OnFile mac remaining left

/-! ## The clients of the two jobs -/

/-- A client with a running session that the cache and the controller know, and
    nothing paused. -/
structure ActiveClient (session : SessionParams) (remaining : Nat) : Prop where
  found : world.cache.findByMac mac = some session
  unpaused : session.pausedRemainingMillis = 0
  active : world.clock < session.sessionEndMillis
  granted : session.sessionEndMillis ≤ world.controller.sessionEnd mac
  agreed : world.controller.sessionEnd mac < session.sessionEndMillis + 1000
  time : session.sessionEndMillis = nowEpochMillis world.clock + remaining

/-- A client with paused time and no running session. -/
structure PausedClient (remaining : Nat) : Prop where
  found : ∃ session, world.cache.findByMac mac = some session ∧ session.pausedRemainingMillis = remaining
  paused : remaining ≠ 0
  inactive : world.controller.sessionEnd mac ≤ world.clock

/-- The disconnect reaches the controller and names a session of the client. -/
def Ends (session : SessionParams) : Prop :=
  (around.link = .up ∨ ∃ failure, around.link = .replyLost failure) ∧
    ∃ row, world.controller.sessionById session.clientId = some row ∧ row.mac = mac

/-- The pause ends no session of the client, or all of its time is in the file, and
    the file stays. -/
def PauseKeeps (session : SessionParams) (remaining : Nat) : Prop :=
  around.saveOpens = false ∨ session.clientId = "" ∨ ¬ Ends around mac world session ∨
    (files.writes ∧ remaining < 2 ^ 32 ∧ (around.link = .up ∨ files.removes = false))

end

/-! ## The jobs -/

section
variable {issuer : Issuer} {config : Config} {around : JobSurroundings} {mac : String} {world : World issuer}

theorem pauseTrail_last :
    (pauseTrail sound around mac world).getLast? = some (durable (processPause around mac world).1) := by
  unfold pauseTrail processPause
  cases world.cache.findByMac mac with
  | none => rfl
  | some session =>
    simp only
    split
    · rfl
    · split
      · rfl
      · cases opened : around.saveOpens with
        | false => rfl
        | true =>
          simp only [savePausedSessionFile, ↓reduceIte]
          cases called : disconnectOmadaClient around.link world.clock world.controller session with
          | mk reported controller =>
            cases reported <;> rfl

theorem resumeTrail_last {hotspotClients : List HotspotClient} {allClients : List Refresh.WifiClient} :
    (resumeTrail sound config around mac world).getLast? =
      some (durable (processResume config around hotspotClients allClients mac world).1) := by
  unfold resumeTrail processResume resumeSession
  cases world.cache.findByMac mac with
  | none => rfl
  | some session =>
    simp only
    split
    · rfl
    · cases called : authenticateOmadaClient around.link world.clock world.controller config session
        session.pausedRemainingMillis with
      | mk reported controller =>
        cases reported <;> rfl

end

/-! ## What is found again -/

section
variable {issuer : Issuer} {files : FileEffects} {config : Config} {around : JobSurroundings} {mac : String}
  {world : World issuer} {session : SessionParams} {remaining : Nat} {left : Durable issuer}

/-- What the file holds is what the next request loads. -/
theorem onFile_iff (named : mac ≠ "") :
    OnFile mac remaining left ↔ left.flash.pausedSessions (macToFilename mac) = some remaining := by
  refine and_iff_left_of_imp fun held request own => ?_
  subst own
  simp [seedPortalSession, SessionCache.findByMac, named, SessionCache.write_byMac, SessionCache.upsert_byMac, loaded,
    hasPausedSessionFile, loadPausedSessionFile, held, setRedirect, SessionCache.upsertEntry_eq, SessionCache.entry,
    SessionCache.empty]

theorem not_running_ended (ended : left.controller.sessionEnd mac ≤ left.clock) : ¬ Running mac remaining left :=
  fun running => Nat.not_lt.mpr ended running.1

theorem ActiveClient.named (client : ActiveClient mac world session remaining) : mac ≠ "" :=
  (SessionCache.findByMac_some.mp client.found).1

theorem ActiveClient.own (client : ActiveClient mac world session remaining) : session.clientMac = mac :=
  world.cache.keyed (SessionCache.findByMac_some.mp client.found).2

/-- As long as the controller keeps the client's session, its time is there. -/
theorem ActiveClient.running (client : ActiveClient mac world session remaining) (now : left.clock = world.clock)
    (kept : left.controller.sessionEnd mac = world.controller.sessionEnd mac) : Running mac remaining left := by
  have active := client.active
  have granted := client.granted
  have agreed := client.agreed
  have time := client.time
  exact ⟨by omega, by rw [now]; omega, by rw [now]; omega⟩

theorem ActiveClient.remaining_pos (client : ActiveClient mac world session remaining) : remaining ≠ 0 := by
  have active := client.active
  have below := nowEpochMillis_le world.clock
  have time := client.time
  omega

theorem disconnect_kept (keeps : ¬ Ends around mac world session) :
    (disconnectOmadaClient around.link world.clock world.controller session).2.sessionEnd mac =
      world.controller.sessionEnd mac := by
  cases link : around.link with
  | loginFailed | unreachable => rfl
  | replyLost failure =>
    exact calling_sessionEnd _ fun concerned => keeps ⟨.inr ⟨failure, link⟩, concerned⟩
  | up =>
    exact calling_sessionEnd _ fun concerned => keeps ⟨.inl link, concerned⟩

/-- A disconnect that ends the client's session succeeds exactly when its reply
    arrives. -/
theorem disconnect_ended (ends : Ends around mac world session) :
    (disconnectOmadaClient around.link world.clock world.controller session).2.sessionEnd mac = world.clock ∧
      ((∃ fields, (disconnectOmadaClient around.link world.clock world.controller session).1 = .ok fields) ↔
        around.link = .up) := by
  obtain ⟨reached, row, found, rfl⟩ := ends
  have finished : (world.controller.revise (fun row => row.id = session.clientId) (Omada.ended world.clock)).sessionEnd row.mac =
      world.clock := by
    rw [revise_sessionEnd found, if_pos rfl]
    rfl
  rcases reached with up | ⟨failure, lost⟩
  · simp [disconnectOmadaClient, calling, omadaCall, up, handle, handleDisconnect, found, readReply, Except.map, finished]
  · simp [disconnectOmadaClient, calling, omadaCall, lost, handle, handleDisconnect, found, Except.map, finished]

/-- A pause that saves goes through the same states whatever the controller answers,
    up to the last. -/
theorem pauseTrail_saved (client : ActiveClient mac world session remaining) (identified : session.clientId ≠ "")
    (opened : around.saveOpens = true) {reported : Except String FieldWrite} {controller : Controller issuer}
    (called : disconnectOmadaClient around.link world.clock world.controller session = (reported, controller)) :
    ∃ last : Durable issuer, last.clock = world.clock ∧ last.controller = controller ∧
      (last.flash.pausedSessions (macToFilename mac) = some remaining ↔
        ((∃ fields, reported = .ok fields) ∨ files.removes = false) ∧
          (writtenFlash files world.flash mac (toUnsignedLong remaining)).pausedSessions (macToFilename mac) =
            some remaining) ∧
      pauseTrail files around mac world =
        [durable world, { durable world with flash := openedFlash world.flash mac },
          { durable world with flash := writtenFlash files world.flash mac (toUnsignedLong remaining) },
          { durable world with
              controller, flash := writtenFlash files world.flash mac (toUnsignedLong remaining) }, last] := by
  have active := client.active
  have below := nowEpochMillis_le world.clock
  have time : session.sessionEndMillis - nowEpochMillis world.clock = remaining := by rw [client.time]; omega
  have running : ¬ (session.sessionEndMillis = 0 ∨ session.clientId = "") := not_or.mpr ⟨by omega, identified⟩
  have timely : ¬ session.sessionEndMillis ≤ nowEpochMillis world.clock := by omega
  unfold pauseTrail
  simp only [client.found, running, timely, opened, called, time, client.own, ↓reduceIte]
  cases reported with
  | ok fields => exact ⟨_, rfl, rfl, by simp, rfl⟩
  | error errorDetail =>
    refine ⟨_, rfl, rfl, ?_, rfl⟩
    cases removes : files.removes <;> simp [removedFlash, removes, deletePausedSessionFile]

theorem written_holds {flash : Flash} (positive : remaining ≠ 0) :
    (writtenFlash files flash mac (toUnsignedLong remaining)).pausedSessions (macToFilename mac) = some remaining ↔
      files.writes ∧ remaining < 2 ^ 32 := by
  cases writes : files.writes with
  | false => simp [writtenFlash, writes, openedFlash, Ne.symm positive]
  | true => simp [writtenFlash, writes, toUnsignedLong]

theorem pause_keeps_iff (client : ActiveClient mac world session remaining) :
    (∀ left ∈ pauseTrail files around mac world, Recoverable mac remaining left) ↔
      PauseKeeps files around mac world session remaining := by
  have atStart : Recoverable mac remaining (durable world) := .inl (client.running rfl rfl)
  have active := client.active
  have below := nowEpochMillis_le world.clock
  by_cases asked : around.saveOpens = true ∧ session.clientId ≠ ""
  · obtain ⟨opened, identified⟩ := asked
    cases called : disconnectOmadaClient around.link world.clock world.controller session with
    | mk reported controller =>
      obtain ⟨last, now, after, holds, trail⟩ := @pauseTrail_saved _ files _ _ _ _ _ client identified opened _ _ called
      rw [trail]
      by_cases ends : Ends around mac world session
      · obtain ⟨finished, answered⟩ := disconnect_ended ends
        rw [called] at finished answered
        have notLast : ¬ Running mac remaining last := not_running_ended (by rw [after, now, finished])
        have lastIff : Recoverable mac remaining last ↔
            (around.link = .up ∨ files.removes = false) ∧ files.writes ∧ remaining < 2 ^ 32 := by
          rw [Recoverable, or_iff_right notLast, onFile_iff client.named, holds, written_holds client.remaining_pos,
            answered]
        simp only [List.forall_mem_cons, List.not_mem_nil, false_implies, implies_true, and_true, lastIff, PauseKeeps,
          opened, identified, ends]
        constructor
        · rintro ⟨-, -, -, -, stays, written, fits⟩
          exact .inr (.inr (.inr ⟨written, fits, stays⟩))
        · rintro (no | no | no | ⟨written, fits, stays⟩)
          · cases no
          · exact absurd no id
          · exact absurd trivial no
          · refine ⟨atStart, .inl (client.running rfl rfl), .inl (client.running rfl rfl), ?_, stays, written, fits⟩
            exact .inr ((onFile_iff client.named).mpr ((written_holds client.remaining_pos).mpr ⟨written, fits⟩))
      · have kept := disconnect_kept ends
        rw [called] at kept
        refine iff_of_true ?_ (.inr (.inr (.inl ends)))
        simp only [List.forall_mem_cons, List.not_mem_nil, false_implies, implies_true, and_true]
        exact ⟨atStart, .inl (client.running rfl rfl), .inl (client.running rfl rfl), .inl (client.running rfl kept),
          .inl (client.running now (after ▸ kept))⟩
  · have idle : pauseTrail files around mac world = [durable world] := by
      unfold pauseTrail
      simp only [client.found]
      split
      · rfl
      · next running =>
        split
        · rfl
        · have closed : around.saveOpens ≠ true := fun opened => asked ⟨opened, (not_or.mp running).2⟩
          simp [closed]
    rw [idle]
    refine iff_of_true (by simpa using atStart) ?_
    by_cases opened : around.saveOpens = true
    · exact .inr (.inl (by_contra fun identified => asked ⟨opened, identified⟩))
    · exact .inl (by simpa using opened)

theorem resume_keeps_iff (client : PausedClient mac world remaining) :
    (∀ left ∈ resumeTrail files config around mac world, Recoverable mac remaining left) ↔
      world.flash.pausedSessions (macToFilename mac) = some remaining := by
  obtain ⟨session, found, rfl⟩ := client.found
  have named : mac ≠ "" := (SessionCache.findByMac_some.mp found).1
  have own : session.clientMac = mac := world.cache.keyed (SessionCache.findByMac_some.mp found).2
  have startIff : Recoverable mac session.pausedRemainingMillis (durable world) ↔
      world.flash.pausedSessions (macToFilename mac) = some session.pausedRemainingMillis := by
    rw [Recoverable, or_iff_right (not_running_ended client.inactive), onFile_iff named]
    rfl
  have onDisk {left : Durable issuer}
      (same : left.flash.pausedSessions (macToFilename mac) = world.flash.pausedSessions (macToFilename mac))
      (held : world.flash.pausedSessions (macToFilename mac) = some session.pausedRemainingMillis) :
      Recoverable mac session.pausedRemainingMillis left := .inr ((onFile_iff named).mpr (same.trans held))
  unfold resumeTrail
  simp only [found, client.paused, ↓reduceIte]
  cases called : authenticateOmadaClient around.link world.clock world.controller config session
    session.pausedRemainingMillis with
  | mk reported controller =>
    cases reported with
    | error errorDetail =>
      simp only [List.forall_mem_cons, List.not_mem_nil, false_implies, implies_true, and_true, startIff]
      exact ⟨fun both => both.1, fun held => ⟨held, onDisk rfl held⟩⟩
    | ok fields =>
      obtain ⟨-, -, after⟩ := authenticate_ok.mp called
      have close := clock_lt_nowEpochMillis world.clock
      have below := nowEpochMillis_le world.clock
      have granted : controller.sessionEnd mac = world.clock + session.pausedRemainingMillis := by
        rw [after, ← own, authRequest_sessionEnd, if_neg client.paused]
      have running {left : Durable issuer} (now : left.clock = world.clock) (given : left.controller = controller) :
          Running mac session.pausedRemainingMillis left := by
        have positive := client.paused
        refine ⟨?_, ?_, ?_⟩ <;> rw [now, given, granted] <;> omega
      simp only [List.forall_mem_cons, List.not_mem_nil, false_implies, implies_true, and_true, startIff]
      exact ⟨fun all => all.1,
        fun held => ⟨held, .inl (running rfl rfl), .inl (running rfl rfl), .inl (running rfl rfl)⟩⟩

/-- A crash inside a pause loses none of an active client's time exactly when the
    pause ends no session of the client, or writes all of the time and keeps the
    file; a crash inside a resume loses none of a paused client's time exactly when
    the pause file holds it. -/
theorem crash_keeps_time_iff (files : FileEffects) (config : Config) (around : JobSurroundings) (mac : String)
    (world : World issuer) (session : SessionParams) (remaining : Nat) :
    (ActiveClient mac world session remaining →
      ((∀ left ∈ pauseTrail files around mac world, Recoverable mac remaining left) ↔
        PauseKeeps files around mac world session remaining)) ∧
    (PausedClient mac world remaining →
      ((∀ left ∈ resumeTrail files config around mac world, Recoverable mac remaining left) ↔
        world.flash.pausedSessions (macToFilename mac) = some remaining)) :=
  ⟨pause_keeps_iff, resume_keeps_iff⟩

end

/-! ## A lost reply -/

/-- One coin bought the client a session, and a refresh has seen it. -/
def bought : World plainIssuer :=
  (run (step defaultConfig dottedQuad) powered [visit, .finalize answered oneCoin, listed 1]).getD powered

def runningSession : SessionParams := bought.cache.entry visitor.clientMac

def timeLeft : Nat := runningSession.sessionEndMillis - nowEpochMillis bought.clock

theorem bought_active : ActiveClient visitor.clientMac bought runningSession timeLeft where
  found := by decide +kernel
  unpaused := by decide +kernel
  active := by decide +kernel
  granted := by decide +kernel
  agreed := by decide +kernel
  time := by decide +kernel

theorem crash_keeps_time_bought :
    ∀ left ∈ pauseTrail sound jobAnswered visitor.clientMac bought, Recoverable visitor.clientMac timeLeft left :=
  ((crash_keeps_time_iff sound defaultConfig jobAnswered visitor.clientMac bought runningSession timeLeft).1
    bought_active).mpr (.inr (.inr (.inr ⟨rfl, by decide +kernel, .inl rfl⟩)))

/-- The controller ends the session, but its answer does not arrive. -/
def unheard : JobSurroundings := { jobAnswered with link := .replyLost (.transport "read timeout") }

/-- The pause is reported as failed and its file is removed: the time is gone. -/
theorem lost_reply_loses_time :
    run (step defaultConfig dottedQuad) powered [visit, .finalize answered oneCoin, listed 1] = some bought ∧
      ActiveClient visitor.clientMac bought runningSession timeLeft ∧
      ¬ ∀ left ∈ pauseTrail sound unheard visitor.clientMac bought, Recoverable visitor.clientMac timeLeft left := by
  refine ⟨rfl, bought_active, fun kept => ?_⟩
  rcases kept _ (List.mem_of_getLast? pauseTrail_last) with ⟨active, -⟩ | ⟨held, -⟩
  · exact absurd active (by decide +kernel)
  · exact absurd held (by decide +kernel)

end EllaFi.CrashPoints
