import EllaFi.CrashPoints

/-!
What a pause that fails leaves behind. It changes neither the entry nor, as long as the
controller is not asked, the pause file. But the file is written before the controller
is asked, and a refusal is answered by removing it, whatever was there before. So a
failed pause changes nothing exactly when the controller is not asked or the client had
no pause file (`failed_pause_iff`); a file that can be neither written nor removed as it
should is held against what it ends up with.
-/
namespace EllaFi.FailedPause
open EllaFi.Session EllaFi.Cache EllaFi.Files EllaFi.Omada EllaFi.Finalize EllaFi.PauseResume EllaFi.Steps
open EllaFi.CrashPoints
open EllaFi.Runs (run)
open Function (update)

/-- The way out that `processPause` takes. -/
inductive Outcome where
  | noEntry
  | noSession
  | noTime
  | notSaved
  | refused (errorDetail : String)
  | paused
deriving DecidableEq, Repr

section
variable {issuer : Issuer} (files : FileEffects) (around : JobSurroundings) (mac : String) (world : World issuer)

/-- `processPause` where an access to the pause file may have no effect. -/
def pauseWith : Outcome × World issuer :=
  match world.cache.findByMac mac with
  | none => (.noEntry, world)
  | some session =>
    if session.sessionEndMillis = 0 ∨ session.clientId = "" then (.noSession, world)
    else if session.sessionEndMillis ≤ nowEpochMillis world.clock then (.noTime, world)
    else
      let remaining := toUnsignedLong (session.sessionEndMillis - nowEpochMillis world.clock)
      if around.saveOpens then
        let saved := writtenFlash files world.flash session.clientMac remaining
        match disconnectOmadaClient around.link world.clock world.controller session with
        | (.ok fields, controller) =>
          (.paused, { world with
            cache := (world.cache.write session.clientMac fields).write session.clientMac (setPaused remaining)
            controller := controller
            flash := appendActivityLog saved world.clock around.activityOpens "PAUSE" session.clientMac 0
              (remaining / millisPerMinute : Nat) })
        | (.error errorDetail, controller) =>
          (.refused errorDetail,
            { world with controller := controller, flash := removedFlash files saved session.clientMac })
      else (.notSaved, world)

/-- The pause file of a client, and the fields of its entry that hold its time. -/
def clientTime (world : World issuer) : Option Nat × Option (Nat × Nat × String) :=
  (world.flash.pausedSessions (macToFilename mac),
    (world.cache.byMac mac).map fun session =>
      (session.pausedRemainingMillis, session.sessionEndMillis, session.clientId))

/-- The remaining time is saved, and the controller is asked to end the session. -/
structure Asks (session : SessionParams) : Prop where
  found : world.cache.findByMac mac = some session
  pausable : Pausable world.clock session
  opened : around.saveOpens

/-- What writing the file and removing it again leaves of it. -/
def compensated (session : SessionParams) : Option Nat :=
  if files.removes then none
  else some (if files.writes then toUnsignedLong (session.sessionEndMillis - nowEpochMillis world.clock) else 0)

end

section
variable {issuer : Issuer} {files : FileEffects} {around : JobSurroundings} {mac : String} {world : World issuer}
  {session : SessionParams}

/-- Where every access takes effect, this is the job. -/
theorem pauseWith_sound : (pauseWith sound around mac world).2 = (processPause around mac world).1 := by
  unfold pauseWith processPause
  cases world.cache.findByMac mac with
  | none => rfl
  | some session =>
    simp only
    split
    · rfl
    · split
      · rfl
      · cases around.saveOpens with
        | false => rfl
        | true =>
          simp only [savePausedSessionFile, ↓reduceIte]
          rcases disconnectOmadaClient around.link world.clock world.controller session with ⟨reported, controller⟩
          cases reported <;> rfl

/-- It ends where the trail of its effects does. -/
theorem pauseWith_last :
    (pauseTrail files around mac world).getLast? = some (durable (pauseWith files around mac world).2) := by
  unfold pauseTrail pauseWith
  cases world.cache.findByMac mac with
  | none => rfl
  | some session =>
    simp only
    split
    · rfl
    · split
      · rfl
      · cases around.saveOpens with
        | false => rfl
        | true =>
          simp only [↓reduceIte]
          rcases disconnectOmadaClient around.link world.clock world.controller session with ⟨reported, controller⟩
          cases reported <;> rfl

theorem removed_written (remaining : Nat) (flash : Flash) :
    (removedFlash files (writtenFlash files flash mac remaining) mac).pausedSessions (macToFilename mac) =
      if files.removes then none else some (if files.writes then remaining else 0) := by
  unfold removedFlash writtenFlash openedFlash deletePausedSessionFile
  split <;> split <;> simp

/-- A pause that fails leaves the client's entry; the file it leaves, or it is the one
    that is written and removed. -/
theorem failed_cases (failed : (pauseWith files around mac world).1 ≠ .paused) :
    (pauseWith files around mac world).2.cache = world.cache ∧
      ((∃ session, Asks around mac world session ∧
          (pauseWith files around mac world).2.flash.pausedSessions (macToFilename mac) = compensated files world session) ∨
        ((∀ session, ¬ Asks around mac world session) ∧ (pauseWith files around mac world).2 = world)) := by
  unfold pauseWith at failed ⊢
  cases found : world.cache.findByMac mac with
  | none => exact ⟨rfl, .inr ⟨fun session asks => by simpa [found] using asks.found, rfl⟩⟩
  | some session =>
    have only {other : SessionParams} (asks : Asks around mac world other) : other = session :=
      Option.some.inj (asks.found.symm.trans found)
    have own : session.clientMac = mac := world.cache.keyed (SessionCache.findByMac_some.mp found).2
    simp only [found] at failed ⊢
    split
    · next idle =>
      refine ⟨rfl, .inr ⟨fun other asks => ?_, rfl⟩⟩
      obtain rfl := only asks
      exact idle.elim (Nat.ne_of_gt (Nat.zero_lt_of_lt asks.pausable.2)) asks.pausable.1
    · next running =>
      split
      · next spent =>
        refine ⟨rfl, .inr ⟨fun other asks => ?_, rfl⟩⟩
        obtain rfl := only asks
        exact absurd asks.pausable.2 (Nat.not_lt.mpr spent)
      · next time =>
        have pausable : Pausable world.clock session := ⟨(not_or.mp running).2, Nat.not_le.mp time⟩
        simp only [if_neg running, if_neg time] at failed
        split
        · next opened =>
          rw [if_pos opened] at failed
          rcases called : disconnectOmadaClient around.link world.clock world.controller session with ⟨reported, controller⟩
          rw [called] at failed
          cases reported with
          | ok fields => exact absurd rfl failed
          | error errorDetail =>
            refine ⟨rfl, .inl ⟨session, ⟨found, pausable, opened⟩, ?_⟩⟩
            simp only [own, removed_written]
            rfl
        · next closed => exact ⟨rfl, .inr ⟨fun other asks => closed asks.opened, rfl⟩⟩

/-- A pause that does not succeed changes nothing of the client's time exactly when
    the controller is not asked, or the file was before what the compensation makes of
    it: absent, where it can be removed. -/
theorem failed_pause_iff (failed : (pauseWith files around mac world).1 ≠ .paused) :
    clientTime mac (pauseWith files around mac world).2 = clientTime mac world ↔
      ∀ session, Asks around mac world session →
        world.flash.pausedSessions (macToFilename mac) = compensated files world session := by
  obtain ⟨kept, ⟨session, asks, left⟩ | ⟨silent, same⟩⟩ := failed_cases failed
  · simp only [clientTime, kept, left, Prod.mk.injEq, and_true]
    constructor
    · intro restored other otherAsks
      obtain rfl := Option.some.inj (otherAsks.found.symm.trans asks.found)
      exact restored.symm
    · intro stands
      exact (stands session asks).symm
  · rw [same]
    exact iff_of_true rfl fun session asks => absurd asks (silent session)

end

/-! ## A pause over a pause -/

/-- The client whose coin bought a session, while the controller does not answer. -/
def unanswered : JobSurroundings := { jobAnswered with link := .unreachable (.transport "connection refused") }

theorem failed_pause_bought : clientTime visitor.clientMac (pauseWith sound unanswered visitor.clientMac bought).2 =
    clientTime visitor.clientMac bought :=
  (failed_pause_iff (by decide +kernel)).mpr fun _ _ => (by decide +kernel :
    bought.flash.pausedSessions (macToFilename visitor.clientMac) = none)

/-- The client has paused the first coin's time and bought a second coin's. -/
def boughtAgain : World plainIssuer :=
  (run (step defaultConfig dottedQuad) bought
    [.pause jobAnswered visitor.clientMac, .finalize answered oneCoin, listed 1 1]).getD bought

/-- When the controller cannot be reached, the time that was paused before is no longer
    on disk. -/
theorem failed_pause_removes :
    (processPause unanswered visitor.clientMac boughtAgain).2 =
        some (.error "" "Pause failed" "Disconnect: connection refused") ∧
      clientTime visitor.clientMac boughtAgain =
        (some timeLeft, some (timeLeft, boughtAgain.clock / 1000 * 1000 + timeLeft, plainIssuer.clientId 1)) ∧
      (clientTime visitor.clientMac (processPause unanswered visitor.clientMac boughtAgain).1).1 = none := by
  decide +kernel

end EllaFi.FailedPause
