import EllaFi.Mirror
import EllaFi.PaidTime

/-!
Which session of the controller the cache means. The end of an entry is set by
whatever grants time, its identifier only by a refresh, and the two are cleared
together only by a disconnect. An entry that is shown as running under an
identifier should mean the session that the controller runs for the client
(`Current`), and then every request to extend or end a session names that one
(`current_names`). A step keeps this unless it authenticates a client whose
identifier is of an earlier session, or the reply to a request about a running
session is lost (`KeepsId`), and a run that shows it in all its states is a run of
such steps (`session_ids_iff`).
-/
namespace EllaFi.SessionIds
open EllaFi.Session EllaFi.Cache EllaFi.Coins EllaFi.Files EllaFi.Omada EllaFi.Refresh EllaFi.Finalize
open EllaFi.PauseResume EllaFi.Steps
open EllaFi.Mirror (Listed refresh_mirrors refreshedEntry_sessionEnd)
open EllaFi.Runs (run Always Throughout always_iff throughout_of_always)

/-- The cached end of a session is the controller's, to one second. -/
def Within (cached actual : Nat) : Prop := cached ≤ actual ∧ actual < cached + 1000

/-- An end and an identifier that are shown as running are those of the session that
    is held. -/
def Matches (clock cached : Nat) (id : String) (held : Option HotspotClient) : Prop :=
  nowEpochMillis clock < cached → id ≠ "" → ∃ row, held = some row ∧ row.id = id ∧ Within cached row.endMillis

section
variable {issuer : Issuer} (address : IPAddress) (mac : String)

def Current (world : World issuer) : Prop :=
  Matches world.clock (world.cache.entry mac).sessionEndMillis (world.cache.entry mac).clientId
    (world.controller.session mac)

/-- The controller runs a session of the client under an identifier. -/
def RunsUnder (clock : Nat) (controller : Controller issuer) (id : String) : Prop :=
  ∃ row, controller.session mac = some row ∧ clock < row.endMillis ∧ row.id = id

/-- An authentication leaves the cached identifier as it is, so there must be none, or
    it must be the one of the session that is renewed. -/
def NoneOlder (world : World issuer) (session : SessionParams) : Prop :=
  session.clientId = "" ∨ RunsUnder mac world.clock world.controller session.clientId

/-- The list has a running session of the client. -/
def ListsRunning (clock : Nat) (hotspotClients : List HotspotClient) : Prop :=
  ∃ session, Listed clock hotspotClients mac session

/-- No reply about a session that is shown as running is lost, and no client is
    authenticated that has an identifier of an earlier session, unless the job itself
    reads the new one. -/
def KeepsId (world : World issuer) : Action → Prop
  | .finalize around window => ∀ session, Grants address window world session → session.clientMac = mac →
      (Extends world.clock session → around.link.Acknowledged) ∧
        (¬ Extends world.clock session → around.link = .up → NoneOlder mac world session)
  | .pause around job => job = mac → ∀ session, world.cache.findByMac mac = some session →
      Pausable world.clock session → around.saveOpens = true → world.clock < session.sessionEndMillis →
        around.link.Acknowledged
  | .resume around hotspotClients _ job => job = mac → ∀ session, world.cache.findByMac mac = some session →
      session.pausedRemainingMillis ≠ 0 →
        (Extends world.clock session → around.link.Acknowledged ∨
          (world.clock < world.controller.sessionEnd mac ∧
            Within session.sessionEndMillis (world.clock + session.pausedRemainingMillis))) ∧
        (around.link = .up → NoneOlder mac world session ∨ ListsRunning mac world.clock hotspotClients)
  | .refresh .. | .seed .. | .elapse .. => True

/-- The session that a request names is the one that the controller runs for the
    client. -/
def NamesRunning (world : World issuer) (session : SessionParams) : Prop :=
  ∃ row, world.controller.session mac = some row ∧ row.id = session.clientId ∧
    nowEpochMillis world.clock < row.endMillis

/-- Every extend and disconnect request of a step about the client names its running
    session. -/
def RequestsCurrent (world : World issuer) : Action → Prop
  | .finalize _ window => ∀ session, Grants address window world session → session.clientMac = mac →
      Extends world.clock session → NamesRunning mac world session
  | .pause around job => job = mac → ∀ session, world.cache.findByMac mac = some session →
      Pausable world.clock session → around.saveOpens = true → NamesRunning mac world session
  | .resume .. | .refresh .. | .seed .. | .elapse .. => True

end

section
variable {issuer : Issuer} {config : Config} {address : IPAddress} {mac : String} {world next : World issuer}
  {session : SessionParams} {clock : Nat} {controller : Controller issuer}

theorem current_eq (found : world.cache.byMac mac = some session) :
    Current mac world ↔
      Matches world.clock session.sessionEndMillis session.clientId (world.controller.session mac) := by
  rw [Current, SessionCache.entry_of_byMac found]

/-- The same of a world that is given by its parts. -/
theorem current_at {cache : SessionCache} {flash : Flash} (found : cache.byMac mac = some session) :
    Current mac { clock := clock, cache := cache, controller := controller, flash := flash } ↔
      Matches clock session.sessionEndMillis session.clientId (controller.session mac) := current_eq found

theorem current_frame {cache : SessionCache} {flash : Flash} (current : Current mac world)
    (entry : cache.byMac mac = world.cache.byMac mac)
    (held : controller.session mac = world.controller.session mac) :
    Current mac { clock := world.clock, cache := cache, controller := controller, flash := flash } := by
  rw [Current] at current
  simpa [Current, SessionCache.entry, entry, held] using current

/-- The session that an entry shown as running means. -/
theorem Current.row (current : Current mac world) (found : world.cache.byMac mac = some session)
    (running : nowEpochMillis world.clock < session.sessionEndMillis) (named : session.clientId ≠ "") :
    ∃ row, world.controller.session mac = some row ∧ world.controller.sessionById session.clientId = some row ∧
      Within session.sessionEndMillis row.endMillis := by
  obtain ⟨row, held, own, within⟩ := (current_eq found).mp current running named
  exact ⟨row, held, Controller.sessionById_some.mpr ⟨(Controller.session_some.mp held).1, own⟩, within⟩

theorem owns_fresh (owns : Owns controller mac session.clientId) (identified : session.clientId ≠ "") :
    issuer.clientId controller.issued ≠ session.clientId := by
  intro same
  rcases owns.1 with blank | ⟨n, below, issued⟩
  · exact identified blank
  · have equal := issuer.distinct (same.trans issued)
    omega

/-- A renewed or new session is the cached one exactly when the cached identifier is
    not an earlier session's. -/
theorem auth_matches (owns : Owns controller mac session.clientId) {fields : AuthRequest} (own : fields.clientMac = mac)
    (timed : fields.time ≠ 0) :
    Matches clock (nowEpochMillis clock + fields.time) session.clientId
        ((handleAuth clock controller fields).session mac) ↔
      session.clientId = "" ∨ RunsUnder mac clock controller session.clientId := by
  subst own
  obtain ⟨row, made, ends, identity⟩ := @auth_session _ clock controller fields timed
  have below := nowEpochMillis_le clock
  have close := clock_lt_nowEpochMillis clock
  constructor
  · intro matched
    by_cases blank : session.clientId = ""
    · exact .inl blank
    · obtain ⟨other, held, same, -⟩ := matched (by omega) blank
      obtain rfl : row = other := Option.some.inj (made.symm.trans held)
      rcases identity with ⟨before, there, running, kept⟩ | ⟨-, fresh⟩
      · exact .inr ⟨before, there, running, kept.symm.trans same⟩
      · exact absurd (fresh.symm.trans same) (owns_fresh owns blank)
  · rintro older - named
    rcases older with blank | ⟨before, there, running, same⟩
    · exact absurd blank named
    · refine ⟨row, made, ?_, by rw [Within, ends]; omega⟩
      rcases identity with ⟨other, held, -, kept⟩ | ⟨finished, -⟩
      · obtain rfl : before = other := Option.some.inj (there.symm.trans held)
        exact kept.trans same
      · simp [Controller.sessionEnd, there] at finished
        omega

theorem revise_held {row : HotspotClient} (held : controller.session mac = some row)
    (known : controller.sessionById session.clientId = some row) (change : SessionWrite) :
    (controller.revise (fun row => row.id = session.clientId) change).session mac = some (change.apply row) := by
  rw [Controller.session_revise, held, Option.map_some, if_pos (by simp [(Controller.sessionById_some.mp known).2])]

theorem owns_other (owns : Owns controller session.clientMac session.clientId) (other : session.clientMac ≠ mac)
    {row : HotspotClient} (found : controller.sessionById session.clientId = some row) : row.mac ≠ mac := by
  obtain ⟨inside, own⟩ := Controller.sessionById_some.mp found
  exact fun same => other ((owns.2 row inside own).symm.trans same)

/-! ## What a step does to the client's session -/

section
variable {link : Link} {row : HotspotClient} {durationMillis : Nat}

/-- What a call for a session that the controller has does over each kind of link. -/
theorem extend_known (known : controller.sessionById session.clientId = some row) :
    extendOmadaClient link clock controller session durationMillis =
      match link with
      | .loginFailed detail => (.error detail, controller)
      | .unreachable failure => (.error (failureDetail "Extend" failure), controller)
      | .replyLost failure => (.error (failureDetail "Extend" failure),
          controller.revise (fun row => row.id = session.clientId) (prolonged durationMillis))
      | .up => (.ok (extended durationMillis),
          controller.revise (fun row => row.id = session.clientId) (prolonged durationMillis)) := by
  cases link <;>
    simp [extendOmadaClient, calling, omadaCall, handle, handleExtend, known, readReply, Except.map]

theorem disconnect_known (known : controller.sessionById session.clientId = some row) :
    disconnectOmadaClient link clock controller session =
      match link with
      | .loginFailed detail => (.error detail, controller)
      | .unreachable failure => (.error (failureDetail "Disconnect" failure), controller)
      | .replyLost failure => (.error (failureDetail "Disconnect" failure),
          controller.revise (fun row => row.id = session.clientId) (ended clock))
      | .up => (.ok disconnected, controller.revise (fun row => row.id = session.clientId) (ended clock)) := by
  cases link <;>
    simp [disconnectOmadaClient, calling, omadaCall, handle, handleDisconnect, known, readReply, Except.map]

theorem authenticate_over :
    authenticateOmadaClient link clock controller config session durationMillis =
      match link with
      | .loginFailed detail => (.error detail, controller)
      | .unreachable failure => (.error (failureDetail "Auth" failure), controller)
      | .replyLost failure => (.error (failureDetail "Auth" failure),
          handleAuth clock controller (authRequest config session durationMillis))
      | .up => (.ok (authenticated (nowEpochMillis clock) durationMillis),
          handleAuth clock controller (authRequest config session durationMillis)) := by
  cases link <;> simp [authenticateOmadaClient, calling, omadaCall, handle, readReply, Except.map]

end

theorem grantCall_session_other {link : Link} {coinCount : Nat}
    (owns : Owns world.controller session.clientMac session.clientId) (other : session.clientMac ≠ mac) :
    (grantCall config link world session coinCount).2.session mac = world.controller.session mac := by
  unfold grantCall
  split
  · exact calling_session _ fun ⟨row, found, own⟩ => owns_other owns other found own
  · exact calling_session _ other

theorem finalize_current_iff (named : Named world) (current : Current mac world) {around : Surroundings}
    {window : Window} :
    Current mac (finalizeSession config address around window world).1 ↔
      KeepsId address mac world (.finalize around window) := by
  by_cases grants : ∃ session, Grants address window world session
  · obtain ⟨session, grants⟩ := grants
    obtain ⟨-, there⟩ := SessionCache.findByIp_some.mp grants.found
    have owns := named _ _ there
    obtain ⟨flash, after⟩ := @finalizeSession_grants _ config address around window world session grants
    by_cases mine : session.clientMac = mac
    · have judged : KeepsId address mac world (.finalize around window) ↔
          (Extends world.clock session → around.link.Acknowledged) ∧
            (¬ Extends world.clock session → around.link = .up → NoneOlder mac world session) :=
        ⟨fun keeps => keeps session grants mine, fun keeps other also _ => grants_unique grants also ▸ keeps⟩
      subst mine
      have positive := coinMillis_pos config grants.inserted
      unfold millisPerMinute at positive
      rw [judged, after]
      by_cases running : Extends world.clock session
      · obtain ⟨row, held, known, within⟩ := current.row there running.1 running.2
        have moved := revise_held held known (prolonged (coinMillis config window.tally.coinCount))
        simp only [running, grantCall, extend_known known, ↓reduceIte, not_true_eq_false, false_implies, and_true,
          true_implies]
        cases around.link with
        | loginFailed | unreachable => exact iff_of_true current (by simp [Link.Acknowledged])
        | replyLost failure =>
          refine iff_of_false (fun kept => ?_) fun acknowledged => acknowledged failure rfl
          obtain ⟨other, lost, -, near⟩ := (current_at there).mp kept running.1 running.2
          obtain rfl := Option.some.inj (moved.symm.trans lost)
          simp only [Within, prolonged] at within near
          omega
        | up =>
          refine iff_of_true ((current_at (SessionCache.write_self _ there)).mpr fun _ _ => ?_) (by simp [Link.Acknowledged])
          refine ⟨_, moved, (Controller.sessionById_some.mp known).2, ?_⟩
          simp only [Within, prolonged, extended] at within ⊢
          omega
      · have unshown (held : Option HotspotClient) :
            Matches world.clock session.sessionEndMillis session.clientId held :=
          fun still identified => absurd ⟨still, identified⟩ running
        simp only [running, grantCall, authenticate_over, ↓reduceIte, not_false_eq_true, true_implies, false_implies,
          true_and]
        cases around.link with
        | loginFailed | unreachable | replyLost => exact iff_of_true ((current_at there).mpr (unshown _)) (by simp)
        | up =>
          simp only [true_implies]
          rw [current_at (SessionCache.write_self _ there)]
          have timed : (authRequest config session (coinMillis config window.tally.coinCount)).time ≠ 0 := by
            simp only [authRequest]
            omega
          exact auth_matches owns rfl timed
    · refine iff_of_true ?_ fun other also own => absurd (grants_unique grants also ▸ own) mine
      rw [after]
      refine current_frame current ?_ (grantCall_session_other owns mine)
      split
      · rw [SessionCache.write_byMac, if_neg (Ne.symm mine)]
      · rfl
  · rw [finalizeSession_idle (not_exists.mp grants)]
    exact iff_of_true current fun session also => absurd ⟨session, also⟩ grants

theorem pause_current_iff (named : Named world) (current : Current mac world) {around : JobSurroundings} {job : String} :
    Current mac (processPause around job world).1 ↔ KeepsId address mac world (.pause around job) := by
  by_cases asks : ∃ session, world.cache.findByMac job = some session ∧ Pausable world.clock session ∧
      around.saveOpens = true
  · obtain ⟨session, found, pausable, opened⟩ := asks
    obtain ⟨-, there⟩ := SessionCache.findByMac_some.mp found
    have own := world.cache.keyed there
    obtain ⟨flash, after⟩ := processPause_asks found pausable opened
    by_cases mine : job = mac
    · subst mine
      have judged : KeepsId address job world (.pause around job) ↔
          (world.clock < session.sessionEndMillis → around.link.Acknowledged) := by
        refine ⟨fun keeps => keeps rfl session found pausable opened, fun keeps _ other also _ _ => ?_⟩
        obtain rfl := Option.some.inj (found.symm.trans also)
        exact keeps
      obtain ⟨row, held, known, within⟩ := current.row there pausable.2 pausable.1
      have finished := revise_held held known (ended world.clock)
      rw [judged, after]
      simp only [disconnect_known known]
      cases around.link with
      | loginFailed | unreachable => exact iff_of_true (current_frame current rfl rfl) fun _ => (by simp [Link.Acknowledged])
      | replyLost failure =>
        rw [current_at there]
        have close := clock_lt_nowEpochMillis world.clock
        have running := pausable.2
        constructor
        · intro kept still
          obtain ⟨other, lost, -, near⟩ := kept pausable.2 pausable.1
          obtain rfl := Option.some.inj (finished.symm.trans lost)
          simp only [Within, ended] at near
          omega
        · intro acknowledged
          have past : session.sessionEndMillis ≤ world.clock :=
            Nat.not_lt.mp fun still => acknowledged still failure rfl
          exact fun _ _ => ⟨_, finished, (Controller.sessionById_some.mp known).2, past, by simp only [ended]; omega⟩
      | up =>
        refine iff_of_true ?_ fun _ => (by simp [Link.Acknowledged])
        exact (current_at (SessionCache.write_self _ (SessionCache.write_self _ there))).mpr fun running =>
          absurd running (Nat.not_lt_zero _)
    · refine iff_of_true ?_ fun same => absurd same mine
      rw [after]
      have other : session.clientMac ≠ mac := own.symm ▸ mine
      refine current_frame current ?_ (calling_session _ fun theirs => ?_)
      · split
        · simp [SessionCache.write_byMac, Ne.symm mine]
        · rfl
      · obtain ⟨row, known, same⟩ := theirs
        exact owns_other (own.symm ▸ named _ _ there) other known same
  · rw [processPause_idle asks]
    exact iff_of_true current fun same session found pausable opened =>
      absurd ⟨session, same ▸ found, pausable, opened⟩ asks

section
variable {loadOpens : Bool} {hotspotClients : List HotspotClient} {allClients : List WifiClient}

theorem current_unknown (unknown : world.cache.byMac mac = none) : Current mac world := by
  intro running
  simp [SessionCache.entry, unknown] at running

/-- A refresh that lists the client's running session shows that one, whatever was
    cached. -/
theorem refreshWorld_listed (named : mac ≠ "") (agrees : Agrees world.controller hotspotClients)
    (lists : ListsRunning mac world.clock hotspotClients) :
    Current mac (refreshWorld config loadOpens hotspotClients allClients world) := by
  cases found : (refreshWorld config loadOpens hotspotClients allClients world).cache.byMac mac with
  | none => exact current_unknown found
  | some after =>
    rcases @refresh_mirrors _ _ config _ _ _ _ _ _ named found with ⟨session, shows⟩ | ⟨unlisted, -⟩
    · obtain ⟨inside, own, -⟩ := shows.listed
      refine (current_eq found).mpr fun _ _ => ⟨session, ?_, shows.clientId.symm, ?_⟩
      · exact Controller.session_some.mpr ⟨agrees session inside, own⟩
      · rw [shows.sessionEnd]
        exact ⟨Nat.le_refl _, by omega⟩
    · obtain ⟨session, listed⟩ := lists
      exact absurd listed (unlisted session)

theorem refreshWorld_unlisted (unlisted : ¬ ListsRunning mac world.clock hotspotClients) :
    Current mac (refreshWorld config loadOpens hotspotClients allClients world) ↔ Current mac world := by
  rcases @refreshed_byMac world.flash loadOpens world.cache config world.clock hotspotClients allClients mac with
    same | ⟨session, there, own, active, -⟩
  · simp [Current, SessionCache.entry, refreshWorld, same]
  · exact absurd ⟨session, there, own, active⟩ unlisted

theorem refresh_current (current : Current mac world) (agrees : Agrees world.controller hotspotClients) :
    Current mac (refreshWorld config loadOpens hotspotClients allClients world) := by
  rcases @refreshed_byMac world.flash loadOpens world.cache config world.clock hotspotClients allClients mac with
    same | ⟨session, there, own, -, made⟩
  · rw [Current] at current
    simpa [Current, SessionCache.entry, refreshWorld, same] using current
  · cases found : (refreshWorld config loadOpens hotspotClients allClients world).cache.byMac mac with
    | none => exact current_unknown found
    | some after =>
      have written := made.symm.trans found
      refine (current_eq found).mpr fun _ _ => ⟨session, ?_, (refreshedEntry_clientId written).symm, ?_⟩
      · exact Controller.session_some.mpr ⟨agrees session there, own⟩
      · rw [refreshedEntry_sessionEnd written]
        exact ⟨Nat.le_refl _, by simp only [mergedClient]; omega⟩

end

theorem resume_current_iff (named : Named world) (current : Current mac world) {around : JobSurroundings}
    {hotspotClients : List HotspotClient} {allClients : List WifiClient} {job : String}
    (agrees : Agrees (resumeSession config around job world).1.controller hotspotClients) :
    Current mac (processResume config around hotspotClients allClients job world).1 ↔
      KeepsId address mac world (.resume around hotspotClients allClients job) := by
  rw [processResume_world]
  by_cases asks : ∃ session, world.cache.findByMac job = some session ∧ session.pausedRemainingMillis ≠ 0
  · obtain ⟨session, found, paused⟩ := asks
    obtain ⟨jobNamed, there⟩ := SessionCache.findByMac_some.mp found
    have own := world.cache.keyed there
    obtain ⟨flash, after, granted⟩ := @resumeSession_asks _ config around job world session found paused
    by_cases mine : job = mac
    · subst mine
      have judged : KeepsId address job world (.resume around hotspotClients allClients job) ↔
          (Extends world.clock session → around.link.Acknowledged ∨
            (world.clock < world.controller.sessionEnd job ∧
              Within session.sessionEndMillis (world.clock + session.pausedRemainingMillis))) ∧
          (around.link = .up → NoneOlder job world session ∨ ListsRunning job world.clock hotspotClients) := by
        refine ⟨fun keeps => keeps rfl session found paused, fun keeps _ other also _ => ?_⟩
        obtain rfl := Option.some.inj (found.symm.trans also)
        exact keeps
      have owns := named _ _ there
      have timed : (authRequest config session session.pausedRemainingMillis).time ≠ 0 := paused
      rw [judged]
      cases link : around.link with
      | loginFailed | unreachable =>
        simp only [authenticate_over, link] at after granted
        rw [granted, after]
        exact iff_of_true (current_frame current rfl rfl) ⟨fun _ => .inl (by simp [Link.Acknowledged]), by simp⟩
      | replyLost failure =>
        simp only [authenticate_over, link] at after granted
        rw [granted, after]
        simp only [Except.isOk, Except.toBool, Bool.false_eq_true, ↓reduceIte, reduceCtorEq, false_implies, and_true]
        rw [current_at there]
        obtain ⟨row, made, ends, identity⟩ := @auth_session _ world.clock world.controller _ timed
        rw [show (authRequest config session session.pausedRemainingMillis).clientMac = job from own] at made identity
        constructor
        · intro matched running
          obtain ⟨other, held, same, within⟩ := matched running.1 running.2
          obtain rfl := Option.some.inj (made.symm.trans held)
          rw [ends] at within
          rcases identity with ⟨before, held, still, -⟩ | ⟨-, fresh⟩
          · exact .inr ⟨by simpa [Controller.sessionEnd, held] using still, within⟩
          · exact absurd (fresh.symm.trans same) (owns_fresh owns running.2)
        · intro acknowledged still identified
          rcases acknowledged ⟨still, identified⟩ with all | ⟨running, within⟩
          · exact absurd rfl (all failure)
          · refine ⟨row, made, ?_, ends ▸ within⟩
            rcases identity with ⟨before, held, -, kept⟩ | ⟨finished, -⟩
            · obtain ⟨shown, same, known, -⟩ := current.row there still identified
              obtain rfl := Option.some.inj (held.symm.trans same)
              exact kept.trans (Controller.sessionById_some.mp known).2
            · omega
      | up =>
        have matched := @auth_matches _ job session world.clock _ owns _ own timed
        simp only [authenticate_over, link] at after granted
        have accepted : (resumeSession config around job world).2.2 = true := granted
        rw [accepted, if_pos rfl]
        have clock : (resumeSession config around job world).1.clock = world.clock := by rw [after]
        by_cases lists : ListsRunning job world.clock hotspotClients
        · exact iff_of_true (refreshWorld_listed jobNamed agrees (clock ▸ lists)) ⟨fun _ => .inl (by simp [Link.Acknowledged]), fun _ => .inr lists⟩
        · rw [refreshWorld_unlisted (clock ▸ lists), after,
            current_at (SessionCache.write_self _ (SessionCache.write_self _ there))]
          refine Iff.trans matched ⟨fun older => ⟨fun _ => .inl (by simp [Link.Acknowledged]), fun _ => .inl older⟩, fun both => ?_⟩
          exact (both.2 rfl).resolve_right lists
    · have other : session.clientMac ≠ mac := own.symm ▸ mine
      refine iff_of_true ?_ fun same => absurd same mine
      have resumed : Current mac (resumeSession config around job world).1 := by
        rw [after]
        refine current_frame current ?_ (calling_session _ other)
        split
        · simp [SessionCache.write_byMac, Ne.symm mine]
        · rfl
      split
      · exact refresh_current resumed agrees
      · exact resumed
  · obtain ⟨same, refused⟩ := @resumeSession_idle _ config around job world asks
    rw [refused, same]
    exact iff_of_true current fun same session found paused => absurd ⟨session, same ▸ found, paused⟩ asks

theorem loaded_shown (flash : Flash) (opens : Bool) (mac : String) (s : SessionParams) :
    ((loaded flash opens mac).apply s).sessionEndMillis = s.sessionEndMillis ∧
      ((loaded flash opens mac).apply s).clientId = s.clientId := by
  constructor
  · simp only [loaded]
    split <;> rfl
  · simp only [loaded]
    split <;> rfl

theorem seed_current (current : Current mac world) (loadOpens : Bool) (request : Redirect) :
    Current mac { world with cache := seedPortalSession world.flash loadOpens request world.cache } := by
  by_cases mine : mac = world.cache.key request.clientIp request.clientMac
  · subst mine
    rw [current_at (byMac_seed world.flash loadOpens request), (loaded_shown _ _ _ _).1, (loaded_shown _ _ _ _).2,
      SessionCache.upsertEntry_eq]
    exact current
  · exact current_frame current (byMac_seed_other mine) rfl

theorem elapse_current (current : Current mac world) (millis : Nat) :
    Current mac { world with clock := world.clock + millis } := by
  intro running
  exact current (Nat.lt_of_le_of_lt (nowEpochMillis_mono (Nat.le_add_right _ _)) running)

/-- Whether a step keeps the cached session current is decided before it. -/
theorem step_current_iff {action : Action} (named : Named world) (current : Current mac world)
    (taken : step config address world action = some next) : Current mac next ↔ KeepsId address mac world action := by
  cases action with
  | finalize around window =>
    cases taken
    exact finalize_current_iff named current
  | pause around job =>
    cases taken
    exact pause_current_iff named current
  | resume around hotspotClients allClients job =>
    simp only [step, Option.ite_none_right_eq_some, Option.some.injEq] at taken
    obtain ⟨agrees, rfl⟩ := taken
    exact resume_current_iff named current agrees
  | refresh loadOpens hotspotClients allClients =>
    simp only [step, Option.ite_none_right_eq_some, Option.some.injEq] at taken
    obtain ⟨agrees, rfl⟩ := taken
    exact iff_of_true (refresh_current current agrees) trivial
  | seed loadOpens request =>
    cases taken
    exact iff_of_true (seed_current current loadOpens request) trivial
  | elapse millis =>
    cases taken
    exact iff_of_true (elapse_current current millis) trivial

/-- Where the cached session is current, the requests of a step name it. -/
theorem current_names (current : Current mac world) (action : Action) : RequestsCurrent address mac world action := by
  have names {session : SessionParams} (there : world.cache.byMac mac = some session)
      (running : nowEpochMillis world.clock < session.sessionEndMillis) (identified : session.clientId ≠ "") :
      NamesRunning mac world session := by
    obtain ⟨row, held, known, within⟩ := current.row there running identified
    exact ⟨row, held, (Controller.sessionById_some.mp known).2, Nat.lt_of_lt_of_le running within.1⟩
  cases action with
  | finalize around window =>
    rintro session grants rfl extends_
    exact names (SessionCache.findByIp_some.mp grants.found).2 extends_.1 extends_.2
  | pause around job =>
    rintro rfl session found pausable -
    exact names (SessionCache.findByMac_some.mp found).2 pausable.2 pausable.1
  | resume | refresh | seed | elapse => trivial

/-- In a run from power-on the cached session is always current exactly when every
    step keeps it so, and then every extend and disconnect request about the client
    names the session that the controller runs for it. -/
theorem session_ids_iff (mac : String) {boot last : World issuer} {actions : List Action} (booted : Booted boot)
    (ran : run (step config address) boot actions = some last) :
    (Always (step config address) (Current mac) boot actions ↔
      Throughout (step config address) (KeepsId address mac) boot actions) ∧
    (Throughout (step config address) (KeepsId address mac) boot actions →
      Throughout (step config address) (RequestsCurrent address mac) boot actions) := by
  have named : Named boot := @reachable_named _ config address boot [] boot booted rfl
  have first : Current mac boot := current_unknown (by rw [booted]; rfl)
  have same := always_iff (fun _ _ _ named taken => step_named named taken)
    (fun _ _ _ named current keeps taken => (step_current_iff named current taken).mpr keeps)
    (fun _ current => current)
    (fun _ _ _ named current loses taken current' => loses ((step_current_iff named current taken).mp current'))
    named first ran
  exact ⟨same, fun keeps => throughout_of_always (fun _ current action => current_names current action) (same.mpr keeps)⟩

end

/-! ## An identifier of an earlier session -/

/-- A client buys one coin's time, a refresh reads its session, and it pauses. -/
def boughtAndPaused : List Action :=
  [visit, .finalize answered oneCoin, listed 1, .pause jobAnswered visitor.clientMac]

theorem session_ids_paused :
    Always (step defaultConfig dottedQuad) (Current visitor.clientMac) powered boughtAndPaused ∧
      Throughout (step defaultConfig dottedQuad) (RequestsCurrent dottedQuad visitor.clientMac) powered
        boughtAndPaused := by
  have ids := @session_ids_iff _ defaultConfig dottedQuad visitor.clientMac powered _ boughtAndPaused rfl rfl
  have keeps : Throughout (step defaultConfig dottedQuad) (KeepsId dottedQuad visitor.clientMac) powered
      boughtAndPaused := by
    refine ⟨trivial, fun seeded taken => ?_⟩
    obtain rfl := Option.some.inj taken
    refine ⟨fun session grants _ => ⟨fun _ => nofun, fun _ _ => .inl ?_⟩, fun _ _ => ⟨trivial, fun _ _ => ⟨?_, fun _ _ => trivial⟩⟩⟩
    · have found := congrArg (Option.map (·.clientId)) grants.found
      exact (Option.some.inj (Eq.trans (by decide) found)).symm
    · exact fun _ _ _ _ _ _ => nofun
  exact ⟨ids.1.mpr keeps, ids.2 keeps⟩

/-- The first session runs out, and a second coin buys a new one before any refresh. -/
def boughtAgain : List Action :=
  [visit, .finalize answered oneCoin, listed 1, .elapse 1500000, .finalize answered oneCoin]

/-- The cache shows the new session under the identifier of the old one, and a pause
    asks the controller to end that one. -/
theorem stale_id_named :
    ∃ world, run (step defaultConfig dottedQuad) powered boughtAgain = some world ∧ Booted powered ∧
      ¬ Current visitor.clientMac world ∧
      ¬ RequestsCurrent dottedQuad visitor.clientMac world (.pause jobAnswered visitor.clientMac) := by
  refine ⟨_, rfl, rfl, fun current => ?_, fun named => ?_⟩
  · obtain ⟨row, held, same, -⟩ := current (by decide +kernel) (by decide +kernel)
    have identities := congrArg (Option.map (·.id)) held
    rw [Option.map_some, same] at identities
    exact absurd identities (by decide +kernel)
  · obtain ⟨row, held, same, -⟩ := named rfl _ rfl ⟨by decide +kernel, by decide +kernel⟩ rfl
    have identities := congrArg (Option.map (·.id)) held
    rw [Option.map_some, same] at identities
    exact absurd identities (by decide +kernel)

end EllaFi.SessionIds
