import EllaFi.Steps

/-!
Paused time between two tasks. The WebSocket task pauses and resumes a client in
several steps, each one access to the client's entry, the pause file or the
controller, while the HTTP task puts what it finds in the file back into an entry
that has no paused time (`step`; run without the other task, the steps of a job
are the job, `pause_steps`, `resume_steps`, `seed_steps`). Time that a resume has
turned into a session, and time of a pause that failed and left the session
running, is spent; it must not be the balance of the entry again (`Unspent`). That
is so in a run exactly when no page load reads the file while it holds spent time,
none is between its read and its assignment when the time that it read is spent,
and no pause fails whose time a page load has put back already (`unspent_iff`).
-/
namespace EllaFi.SpentTime
open EllaFi.Session EllaFi.Cache EllaFi.Files EllaFi.Omada EllaFi.Finalize EllaFi.PauseResume EllaFi.Steps
open EllaFi.Runs (run Always Throughout always_mono throughout_always always_iff_settled)

/-- Time that was put aside, and which pause put it there. The number tells equal
    amounts apart; no step depends on it. -/
structure PausedTime where
  millis : Nat
  pause : Nat
deriving DecidableEq, Repr

/-- What the WebSocket task does next about the client. -/
inductive Job where
  | idle
  | opening (remaining : Nat)
  | writing (remaining : Nat)
  | disconnecting (time : PausedTime)
  | storing (time : PausedTime)
  | discarding
  | authenticating (time : PausedTime)
  | clearing (time : PausedTime)
  | removing
deriving DecidableEq, Repr

/-- What the HTTP task does next about the client. -/
inductive PageLoad where
  | idle
  | found
  | unpaused
  | read (time : PausedTime)
deriving DecidableEq, Repr

/-- The reply to a disconnect: done, refused with the session left running, or
    reported as failed though the session has ended. -/
inductive Answer where
  | ok
  | refused
  | lost
deriving DecidableEq, Repr

structure State where
  clock : Nat
  session : SessionParams
  /-- The pause that the entry's paused time is of. -/
  balance : Nat
  file : Option PausedTime
  job : Job
  page : PageLoad
  pauses : Nat
  spent : List Nat
deriving DecidableEq, Repr

def State.paused (s : State) : PausedTime := ⟨s.session.pausedRemainingMillis, s.balance⟩

inductive Action where
  | elapse (millis : Nat)
  /-- A coin session or a refresh writes the entry. -/
  | assign (sessionEndMillis : Nat) (clientId : String)
  | startPause
  | openFile (opens : Bool)
  | writeFile (writes : Bool)
  | disconnect (answer : Answer)
  | storeBalance
  | discardFile (removes : Bool)
  | startResume
  | authenticate (granted : Bool)
  | clearBalance
  | removeFile (removes : Bool)
  | findFile (request : Redirect)
  | checkUnpaused
  | readFile (opens : Bool)
  | assignBalance
deriving DecidableEq, Repr

/-- The entry takes the address and the parameters of a page request. -/
def requested (request : Redirect) (session : SessionParams) : SessionParams :=
  (setRedirect request.apMac request.ssidName request.radioId).apply
    { session with clientIp := if request.clientIp = "" then session.clientIp else request.clientIp }

/-- The bytes of a file that was opened and not written are none. -/
def blank : PausedTime := ⟨0, 0⟩

def step (s : State) : Action → Option State
  | .elapse millis => some { s with clock := s.clock + millis }
  | .assign sessionEndMillis clientId => some { s with session := { s.session with sessionEndMillis, clientId } }
  | .startPause =>
    match s.job with
    | .idle =>
      if s.session.sessionEndMillis = 0 ∨ s.session.clientId = "" then some s
      else if s.session.sessionEndMillis ≤ nowEpochMillis s.clock then some s
      else some { s with job := .opening (toUnsignedLong (s.session.sessionEndMillis - nowEpochMillis s.clock)) }
    | _ => none
  | .openFile opens =>
    match s.job with
    | .opening remaining =>
      if opens then some { s with file := some blank, job := .writing remaining } else some { s with job := .idle }
    | _ => none
  | .writeFile writes =>
    match s.job with
    | .writing remaining =>
      some { s with
        file := if writes then some ⟨remaining, s.pauses⟩ else s.file
        job := .disconnecting ⟨remaining, s.pauses⟩
        pauses := s.pauses + 1 }
    | _ => none
  | .disconnect answer =>
    match s.job with
    | .disconnecting time =>
      match answer with
      | .ok => some { s with session := disconnected.apply s.session, job := .storing time }
      | .refused => some { s with spent := time.pause :: s.spent, job := .discarding }
      | .lost => some { s with job := .discarding }
    | _ => none
  | .storeBalance =>
    match s.job with
    | .storing time =>
      some { s with session := (setPaused time.millis).apply s.session, balance := time.pause, job := .idle }
    | _ => none
  | .discardFile removes =>
    match s.job with
    | .discarding => some { s with file := if removes then none else s.file, job := .idle }
    | _ => none
  | .startResume =>
    match s.job with
    | .idle => if s.paused.millis = 0 then some s else some { s with job := .authenticating s.paused }
    | _ => none
  | .authenticate granted =>
    match s.job with
    | .authenticating time =>
      if granted then
        some { s with
          session := (authenticated (nowEpochMillis s.clock) time.millis).apply s.session, job := .clearing time }
      else some { s with job := .idle }
    | _ => none
  | .clearBalance =>
    match s.job with
    | .clearing time =>
      some { s with
        session := (setPaused 0).apply s.session, spent := time.pause :: s.spent, job := .removing }
    | _ => none
  | .removeFile removes =>
    match s.job with
    | .removing => some { s with file := if removes then none else s.file, job := .idle }
    | _ => none
  | .findFile request =>
    match s.page with
    | .idle =>
      some { s with session := requested request s.session, page := if s.file.isSome then .found else .idle }
    | _ => none
  | .checkUnpaused =>
    match s.page with
    | .found => some { s with page := if s.paused.millis = 0 then .unpaused else .idle }
    | _ => none
  | .readFile opens =>
    match s.page with
    | .unpaused => some { s with page := .read (if opens then s.file.getD blank else blank) }
    | _ => none
  | .assignBalance =>
    match s.page with
    | .read time =>
      some { s with session := (setPaused time.millis).apply s.session, balance := time.pause, page := .idle }
    | _ => none

/-- The answer that a disconnect with an error stands for. -/
def refusal : Link → Answer
  | .replyLost _ => .lost
  | .loginFailed _ | .unreachable _ | .up => .refused

theorem refusal_cases (link : Link) : refusal link = .lost ∨ refusal link = .refused := by
  cases link <;> simp [refusal]

/-! ## The jobs without interruption -/

/-- The state is the client's part of the master's. -/
structure Views {issuer : Issuer} (mac : String) (world : World issuer) (s : State) : Prop where
  clock : s.clock = world.clock
  entry : world.cache.findByMac mac = some s.session
  file : world.flash.pausedSessions (macToFilename mac) = s.file.map (·.millis)

section
variable {issuer : Issuer} {config : Config} {around : JobSurroundings} {mac : String} {world : World issuer} {s : State}

theorem Views.own (views : Views mac world s) : mac ≠ "" ∧ s.session.clientMac = mac := by
  obtain ⟨named, there⟩ := SessionCache.findByMac_some.mp views.entry
  exact ⟨named, world.cache.keyed there⟩

/-- A pause that nothing interrupts is a run of its steps. -/
theorem pause_steps (views : Views mac world s) (idle : s.job = .idle) :
    ∃ actions last, run step s actions = some last ∧ last.job = .idle ∧
      Views mac (processPause around mac world).1 last := by
  obtain ⟨named, own⟩ := views.own
  obtain ⟨clock, entry, file⟩ := views
  have there := (SessionCache.findByMac_some.mp entry).2
  unfold processPause
  simp only [entry, ← clock]
  by_cases none_ : s.session.sessionEndMillis = 0 ∨ s.session.clientId = ""
  · rw [if_pos none_]
    exact ⟨[.startPause], s, by simp [run, step, idle, none_], idle, clock, entry, file⟩
  · rw [if_neg none_]
    by_cases finished : s.session.sessionEndMillis ≤ nowEpochMillis s.clock
    · rw [if_pos finished]
      exact ⟨[.startPause], s, by simp [run, step, idle, none_, finished], idle, clock, entry, file⟩
    · rw [if_neg finished]
      cases opened : around.saveOpens with
      | false => exact ⟨[.startPause, .openFile false], { s with job := .idle },
          by simp [run, step, idle, none_, finished], rfl, clock, entry, file⟩
      | true =>
        simp only [savePausedSessionFile, ↓reduceIte]
        cases called : disconnectOmadaClient around.link s.clock world.controller s.session with
        | mk reported controller =>
          cases reported with
          | ok fields =>
            obtain ⟨-, rfl, -⟩ := disconnect_ok.mp called
            refine ⟨[.startPause, .openFile true, .writeFile true, .disconnect .ok, .storeBalance], _,
              by simp only [run, step, idle, none_, finished, ↓reduceIte, Option.bind_some]; rfl, ?_⟩
            refine ⟨rfl, rfl, ?_, ?_⟩
            · simp [SessionCache.findByMac, named, own, SessionCache.write_byMac, there]
            · simp [own]
          | error errorDetail =>
            dsimp only
            rcases refusal_cases around.link with lost | refused
            · refine ⟨[.startPause, .openFile true, .writeFile true, .disconnect (refusal around.link), .discardFile true],
                _, by simp only [run, step, idle, none_, finished, lost, ↓reduceIte, Option.bind_some]; rfl, ?_⟩
              exact ⟨rfl, rfl, entry, by simp [deletePausedSessionFile, own]⟩
            · refine ⟨[.startPause, .openFile true, .writeFile true, .disconnect (refusal around.link), .discardFile true],
                _, by simp only [run, step, idle, none_, finished, refused, ↓reduceIte, Option.bind_some]; rfl, ?_⟩
              exact ⟨rfl, rfl, entry, by simp [deletePausedSessionFile, own]⟩

/-- A resume that nothing interrupts is a run of its steps, up to its refresh. -/
theorem resume_steps (views : Views mac world s) (idle : s.job = .idle) :
    ∃ actions last, run step s actions = some last ∧ last.job = .idle ∧
      Views mac (resumeSession config around mac world).1 last := by
  obtain ⟨named, own⟩ := views.own
  obtain ⟨clock, entry, file⟩ := views
  have there := (SessionCache.findByMac_some.mp entry).2
  unfold resumeSession
  simp only [entry, ← clock]
  by_cases none_ : s.session.pausedRemainingMillis = 0
  · rw [if_pos none_]
    exact ⟨[.startResume], s, by simp [run, step, idle, State.paused, none_], idle, clock, entry, file⟩
  · rw [if_neg none_]
    cases called : authenticateOmadaClient around.link s.clock world.controller config s.session
      s.session.pausedRemainingMillis with
    | mk reported controller =>
      cases reported with
      | ok fields =>
        obtain ⟨-, rfl, -⟩ := authenticate_ok.mp called
        refine ⟨[.startResume, .authenticate true, .clearBalance, .removeFile true], _,
          by simp only [run, step, idle, State.paused, none_, ↓reduceIte, Option.bind_some]; rfl, ?_⟩
        refine ⟨rfl, rfl, ?_, ?_⟩
        · simp [SessionCache.findByMac, named, own, SessionCache.write_byMac, there]
        · simp [deletePausedSessionFile, own]
      | error errorDetail =>
        refine ⟨[.startResume, .authenticate false], _,
          by simp only [run, step, idle, State.paused, none_, ↓reduceIte, Option.bind_some]; rfl, ?_⟩
        exact ⟨rfl, rfl, entry, file⟩

/-- So is the load of a page. -/
theorem seed_steps (views : Views mac world s) (idle : s.page = .idle) {request : Redirect}
    (opens : Bool) (own : request.clientMac = mac) :
    ∃ actions last, run step s actions = some last ∧ last.page = .idle ∧
      Views mac { world with cache := seedPortalSession world.flash opens request world.cache } last := by
  obtain ⟨clock, entry, file⟩ := views
  obtain ⟨named, there⟩ := SessionCache.findByMac_some.mp entry
  subst own
  have seeded : (seedPortalSession world.flash opens request world.cache).findByMac request.clientMac =
      some ((loaded world.flash opens request.clientMac).apply (requested request s.session)) := by
    simp [seedPortalSession, SessionCache.findByMac, named, SessionCache.write_byMac, SessionCache.upsert_byMac,
      requested, SessionCache.upsertEntry_eq, SessionCache.entry_of_byMac there]
  have unpaused : (requested request s.session).pausedRemainingMillis = s.session.pausedRemainingMillis := rfl
  cases held : s.file with
  | none =>
    rw [held] at file
    have kept : (loaded world.flash opens request.clientMac).apply (requested request s.session) =
        requested request s.session := loaded_unrestored (by simp [hasPausedSessionFile, file])
    refine ⟨[.findFile request], _, by simp only [run, step, idle, held, Option.bind_some]; rfl, ?_⟩
    exact ⟨rfl, clock, seeded.trans (congrArg some kept), by simpa [held] using file⟩
  | some time =>
    rw [held] at file
    by_cases paused : s.session.pausedRemainingMillis = 0
    · have restored : (loaded world.flash opens request.clientMac).apply (requested request s.session) =
          (setPaused (if opens then time.millis else 0)).apply (requested request s.session) := by
        simp [loaded, hasPausedSessionFile, loadPausedSessionFile, file, unpaused, paused, setPaused]
      refine ⟨[.findFile request, .checkUnpaused, .readFile opens, .assignBalance], _, by
        simp only [run, step, idle, held, State.paused, unpaused, paused, Option.bind_some, Option.isSome_some,
          ↓reduceIte]
        rfl, ?_⟩
      refine ⟨rfl, clock, seeded.trans (congrArg some ?_), by simpa [held] using file⟩
      rw [restored]
      cases opens <;> rfl
    · have kept : (loaded world.flash opens request.clientMac).apply (requested request s.session) =
          requested request s.session := loaded_unrestored fun _ => paused
      refine ⟨[.findFile request, .checkUnpaused], _, by
        simp only [run, step, idle, held, State.paused, unpaused, paused, Option.bind_some, Option.isSome_some,
          ↓reduceIte]
        rfl, ?_⟩
      exact ⟨rfl, clock, seeded.trans (congrArg some kept), by simpa [held] using file⟩

end

/-! ## Spent time -/

/-- The paused time of the entry is not spent. -/
def Unspent (s : State) : Prop := s.paused.millis ≠ 0 → s.paused.pause ∉ s.spent

instance (s : State) : Decidable (Unspent s) := inferInstanceAs (Decidable (_ → _))

/-- A page load has read time of that pause and is about to assign it. -/
def Holds (page : PageLoad) (pause : Nat) : Prop := ∃ time, page = .read time ∧ time.millis ≠ 0 ∧ time.pause = pause

/-- When time is spent, no page load is about to assign it, and none has assigned it
    to the entry before its pause failed; and no page load reads a file of spent
    time. -/
def Timely (s : State) : Action → Prop
  | .disconnect .refused => ∀ time, s.job = .disconnecting time →
      ¬ Holds s.page time.pause ∧ ¬ (s.paused.millis ≠ 0 ∧ s.paused.pause = time.pause)
  | .clearBalance => ∀ time, s.job = .clearing time → ¬ Holds s.page time.pause
  | .readFile opens => opens → ∀ time, s.file = some time → time.millis ≠ 0 → time.pause ∉ s.spent
  | _ => True

/-- Pauses are numbered in order, and what is spent was put aside before. -/
structure Numbered (s : State) : Prop where
  first : 0 < s.pauses
  balance : s.balance < s.pauses
  file : ∀ time, s.file = some time → time.pause < s.pauses
  page : ∀ time, s.page = .read time → time.pause < s.pauses
  job : ∀ time, s.job = .disconnecting time ∨ s.job = .storing time ∨ s.job = .authenticating time ∨
    s.job = .clearing time → time.pause < s.pauses
  spent : ∀ pause ∈ s.spent, pause < s.pauses

/-- Nothing that is going to be the entry's paused time is spent. -/
structure Sound (s : State) : Prop where
  unspent : Unspent s
  page : ∀ time, s.page = .read time → time.millis ≠ 0 → time.pause ∉ s.spent
  job : ∀ time, s.job = .disconnecting time ∨ s.job = .storing time → time.pause ∉ s.spent

/-- A page load is about to assign spent time. -/
def Doomed (s : State) : Prop := ∃ time, s.page = .read time ∧ time.millis ≠ 0 ∧ time.pause ∈ s.spent

section
variable {s next : State} {action : Action}

theorem step_numbered (numbered : Numbered s) (taken : step s action = some next) : Numbered next := by
  cases action <;> simp only [step] at taken
  case readFile opens =>
    cases held : s.file <;> grind [Numbered, blank]
  all_goals grind [Numbered, State.paused, blank]

/-- A step in time keeps spent time out of what will be the entry's balance. -/
theorem step_sound (numbered : Numbered s) (sound : Sound s) (timely : Timely s action)
    (taken : step s action = some next) : Sound next := by
  obtain ⟨unspent, page, job⟩ := sound
  cases action with
  | disconnect answer =>
    simp only [step] at taken
    split at taken
    · next time disconnecting =>
      have fresh := job time (.inl disconnecting)
      cases answer with
      | ok =>
        cases taken
        exact ⟨unspent, page, by simpa using fresh⟩
      | refused =>
        obtain ⟨unread, unstored⟩ := timely time disconnecting
        cases taken
        refine ⟨fun nonzero => ?_, fun other reading nonzero => ?_, by simp⟩
        · exact List.not_mem_cons_of_ne_of_not_mem (fun same => unstored ⟨nonzero, same⟩) (unspent nonzero)
        · exact List.not_mem_cons_of_ne_of_not_mem (fun same => unread ⟨other, reading, nonzero, same⟩)
            (page other reading nonzero)
      | lost =>
        cases taken
        exact ⟨unspent, page, by simp⟩
    · cases taken
  | storeBalance =>
    simp only [step] at taken
    split at taken
    · next time storing =>
      have fresh := job time (.inr storing)
      cases taken
      exact ⟨fun _ => fresh, page, by simp⟩
    · cases taken
  | clearBalance =>
    simp only [step] at taken
    split at taken
    · next time clearing =>
      have unread := timely time clearing
      cases taken
      refine ⟨fun nonzero => absurd rfl nonzero, fun other reading nonzero => ?_, by simp⟩
      exact List.not_mem_cons_of_ne_of_not_mem (fun same => unread ⟨other, reading, nonzero, same⟩)
        (page other reading nonzero)
    · cases taken
  | readFile opens =>
    simp only [step] at taken
    split at taken
    · cases taken
      refine ⟨unspent, ?_, job⟩
      rintro time reading nonzero
      obtain rfl := PageLoad.read.inj reading
      cases opens with
      | false => exact absurd rfl nonzero
      | true =>
        cases held : s.file with
        | none =>
          rw [held] at nonzero
          exact absurd rfl nonzero
        | some time =>
          rw [held] at nonzero
          exact timely rfl time held nonzero
    · cases taken
  | assignBalance =>
    simp only [step] at taken
    split at taken
    · next time reading =>
      cases taken
      exact ⟨page time reading, by simp, job⟩
    · cases taken
  | writeFile writes =>
    simp only [step] at taken
    split at taken
    · cases taken
      refine ⟨unspent, page, ?_⟩
      rintro time (own | none_)
      · obtain rfl := Job.disconnecting.inj own
        exact fun before => Nat.lt_irrefl _ (numbered.spent _ before)
      · cases none_
    · cases taken
  | findFile request =>
    simp only [step] at taken
    split at taken
    · cases taken
      refine ⟨unspent, fun time reading => ?_, job⟩
      dsimp only at reading
      split at reading <;> cases reading
    · cases taken
  | elapse | assign | startPause | openFile | discardFile | startResume | authenticate | removeFile | checkUnpaused =>
    simp only [step] at taken
    grind [Sound, Unspent, State.paused, authenticated]

/-- A step out of time brings spent time back, or a page load is about to. -/
theorem step_loses (late : ¬ Timely s action) (taken : step s action = some next) : ¬ Unspent next ∨ Doomed next := by
  cases action with
  | disconnect answer =>
    cases answer with
    | refused =>
      simp only [Timely, not_forall, exists_prop] at late
      obtain ⟨time, disconnecting, late⟩ := late
      rcases not_and_or.mp late with held | stored
      · obtain ⟨other, reading, nonzero, same⟩ := not_not.mp held
        simp only [step, disconnecting] at taken
        cases taken
        exact .inr ⟨other, reading, nonzero, same ▸ List.mem_cons_self⟩
      · obtain ⟨nonzero, same⟩ := not_not.mp stored
        simp only [step, disconnecting] at taken
        cases taken
        exact .inl fun unspent => unspent nonzero (same ▸ List.mem_cons_self)
    | ok | lost => exact absurd trivial late
  | clearBalance =>
    simp only [Timely, not_forall, not_not] at late
    obtain ⟨time, clearing, other, reading, nonzero, same⟩ := late
    simp only [step, clearing] at taken
    cases taken
    exact .inr ⟨other, reading, nonzero, same ▸ List.mem_cons_self⟩
  | readFile opens =>
    simp only [Timely, not_forall, not_not] at late
    obtain ⟨opened, time, held, nonzero, spent⟩ := late
    simp only [step] at taken
    split at taken
    · cases taken
      exact .inr ⟨time, by simp [opened, held], nonzero, spent⟩
    · cases taken
  | _ => exact absurd trivial late

/-- A page load that is about to assign spent time does so. -/
theorem step_doomed (doomed : Doomed s) (taken : step s action = some next) : ¬ Unspent next ∨ Doomed next := by
  obtain ⟨time, reading, nonzero, spent⟩ := doomed
  cases action with
  | assignBalance =>
    simp only [step, reading] at taken
    cases taken
    exact .inl fun unspent => unspent nonzero spent
  | _ =>
    simp only [step] at taken
    grind [Doomed]

/-- Both tasks are idle, and nothing is spent yet. -/
structure Start (s : State) : Prop where
  job : s.job = .idle
  page : s.page = .idle
  unspent : s.spent = []
  numbered : Numbered s

/-- When every step is in time, spent time is never the paused time of the entry; and
    in a run at whose end no page load is under way, only then. -/
theorem unspent_iff {start : State} {actions : List Action} (starts : Start start) :
    (Throughout step Timely start actions → Always step Unspent start actions) ∧
      ∀ last, run step start actions = some last → last.page = .idle →
        (Always step Unspent start actions ↔ Throughout step Timely start actions) := by
  have sound : Sound start :=
    ⟨fun _ => by simp [starts.unspent], fun time reading => by simp [starts.page] at reading,
      fun time holding => by simp [starts.job] at holding⟩
  constructor
  · intro timely
    have always : Always step (fun s => Numbered s ∧ Sound s) start actions := throughout_always
      (fun _ _ _ inv timely taken => ⟨step_numbered inv.1 taken, step_sound inv.1 inv.2 timely taken⟩)
      ⟨starts.numbered, sound⟩ timely
    exact always_mono (fun _ inv => inv.2.unspent) always
  · intro last ran ends
    have settled : ¬ Doomed last := by
      rintro ⟨time, reading, -⟩
      simp [ends] at reading
    exact always_iff_settled (fun _ _ _ numbered taken => step_numbered numbered taken)
      (fun _ _ _ numbered sound timely taken => step_sound numbered sound timely taken)
      (fun _ sound => sound.unspent) (fun _ _ _ _ _ late taken => step_loses late taken)
      (fun _ _ _ doomed taken => step_doomed doomed taken) starts.numbered sound settled ran

end

/-! ## A page load during a resume -/

/-- A client that bought one coin's time has paused it. -/
def pausedWorld : World plainIssuer :=
  (run (Steps.step defaultConfig dottedQuad) powered
    [visit, .finalize answered oneCoin, listed 1, .pause jobAnswered visitor.clientMac]).getD powered

def pausedState : State where
  clock := pausedWorld.clock
  session := pausedWorld.cache.entry visitor.clientMac
  balance := 0
  file := (pausedWorld.flash.pausedSessions (macToFilename visitor.clientMac)).map fun millis => ⟨millis, 0⟩
  job := .idle
  page := .idle
  pauses := 1
  spent := []

theorem pausedState_start : Start pausedState where
  job := rfl
  page := rfl
  unspent := rfl
  numbered := {
    first := Nat.one_pos
    balance := Nat.one_pos
    file := by
      rintro time held
      simp only [pausedState, Option.map_eq_some_iff] at held
      obtain ⟨millis, -, rfl⟩ := held
      exact Nat.one_pos
    page := nofun
    job := fun _ => by simp [pausedState]
    spent := nofun }

def reload : Redirect where
  clientIp := visitor.clientIp
  clientMac := visitor.clientMac
  apMac := none
  ssidName := none
  radioId := none

/-- The page is loaded after the client has been resumed. -/
theorem unspent_reload :
    Always step Unspent pausedState
      [.startResume, .authenticate true, .clearBalance, .removeFile true, .findFile reload] := by
  refine ((unspent_iff pausedState_start).2 _ rfl (by decide +kernel)).mpr ⟨trivial, fun started taken => ⟨trivial, ?_⟩⟩
  cases taken
  rintro granted taken
  cases taken
  refine ⟨?_, fun _ _ => ⟨trivial, fun _ _ => ⟨trivial, fun _ _ => trivial⟩⟩⟩
  rintro time - ⟨other, reading, -⟩
  exact absurd (show PageLoad.idle = .read other from reading) nofun

/-- The page is loaded between the two updates of the resume: the client is running
    and has the same time paused again. -/
theorem resumed_time_returns :
    Views visitor.clientMac pausedWorld pausedState ∧ Start pausedState ∧
      ∃ last, run step pausedState
          [.startResume, .authenticate true, .clearBalance, .findFile reload, .checkUnpaused, .readFile true,
            .removeFile true, .assignBalance] = some last ∧ last.page = .idle ∧
        ¬ Always step Unspent pausedState
          [.startResume, .authenticate true, .clearBalance, .findFile reload, .checkUnpaused, .readFile true,
            .removeFile true, .assignBalance] := by
  refine ⟨⟨rfl, by decide +kernel, by decide +kernel⟩, pausedState_start, _, rfl, rfl, fun always => ?_⟩
  exact absurd (Runs.always_last always rfl) (by decide +kernel)

end EllaFi.SpentTime
