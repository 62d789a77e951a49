import EllaFi.CoinTasks
import EllaFi.Turnstile
import Mathlib.Data.List.TakeWhile

/-!
Who has the coin slot. The tasks and the handlers that race for the slot are a
turnstile (`step_refines`): `COIN_INSERT_ACTIVE` says that the turn is held, the
queued START is the client that waits, and the slot's address is that of the
client being served. So every claim is served alone, once and in order, and the
slot holds the claimant's address from its START to the end of its
`finalizeSession` (`coin_slot_lifecycle`).
-/
namespace EllaFi.CoinSlot
open EllaFi.Session EllaFi.Coins EllaFi.CoinTasks
open EllaFi.Turnstile (Turn Event Accounted winners withdrawals releases finishes posts begins run_accounted exclusive)
open EllaFi.Runs (run run_append run_cons run_nil watch watch_some watch_of_step throughout_all throughout_keeps run_keeps)

/-! ## The turnstile of the coin slot -/

/-- The address of a claim, as its START event carries it. -/
def claimant (clientIp : String) : String := truncated 15 clientIp

/-- No request for the coin slot comes from 0.0.0.0. -/
def FromClients (address : IPAddress) : Action → Prop
  | .tryClaim _ _ clientIp => coinIpToU32 address (claimant clientIp) ≠ 0
  | _ => True

def startIp : CoinSessionEvent → Option String
  | .start _ clientIp => some clientIp
  | .coin _ | .fraudEnd => none

def queuedStarts (queue : List CoinSessionEvent) : List String := queue.filterMap startIp

/-- How far the session task is with its client. -/
inductive Stage where
  | idle
  | inWindow
  | finishing
deriving DecidableEq

def taskStage : SessionTask → Stage
  | .receiving => .idle
  | .counting _ | .closing .. => .inWindow
  | .finalizing .. | .granting .. => .finishing

/-- The events that the open session is going to receive, or else the next one. -/
def ahead (task : SessionTask) (queue : List CoinSessionEvent) : List CoinSessionEvent :=
  match task with
  | .counting _ => queue
  | _ => queue.dropWhile (startIp · = none)

/-- What a step means for the turn. -/
def happening (s : Tasks) : CoinTasks.Action → Option (Event String)
  | .tryClaim bootTestRunning _ clientIp =>
    if bootTestRunning ∨ s.coinInsertActive then none else some (.won (claimant clientIp))
  | .postStart call =>
    if s.coinSessionQueue.length < coinSessionQueueSize then
      (s.claims[call]?).map fun claim => .posted (claimant claim.clientIp)
    else none
  | .rollBack _ => some .withdrawn
  | .receiveEvent _ =>
    match s.sessionTask, s.coinSessionQueue with
    | .receiving, .start _ clientIp :: _ => some (.begun clientIp)
    | _, _ => none
  | .clearActive => some .released
  | .endFinalize => some .finished
  | _ => none

def turnStage : Turn String → Stage
  | .serving _ => .inWindow
  | .free none | .claimed _ none | .queued _ none => .idle
  | .free (some _) | .claimed _ (some _) | .queued _ (some _) => .finishing

/-- The tasks are in the state that the turnstile is in. -/
structure Refines (address : IPAddress) (s : Tasks) (turn : Turn String) : Prop where
  active : s.coinInsertActive = turn.taken
  claims : s.claims.map (claimant ·.clientIp) = turn.pending
  starts : queuedStarts s.coinSessionQueue = turn.waiting
  stage : taskStage s.sessionTask = turnStage turn
  slot : s.coinSessionSlot.clientIpV4 = (turn.current.map (coinIpToU32 address)).getD 0
  posting : ∀ event, s.pulseTask = .posting event → startIp event = none

section
variable {address : IPAddress} {macAddress : String} {s next : Tasks} {turn : Turn String}

theorem refines_initial : Refines address initial (.free none) where
  active := rfl
  claims := rfl
  starts := rfl
  stage := rfl
  slot := rfl
  posting := nofun

/-- A step that touches none of what the turnstile shows. -/
theorem refines_frame (refines : Refines address s turn) (active : next.coinInsertActive = s.coinInsertActive)
    (claims : next.claims.map (claimant ·.clientIp) = s.claims.map (claimant ·.clientIp))
    (starts : queuedStarts next.coinSessionQueue = queuedStarts s.coinSessionQueue)
    (stage : taskStage next.sessionTask = taskStage s.sessionTask)
    (slot : next.coinSessionSlot.clientIpV4 = s.coinSessionSlot.clientIpV4)
    (posting : ∀ event, next.pulseTask = .posting event → s.pulseTask = .posting event ∨ startIp event = none) :
    Refines address next turn where
  active := active.trans refines.active
  claims := claims.trans refines.claims
  starts := starts.trans refines.starts
  stage := stage.trans refines.stage
  slot := slot.trans refines.slot
  posting event here := (posting event here).elim (refines.posting event) id

theorem afterReject_posting {fraudCount : Nat} {event : CoinSessionEvent}
    (posting : afterReject fraudCount = .posting event) : startIp event = none := by
  unfold afterReject at posting
  split at posting
  · cases posting; rfl
  · cases posting

theorem queuedStarts_append (queue : List CoinSessionEvent) (event : CoinSessionEvent) :
    queuedStarts (queue ++ [event]) = queuedStarts queue ++ (startIp event).toList := by
  cases named : startIp event <;> simp [queuedStarts, named]

theorem startIp_stray {event : CoinSessionEvent} (other : ∀ socketFd clientIp, event ≠ .start socketFd clientIp) :
    startIp event = none := by
  cases event with
  | start socketFd clientIp => exact absurd rfl (other socketFd clientIp)
  | coin | fraudEnd => rfl

/-- The only pending claim is the one that a call is about. -/
theorem sole_claim {claims : List Claim} {claim : Claim} {call : Nat}
    (refines : claims.map (claimant ·.clientIp) = turn.pending) (pending : claims[call]? = some claim) :
    (∃ finishing, turn = .claimed (claimant claim.clientIp) finishing) ∧ claims.eraseIdx call = [] ∧
      ∀ other : Claim, other.clientIp = claim.clientIp →
        (claims.set call other).map (claimant ·.clientIp) = claims.map (claimant ·.clientIp) := by
  have inside := List.mem_map_of_mem (f := (claimant ·.clientIp)) (List.mem_of_getElem? pending)
  rw [refines] at inside
  cases turn with
  | claimed holder finishing =>
    simp only [Turn.pending, List.mem_singleton] at inside
    obtain ⟨only, rfl, -⟩ := List.map_eq_singleton_iff.mp refines
    cases call with
    | zero =>
      simp only [List.getElem?_cons_zero, Option.some.injEq] at pending
      subst pending
      exact ⟨⟨finishing, by rw [inside]⟩, rfl, fun other same => by simp [same]⟩
    | succ n => simp at pending
  | free | queued | serving => simp [Turn.pending] at inside

/-- Every step of the tasks is a step of the turnstile, or none at all. -/
theorem step_refines {action : CoinTasks.Action} (refines : Refines address s turn)
    (took : step address macAddress s action = some next) :
    ∃ after, run Turnstile.step turn (happening s action).toList = some after ∧ Refines address next after := by
  obtain ⟨active, claims, starts, stage, slot, posting⟩ := refines
  have frame := @refines_frame address s next turn ⟨active, claims, starts, stage, slot, posting⟩
  cases step_cases took with
  | pulse => exact ⟨turn, rfl, frame rfl rfl rfl rfl rfl fun _ => .inl⟩
  | receivePulse | diverted | inside | outside | suppressed => exact ⟨turn, rfl, frame rfl rfl rfl rfl rfl nofun⟩
  | rejected =>
    exact ⟨turn, rfl, frame rfl rfl rfl rfl rfl fun _ here => .inr (afterReject_posting here)⟩
  | accepted =>
    refine ⟨turn, rfl, frame rfl rfl rfl rfl rfl fun event here => .inr ?_⟩
    simp only [PulseTask.posting.injEq] at here
    exact here ▸ rfl
  | posted here =>
    refine ⟨turn, rfl, frame rfl rfl ?_ rfl rfl nofun⟩
    rw [queuedStarts_append, posting _ here, Option.toList_none, List.append_nil]
  | dropped => exact ⟨turn, rfl, frame rfl rfl rfl rfl rfl nofun⟩
  | taken _ _ busy => exact ⟨turn, by simp [happening, busy], frame rfl rfl rfl rfl rfl fun _ => .inl⟩
  | won socketFd clientIp inactive =>
    rw [inactive] at active
    cases turn with
    | free finishing =>
      refine ⟨.claimed (claimant clientIp) finishing, by simp [happening, inactive, run, Turnstile.step], ?_⟩
      simp only [Turn.pending, List.map_eq_nil_iff] at claims
      exact ⟨rfl, by simp [claims, Turn.pending], starts, by cases finishing <;> exact stage, slot, posting⟩
    | claimed | queued | serving => cases active
  | @started call claim pending fresh room =>
    obtain ⟨⟨finishing, rfl⟩, alone, -⟩ := sole_claim claims pending
    refine ⟨.queued (claimant claim.clientIp) finishing, by simp [happening, room, pending, run, Turnstile.step], ?_⟩
    refine ⟨active, by simp [alone, Turn.pending], ?_, by cases finishing <;> exact stage, slot, posting⟩
    rw [queuedStarts_append, starts]
    rfl
  | refused pending fresh full =>
    refine ⟨turn, by simp [happening, full], frame rfl ?_ rfl rfl rfl fun _ => .inl⟩
    exact (sole_claim claims pending).2.2 _ rfl
  | rolledBack pending refused =>
    obtain ⟨⟨finishing, rfl⟩, alone, -⟩ := sole_claim claims pending
    refine ⟨.free finishing, by simp [happening, run, Turnstile.step], ?_⟩
    exact ⟨rfl, by simp [alone, Turn.pending], starts, by cases finishing <;> exact stage, slot, posting⟩
  | loaded | unswapped => exact ⟨turn, rfl, frame rfl rfl rfl rfl rfl fun _ => .inl⟩
  | swapped calling own unchanged =>
    exact ⟨turn, rfl, frame rfl rfl rfl rfl (by rw [unchanged, own]) fun _ => .inl⟩
  | @opened socketFd clientIp rest _ free queued =>
    rw [queued] at starts
    rw [free] at stage
    rcases turn with _ | _ | ⟨holder, _ | _⟩ | _ <;>
      simp only [queuedStarts, List.filterMap_cons, startIp, Turn.waiting, List.cons.injEq, reduceCtorEq] at starts
    · obtain ⟨rfl, nothingElse⟩ := starts
      refine ⟨.serving clientIp, by simp [happening, free, queued, run, Turnstile.step], ?_⟩
      exact ⟨active, claims, nothingElse, rfl, rfl, posting⟩
    · simp [taskStage, turnStage] at stage
  | @stray event rest _ free queued other =>
    have passed := startIp_stray other
    refine ⟨turn, ?_, frame rfl rfl (by simp [queued, queuedStarts, passed]) rfl rfl fun _ => .inl⟩
    cases event with
    | start socketFd clientIp => exact absurd rfl (other socketFd clientIp)
    | coin | fraudEnd => simp [happening, free, queued]
  | counted counting queued =>
    refine ⟨turn, by simp [happening, counting], frame rfl rfl ?_ (by rw [counting]; rfl) rfl fun _ => .inl⟩
    rw [queued]
    rfl
  | aborted counting queued =>
    refine ⟨turn, by simp [happening, counting], frame rfl rfl ?_ (by rw [counting]; rfl) rfl fun _ => .inl⟩
    rw [queued]
    rfl
  | restarted counting queued =>
    rw [counting] at stage
    rw [queued] at starts
    rcases turn with ⟨_ | _⟩ | ⟨_, _ | _⟩ | ⟨_, _ | _⟩ | _ <;>
      simp only [taskStage, turnStage, reduceCtorEq] at stage
    simp [queuedStarts, startIp, Turn.waiting] at starts
  | timedOut counting drained =>
    exact ⟨turn, rfl, frame rfl rfl rfl (by rw [counting]; rfl) rfl fun _ => .inl⟩
  | cleared closing =>
    rw [closing] at stage
    rcases turn with ⟨_ | _⟩ | ⟨_, _ | _⟩ | ⟨_, _ | _⟩ | _ <;>
      simp only [taskStage, turnStage, reduceCtorEq] at stage
    refine ⟨.free _, by simp [happening, run, Turnstile.step]; rfl, ?_⟩
    exact ⟨rfl, claims, starts, rfl, slot, posting⟩
  | began finalizing =>
    exact ⟨turn, rfl, frame rfl rfl rfl (by rw [finalizing]; rfl) rfl fun _ => .inl⟩
  | finalized granting =>
    rw [granting] at stage
    rcases turn with ⟨_ | client⟩ | ⟨holder, _ | client⟩ | ⟨holder, _ | client⟩ | _ <;>
      simp only [taskStage, turnStage, reduceCtorEq] at stage
    · exact ⟨.free none, rfl, active, claims, starts, rfl, rfl, posting⟩
    · exact ⟨.claimed holder none, rfl, active, claims, starts, rfl, rfl, posting⟩
    · exact ⟨.queued holder none, rfl, active, claims, starts, rfl, rfl, posting⟩

/-! ## The holder of the slot -/

/-- The slot is in a state of the turnstile. -/
def Held (address : IPAddress) (s : Tasks) : Prop := ∃ turn, Refines address s turn

theorem held_initial : Held address initial := ⟨_, refines_initial⟩

theorem held_step {action : CoinTasks.Action} (held : Held address s)
    (took : step address macAddress s action = some next) : Held address next := by
  obtain ⟨turn, refines⟩ := held
  obtain ⟨after, -, refinesAfter⟩ := step_refines refines took
  exact ⟨after, refinesAfter⟩

/-- The flag is set for one claim, one queued START or one open window. -/
theorem held_once (held : Held address s) :
    s.claims.length + (queuedStarts s.coinSessionQueue).length +
      (if taskStage s.sessionTask = .inWindow then 1 else 0) = s.coinInsertActive.toNat := by
  obtain ⟨turn, refines⟩ := held
  have claims : s.claims.length = turn.pending.length := by rw [← refines.claims, List.length_map]
  rw [claims, refines.starts, refines.stage, refines.active]
  rcases turn with ⟨_ | _⟩ | ⟨_, _ | _⟩ | ⟨_, _ | _⟩ | _ <;> rfl

theorem held_inactive (held : Held address s) (inactive : s.coinInsertActive = false) :
    s.claims = [] ∧ queuedStarts s.coinSessionQueue = [] ∧ taskStage s.sessionTask ≠ .inWindow := by
  have once := held_once held
  rw [inactive, Bool.toNat_false] at once
  refine ⟨List.eq_nil_of_length_eq_zero (by omega), List.eq_nil_of_length_eq_zero (by omega), fun inWindow => ?_⟩
  simp [inWindow] at once

theorem held_started {socketFd : Int} {clientIp : String} {rest : List CoinSessionEvent} (held : Held address s)
    (queued : s.coinSessionQueue = .start socketFd clientIp :: rest) : s.coinInsertActive = true := by
  by_contra inactive
  obtain ⟨-, noStart, -⟩ := held_inactive held (by simpa using inactive)
  simp [queued, queuedStarts, startIp] at noStart

theorem held_claimed {call : Nat} {claim : Claim} (held : Held address s) (pending : s.claims[call]? = some claim) :
    queuedStarts s.coinSessionQueue = [] ∧ taskStage s.sessionTask ≠ .inWindow := by
  have once := held_once held
  have some : 0 < s.claims.length := List.length_pos_of_mem (List.mem_of_getElem? pending)
  have := s.coinInsertActive.toNat_le
  refine ⟨List.eq_nil_of_length_eq_zero (by omega), fun inWindow => ?_⟩
  simp only [inWindow, if_true] at once
  omega

theorem held_window (held : Held address s) (inWindow : taskStage s.sessionTask = .inWindow) :
    s.coinInsertActive = true ∧ queuedStarts s.coinSessionQueue = [] := by
  have once := held_once held
  have := s.coinInsertActive.toNat_le
  simp only [inWindow, if_true] at once
  exact ⟨Bool.toNat_eq_one.mp (by omega), List.eq_nil_of_length_eq_zero (by omega)⟩

theorem not_counting {task : SessionTask} (noWindow : taskStage task ≠ .inWindow) : ∀ nodes, task ≠ .counting nodes :=
  fun _ counting => noWindow (by rw [counting]; rfl)

theorem ahead_append (task : SessionTask) (queue : List CoinSessionEvent) (event : CoinSessionEvent) :
    ahead task (queue ++ [event]) ⊆ ahead task queue ++ [event] := by
  unfold ahead
  split
  · exact List.Subset.refl _
  · rw [List.dropWhile_append]
    split
    · exact List.Subset.trans (List.dropWhile_sublist _).subset (List.subset_append_right _ _)
    · exact List.Subset.refl _

theorem ahead_open {task : SessionTask} {queue : List CoinSessionEvent}
    (reached : (∃ nodes, task = .counting nodes) ∨ queuedStarts queue ≠ []) (events : List CoinSessionEvent) :
    ahead task (queue ++ events) = ahead task queue ++ events := by
  unfold ahead
  split
  · rfl
  · next closed =>
    have started : queuedStarts queue ≠ [] := reached.resolve_left fun ⟨nodes, counting⟩ => closed nodes counting
    rw [List.dropWhile_append]
    split
    · next none =>
      have quiet := List.dropWhile_eq_nil_iff.mp (List.isEmpty_iff.mp none)
      exact absurd (List.filterMap_eq_nil_iff.mpr fun event inside => by simpa using quiet event inside) started
    · rfl

/-- While no session is open or queued nobody waits for an event. -/
theorem ahead_quiet {task : SessionTask} {queue events : List CoinSessionEvent} (noStart : queuedStarts queue = [])
    (closed : ∀ nodes, task ≠ .counting nodes) (noStarts : ∀ event ∈ events, startIp event = none) :
    ahead task (queue ++ events) = [] := by
  have quiet : ∀ event ∈ queue ++ events, startIp event = none :=
    List.forall_mem_append.mpr ⟨List.filterMap_eq_nil_iff.mp noStart, noStarts⟩
  unfold ahead
  split
  · exact absurd rfl (closed _)
  · exact List.dropWhile_eq_nil_iff.mpr (by simpa using quiet)

theorem ahead_nil {task : SessionTask} {queue : List CoinSessionEvent} (noStart : queuedStarts queue = [])
    (closed : ∀ nodes, task ≠ .counting nodes) : ahead task queue = [] := by
  simpa using ahead_quiet noStart closed (List.forall_mem_nil _)

/-! ## Runs -/

/-- The machine beside the log of what its steps mean for the turn. -/
def logged (address : IPAddress) (macAddress : String) :
    Tasks × List (Event String) → CoinTasks.Action → Option (Tasks × List (Event String)) :=
  watch (step address macAddress) fun s action log => log ++ (happening s action).toList

theorem logged_refines {actions : List CoinTasks.Action} {log : List (Event String)}
    (ran : run (logged address macAddress) (initial, []) actions = some (s, log)) :
    ∃ turn, run Turnstile.step (.free none) log = some turn ∧ Refines address s turn := by
  refine @run_keeps _ _ _
    (fun here => ∃ turn, run Turnstile.step (.free none) here.2 = some turn ∧ Refines address here.1 turn)
    ?_ _ _ actions ⟨.free none, rfl, refines_initial⟩ ran
  rintro ⟨s, log⟩ action ⟨next, longer⟩ ⟨turn, reached, refines⟩ took
  obtain ⟨moved, rfl⟩ := watch_some.mp took
  obtain ⟨after, follows, refinesAfter⟩ := step_refines refines moved
  exact ⟨after, by simp [run_append, reached, follows], refinesAfter⟩

theorem winner_claims {action : CoinTasks.Action} {clientIp : String}
    (inside : clientIp ∈ winners (happening s action).toList) :
    ∃ bootTestRunning socketFd text, action = .tryClaim bootTestRunning socketFd text ∧ clientIp = claimant text := by
  cases action with
  | tryClaim bootTestRunning socketFd text =>
    simp only [happening] at inside
    split at inside
    · cases inside
    · exact ⟨bootTestRunning, socketFd, text, rfl, List.mem_singleton.mp inside⟩
  | postStart call =>
    simp only [happening] at inside
    split at inside
    · cases pending : s.claims[call]? <;> simp [pending, winners] at inside
    · cases inside
  | receiveEvent millis =>
    simp only [happening] at inside
    split at inside <;> cases inside
  | _ => cases inside

theorem winners_nonzero {actions : List CoinTasks.Action} {log : List (Event String)}
    (clients : ∀ action ∈ actions, FromClients address action)
    (ran : run (logged address macAddress) (initial, []) actions = some (s, log)) :
    ∀ clientIp ∈ winners log, coinIpToU32 address clientIp ≠ 0 := by
  refine @throughout_keeps _ _ _ (fun here => ∀ clientIp ∈ winners here.2, coinIpToU32 address clientIp ≠ 0) _
    ?_ _ _ actions (List.forall_mem_nil _) (throughout_all clients) ran
  rintro ⟨s, log⟩ action ⟨next, longer⟩ nonzero client took
  obtain ⟨moved, rfl⟩ := watch_some.mp took
  have split : winners (log ++ (happening s action).toList) = winners log ++ winners (happening s action).toList :=
    List.filterMap_append
  have here : ∀ clientIp ∈ winners (happening s action).toList, coinIpToU32 address clientIp ≠ 0 := by
    intro clientIp inside
    obtain ⟨_, _, _, rfl, rfl⟩ := winner_claims inside
    exact client
  rw [split]
  exact List.forall_mem_append.mpr ⟨nonzero, here⟩

/-- Steps of the task that owns the session. -/
def OfSessionTask : CoinTasks.Action → Prop
  | .receiveEvent _ | .timeout | .clearActive | .beginFinalize | .endFinalize => True
  | _ => False

/-- How many steps of its own the session task is from an empty queue, at most. -/
def remaining (s : Tasks) : Nat :=
  5 * s.coinSessionQueue.length +
    match s.sessionTask with
    | .receiving => 0
    | .granting .. => 1
    | .finalizing .. => 2
    | .closing .. => 3
    | .counting _ => 4

theorem session_progress (address : IPAddress) (macAddress : String) {s : Tasks}
    (busy : ¬ (s.sessionTask = .receiving ∧ s.coinSessionQueue = [])) :
    ∃ action next, OfSessionTask action ∧ step address macAddress s action = some next ∧ remaining next < remaining s := by
  cases doing : s.sessionTask with
  | receiving =>
    cases queued : s.coinSessionQueue with
    | nil => exact absurd ⟨doing, queued⟩ busy
    | cons event rest =>
      refine ⟨.receiveEvent 0, ?_⟩
      cases event <;>
        exact ⟨_, trivial, by simp only [step, receiveEvent, doing, queued]; rfl,
          by simp only [remaining, doing, queued, List.length_cons]; omega⟩
  | counting nodes =>
    cases queued : s.coinSessionQueue with
    | nil =>
      refine ⟨.timeout, _, trivial, by simp only [step, doing, queued]; rfl, ?_⟩
      simp [remaining, doing]
    | cons event rest =>
      refine ⟨.receiveEvent 0, ?_⟩
      cases event <;>
        exact ⟨_, trivial, by simp only [step, receiveEvent, doing, queued]; rfl,
          by simp only [remaining, doing, queued, List.length_cons]; omega⟩
  | closing =>
    refine ⟨.clearActive, _, trivial, by simp only [step, doing]; rfl, ?_⟩
    simp [remaining, doing]
  | finalizing =>
    refine ⟨.beginFinalize, _, trivial, by simp only [step, doing]; rfl, ?_⟩
    simp [remaining, doing]
  | granting =>
    refine ⟨.endFinalize, _, trivial, by simp only [step, doing]; rfl, ?_⟩
    simp [remaining, doing]

/-- Left to itself, the session task serves and finalizes all that is queued. -/
theorem session_drains (address : IPAddress) (macAddress : String) (s : Tasks) (log : List (Event String)) :
    ∃ actions done, (∀ action ∈ actions, OfSessionTask action) ∧
      run (logged address macAddress) (s, log) actions = some done ∧
      done.1.sessionTask = .receiving ∧ done.1.coinSessionQueue = [] := by
  induction left : remaining s using Nat.strong_induction_on generalizing s log with
  | _ n ih =>
    by_cases idle : s.sessionTask = .receiving ∧ s.coinSessionQueue = []
    · exact ⟨[], (s, log), nofun, rfl, idle⟩
    · obtain ⟨action, next, own, took, less⟩ := session_progress address macAddress idle
      obtain ⟨rest, done, ownRest, ran, drained⟩ :=
        ih (remaining next) (left ▸ less) next (log ++ (happening s action).toList) rfl
      refine ⟨action :: rest, done, List.forall_mem_cons.mpr ⟨own, ownRest⟩, ?_, drained⟩
      exact run_cons.mpr ⟨_, watch_of_step _ log took, ran⟩

theorem session_posts {actions : List CoinTasks.Action} {log longer : List (Event String)}
    (own : ∀ action ∈ actions, OfSessionTask action)
    (ran : run (logged address macAddress) (s, log) actions = some (next, longer)) : posts longer = posts log := by
  refine @throughout_keeps _ _ _ (fun here => posts here.2 = posts log) _ ?_ _ _ actions rfl (throughout_all own) ran
  rintro ⟨s, before⟩ action ⟨next, after⟩ same ownAction took
  obtain ⟨-, rfl⟩ := watch_some.mp took
  have quiet : posts (happening s action).toList = [] := by
    cases action with
    | receiveEvent millis => simp only [happening]; split <;> rfl
    | timeout | clearActive | beginFinalize | endFinalize => rfl
    | _ => cases ownAction
  calc posts (before ++ (happening s action).toList)
      = posts before ++ posts (happening s action).toList := List.filterMap_append
    _ = posts log := by rw [quiet, List.append_nil]; exact same

/-! ## The life of a claim -/

/-- What holds of the slot and of its history, at every moment of a run. -/
structure Lifecycle (address : IPAddress) (macAddress : String) (s : Tasks) (log : List (Event String)) : Prop where
  /-- Every START was earned by a claim of its own, and every claim is queued, given
      back, or still being made. -/
  earned : (posts log).Sublist (winners log)
  oneStart : (winners log).length = (posts log).length + withdrawals log + s.claims.length
  /-- Whoever wins finds that every earlier winner cleared the flag or gave it back. -/
  alone : ∀ before clientIp, before ++ [.won clientIp] <+: log →
    (winners before).length = releases before + withdrawals before
  inOrder : posts log = begins log ++ queuedStarts s.coinSessionQueue
  oneFinalize : (begins log).length = finishes log + (if taskStage s.sessionTask = .idle then 0 else 1)
  allFinalized : ∃ actions done, (∀ action ∈ actions, OfSessionTask action) ∧
    run (logged address macAddress) (s, log) actions = some done ∧
    posts done.2 = posts log ∧ begins done.2 = posts log ∧ finishes done.2 = (posts log).length
  undisturbed : taskStage s.sessionTask = .inWindow → queuedStarts s.coinSessionQueue = []
  ownSlot : taskStage s.sessionTask ≠ .idle → ∃ clientIp, (begins log).getLast? = some clientIp ∧
    s.coinSessionSlot.clientIpV4 = coinIpToU32 address clientIp ∧ s.coinSessionSlot.clientIpV4 ≠ 0
  noSlot : taskStage s.sessionTask = .idle → s.coinSessionSlot.clientIpV4 = 0

theorem stage_current (refines : Refines address s turn) :
    (taskStage s.sessionTask = .idle ∧ turn.current = none) ∨
      (taskStage s.sessionTask ≠ .idle ∧ ∃ clientIp, turn.current = some clientIp) := by
  rw [refines.stage]
  rcases turn with ⟨_ | _⟩ | ⟨_, _ | _⟩ | ⟨_, _ | _⟩ | _ <;> simp [turnStage, Turn.current]

theorem refines_window (refines : Refines address s turn) (inWindow : taskStage s.sessionTask = .inWindow) :
    turn.waiting = [] := by
  rw [refines.stage] at inWindow
  rcases turn with ⟨_ | _⟩ | ⟨_, _ | _⟩ | ⟨_, _ | _⟩ | _ <;> simp [turnStage, Turn.waiting] at inWindow ⊢

/-- In every run, each claim of the coin slot gets one START at most and each START
    one `finalizeSession`, in order and alone, and the slot holds the address of
    the client being served, and only then. -/
theorem coin_slot_lifecycle {actions : List CoinTasks.Action} {log : List (Event String)}
    (clients : ∀ action ∈ actions, FromClients address action)
    (ran : run (logged address macAddress) (initial, []) actions = some (s, log)) :
    Lifecycle address macAddress s log := by
  obtain ⟨turn, reached, refines⟩ := logged_refines ran
  have accounted := run_accounted reached
  have earned := (List.sublist_append_left _ _).trans accounted.earned
  refine
    { earned
      oneStart := ?_
      alone := fun before clientIp soFar => exclusive reached soFar
      inOrder := refines.starts ▸ accounted.queued
      oneFinalize := ?_
      allFinalized := ?_
      undisturbed := fun inWindow => refines.starts.trans (refines_window refines inWindow)
      ownSlot := ?_
      noSlot := ?_ }
  · rw [accounted.claimed, ← refines.claims, List.length_map]
  · rw [accounted.served]
    rcases stage_current refines with ⟨idle, nobody⟩ | ⟨busy, clientIp, somebody⟩
    · simp [idle, nobody]
    · simp [busy, somebody]
  · obtain ⟨rest, ⟨done, longer⟩, own, ranOn, idle, empty⟩ := session_drains address macAddress s log
    have same := session_posts own ranOn
    have whole : run (logged address macAddress) (initial, []) (actions ++ rest) = some (done, longer) := by
      simp [run_append, ran, ranOn]
    obtain ⟨turnAfter, reachedAfter, refinesAfter⟩ := logged_refines whole
    have after := run_accounted reachedAfter
    have served : begins longer = posts log := by
      have order := after.queued
      rw [← refinesAfter.starts, empty, same] at order
      simpa [queuedStarts] using order.symm
    refine ⟨rest, (done, longer), own, ranOn, same, served, ?_⟩
    have counted := after.served
    rcases stage_current refinesAfter with ⟨-, nobody⟩ | ⟨busy, -⟩
    · simpa [nobody, served] using counted.symm
    · exact absurd (by rw [idle]; rfl) busy
  · intro busy
    rcases stage_current refines with ⟨idle, -⟩ | ⟨-, clientIp, somebody⟩
    · exact absurd idle busy
    · have slot : s.coinSessionSlot.clientIpV4 = coinIpToU32 address clientIp := by simp [refines.slot, somebody]
      have last := accounted.last clientIp somebody
      have begun : clientIp ∈ posts log := accounted.queued ▸ List.mem_append_left _ (List.mem_of_getLast? last)
      have nonzero := winners_nonzero clients ran clientIp (earned.subset begun)
      exact ⟨clientIp, last, slot, slot ▸ nonzero⟩
  · intro idle
    rcases stage_current refines with ⟨-, nobody⟩ | ⟨busy, -⟩
    · simp [refines.slot, nobody]
    · exact absurd idle busy

end

/-- Two phones race; the second wins once the first one's window has closed. -/
def twoPhones : List CoinTasks.Action :=
  [.tryClaim false 7 "10.0.0.5", .tryClaim false 8 "10.0.0.6", .postStart 0, .receiveEvent 100,
    .loadSlot "10.0.0.5" 9, .timeout, .clearActive, .tryClaim false 8 "10.0.0.6", .swapSlot 0 false, .postStart 0,
    .beginFinalize, .endFinalize, .receiveEvent 20000]

theorem coin_slot_two_phones : ∃ s log,
    run (logged dottedQuad "AA") (initial, []) twoPhones = some (s, log) ∧ posts log = ["10.0.0.5", "10.0.0.6"] ∧
      Lifecycle dottedQuad "AA" s log := by
  have clients : ∀ action ∈ twoPhones, FromClients dottedQuad action := by
    simp only [twoPhones, List.forall_mem_cons, FromClients]
    refine ⟨by decide, by decide, trivial, trivial, trivial, trivial, trivial, by decide, trivial, trivial, trivial, trivial, trivial, nofun⟩
  have ran : (run (logged dottedQuad "AA") (initial, []) twoPhones).map (fun done => posts done.2) =
      some ["10.0.0.5", "10.0.0.6"] := by decide +kernel
  obtain ⟨⟨s, log⟩, reached, posted⟩ := Option.map_eq_some_iff.mp ran
  exact ⟨s, log, reached, posted, coin_slot_lifecycle clients reached⟩

end EllaFi.CoinSlot
