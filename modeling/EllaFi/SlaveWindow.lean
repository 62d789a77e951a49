import EllaFi.CoinSlot
import EllaFi.Network
import EllaFi.Runs

/-!
The coin window of a slave. The master broadcasts START and END around its session,
and any of these may be lost, repeated, reordered or late. A slave takes what is fresh
and has no timer of its own. No START opens it later than the freshness window after
the session (`deliver_shown`), but an END that is lost or overtaken leaves it open
without a bound. Its window stays within the master's as long as it takes an END for every
START, in time, and no START after the END that answers it (`slave_window`).
-/
namespace EllaFi.SlaveWindow
open EllaFi.Session EllaFi.CoinTasks EllaFi.Network
open EllaFi.CoinSlot (taskStage)
open EllaFi.Runs (run Always Throughout throughout_always)

/-! ## A master and a slave -/

/-- From the START until the slot is given up. -/
def Open (master : Tasks) : Prop := taskStage master.sessionTask = .inWindow

instance (master : Tasks) : Decidable (Open master) := inferInstanceAs (Decidable (_ = _))

def netSend (type : NetMsgType) (now : Nat) : Datagram := { tagged := true, type := some type, ts := now, body := [] }

/-- What a step of the master broadcasts: START as a session opens, and END before its
    coins are granted. -/
def broadcasts (now : Nat) (before after : Tasks) : List Datagram :=
  match before.sessionTask, after.sessionTask with
  | .receiving, .counting _ => [netSend .sessionStart now]
  | .finalizing .., .granting .. => [netSend .sessionEnd now]
  | _, _ => []

structure Pair where
  /-- Milliseconds of Unix time. -/
  now : Nat
  master : Tasks
  /-- When the last session ended. -/
  ended : Option Nat
  /-- Every START and END so far. -/
  sent : List Datagram
  /-- The slave's `COIN_INSERT_ACTIVE`. -/
  active : Bool
  /-- The messages of a session that the slave has acted on since it booted. -/
  took : List Datagram

def bothBooted (now : Nat) : Pair :=
  { now, master := initial, ended := none, sent := [], active := false, took := [] }

inductive Action where
  | elapse (ms : Nat)
  | master (action : CoinTasks.Action)
  | masterReboot
  | deliver (datagram : Datagram)
  | slaveReboot

/-- Only what the master sent has a good tag. -/
def Authentic (sent : List Datagram) (datagram : Datagram) : Prop :=
  datagram.tagged → datagram.type = some .sessionStart ∨ datagram.type = some .sessionEnd → datagram ∈ sent

instance (sent : List Datagram) (datagram : Datagram) : Decidable (Authentic sent datagram) :=
  inferInstanceAs (Decidable (_ → _ → _))

/-- The messages on which the slave has acted after one more was received. -/
def slaveTook (received : Received) (datagram : Datagram) (took : List Datagram) : List Datagram :=
  match received with
  | .sessionStart | .sessionEnd => took ++ [datagram]
  | .reboot => []
  | _ => took

/-- `slaveRecvCoinInsertStart`, `slaveRecvCoinInsertEnd`, or a restart. -/
def slaveActs (received : Received) (active : Bool) : Bool :=
  match received with
  | .sessionStart => true
  | .sessionEnd | .reboot => false
  | _ => active

/-- The session's end, if a step is the end of it. -/
def endOf (now : Nat) (before after : Tasks) (ended : Option Nat) : Option Nat :=
  if Open before ∧ ¬ Open after then some now else ended

section
variable (address : IPAddress) (macAddress : String)

def step (s : Pair) : Action → Option Pair
  | .elapse ms => some { s with now := s.now + ms }
  | .master action =>
    (CoinTasks.step address macAddress s.master action).map fun after =>
      { s with
        master := after
        ended := endOf s.now s.master after s.ended
        sent := s.sent ++ broadcasts s.now s.master after }
  | .masterReboot => some { s with master := initial, ended := endOf s.now s.master initial s.ended }
  | .deliver datagram =>
    let received := (networkLoop false s.now emptySeen datagram).1
    if Authentic s.sent datagram then
      some { s with active := slaveActs received s.active, took := slaveTook received datagram s.took }
    else none
  | .slaveReboot => some { s with active := false, took := [] }

end

/-! ## The bound -/

def windowTailMs : Nat := coinInsertTimeoutMillis.toNat + netFreshWindowMs

/-- The session is open, or ended not long ago. -/
def Within (master : Tasks) (ended : Option Nat) (now : Nat) : Prop := Open master ∨ ∃ e, ended = some e ∧ now ≤ e + windowTailMs

def Bounded (s : Pair) : Prop := s.active = true → Within s.master s.ended s.now

/-- Every START that the slave took has an END that was sent since, and that it took too. -/
def Answered (took : List Datagram) : Prop :=
  ∀ start ∈ took, start.type = some .sessionStart →
    ∃ answer ∈ took, answer.type = some .sessionEnd ∧ start.ts ≤ answer.ts

/-- No END that was sent since is taken before the START. -/
def NotOvertaken (took : List Datagram) (start : Datagram) : Prop :=
  ∀ answer ∈ took, answer.type = some .sessionEnd → answer.ts < start.ts

/-- No END is lost: when a session has been over for the insertion timeout and the freshness
    window, what the slave took of it and of those before is answered. And no START comes late
    or again: none is taken after an END that was sent since. -/
def EndsHeard (s : Pair) : Action → Prop
  | .elapse ms => Within s.master s.ended (s.now + ms) ∨ Answered s.took
  | .deliver datagram =>
    datagram.tagged → Fresh s.now datagram.ts → datagram.type = some .sessionStart → NotOvertaken s.took datagram
  | _ => True

instance (took : List Datagram) : Decidable (Answered took) :=
  inferInstanceAs (Decidable (∀ start ∈ took, _ → ∃ answer ∈ took, _ ∧ _))

instance (took : List Datagram) (start : Datagram) : Decidable (NotOvertaken took start) :=
  inferInstanceAs (Decidable (∀ answer ∈ took, _ → _))

instance (master : Tasks) (ended : Option Nat) (now : Nat) : Decidable (Within master ended now) :=
  decidable_of_iff (Open master ∨ ended.any (now ≤ · + windowTailMs)) <| by
    cases ended <;> simp [Within]

instance (s : Pair) (action : Action) : Decidable (EndsHeard s action) :=
  match action with
  | .elapse _ => inferInstanceAs (Decidable (_ ∨ _))
  | .deliver _ => inferInstanceAs (Decidable (_ → _ → _ → _))
  | .master _ | .masterReboot | .slaveReboot => .isTrue trivial

/-- Every START was sent before the end of the session or is of an open one, the slave is
    active when it took one last, and no START was taken after an END that was sent since. -/
structure Linked (s : Pair) : Prop where
  starts : ∀ datagram ∈ s.sent, datagram.type = some .sessionStart →
    Open s.master ∨ ∃ e, s.ended = some e ∧ datagram.ts ≤ e
  past : ∀ datagram ∈ s.sent, datagram.ts ≤ s.now
  lastTook : s.active = true → ∃ start, s.took.getLast? = some start ∧ start.type = some .sessionStart
  ordered : s.took.Pairwise fun earlier later =>
    earlier.type = some .sessionEnd → later.type = some .sessionStart → earlier.ts < later.ts

section
variable {address : IPAddress} {macAddress : String} {s next : Pair} {now ms : Nat} {before after : Tasks}
  {ended : Option Nat} {datagram : Datagram}

theorem broadcasts_start (inside : datagram ∈ broadcasts now before after) (start : datagram.type = some .sessionStart) :
    Open after := by
  unfold broadcasts at inside
  split at inside
  · next counting =>
    rw [Open, counting]
    rfl
  · rw [List.mem_singleton.mp inside] at start
    cases start
  · exact absurd inside List.not_mem_nil

theorem broadcasts_ts (inside : datagram ∈ broadcasts now before after) : datagram.ts = now := by
  unfold broadcasts at inside
  split at inside
  · rw [List.mem_singleton.mp inside, netSend]
  · rw [List.mem_singleton.mp inside, netSend]
  · exact absurd inside List.not_mem_nil

/-- The end of a session is not before anything that was in it or before an earlier end. -/
theorem endOf_covers {ts : Nat} (past : ts ≤ now) (covered : Open before ∨ ∃ e, ended = some e ∧ ts ≤ e) :
    Open after ∨ ∃ e, endOf now before after ended = some e ∧ ts ≤ e := by
  by_cases isOpen : Open after
  · exact .inl isOpen
  · refine .inr ?_
    unfold endOf
    by_cases wasOpen : Open before
    · exact ⟨now, if_pos ⟨wasOpen, isOpen⟩, past⟩
    · obtain ⟨e, known, soon⟩ := covered.resolve_left wasOpen
      exact ⟨e, by rw [if_neg fun both => wasOpen both.1, known], soon⟩

theorem within_endOf (within : Within before ended now) : Within after (endOf now before after ended) now := by
  by_cases isOpen : Open after
  · exact .inl isOpen
  · refine .inr ?_
    unfold endOf
    by_cases wasOpen : Open before
    · exact ⟨now, if_pos ⟨wasOpen, isOpen⟩, Nat.le_add_right _ _⟩
    · obtain ⟨e, known, soon⟩ := within.resolve_left wasOpen
      exact ⟨e, by rw [if_neg fun both => wasOpen both.1, known], soon⟩

/-- A slave takes a START only from a fresh datagram of that type. -/
theorem networkLoop_start (took : (networkLoop false now emptySeen datagram).1 = .sessionStart) :
    datagram.tagged ∧ Fresh now datagram.ts ∧ datagram.type = some .sessionStart := by
  by_cases tagged : datagram.tagged
  · by_cases fresh : Fresh now datagram.ts
    · refine ⟨tagged, fresh, ?_⟩
      simp only [networkLoop, tagged, fresh, not_true, if_false] at took
      split at took
      · simp at took
      · simp only [Bool.false_eq_true, false_or] at took
        split at took <;> cases took
      · simp at took
      · simp only [Bool.false_eq_true, if_false] at took
        unfold slaveReceives at took
        split at took
        · assumption
        · cases took
        · cases took
        · cases took
    · simp [networkLoop, tagged, fresh] at took
  · simp [networkLoop, tagged] at took

theorem networkLoop_end (took : (networkLoop false now emptySeen datagram).1 = .sessionEnd) :
    datagram.type = some .sessionEnd := by
  by_cases tagged : datagram.tagged
  · by_cases fresh : Fresh now datagram.ts
    · simp only [networkLoop, tagged, fresh, not_true, if_false] at took
      split at took
      · simp at took
      · simp only [Bool.false_eq_true, false_or] at took
        split at took <;> cases took
      · simp at took
      · simp only [Bool.false_eq_true, if_false] at took
        unfold slaveReceives at took
        split at took
        · cases took
        · assumption
        · cases took
        · cases took
    · simp [networkLoop, tagged, fresh] at took
  · simp [networkLoop, tagged] at took

/-- A message leaves the slave active only after a START, and then that is what it took last. -/
theorem deliver_lastTook {active : Bool} {took : List Datagram}
    (lastTook : active = true → ∃ start, took.getLast? = some start ∧ start.type = some .sessionStart)
    (after : slaveActs (networkLoop false now emptySeen datagram).1 active = true) :
    ∃ start, (slaveTook (networkLoop false now emptySeen datagram).1 datagram took).getLast? = some start ∧
      start.type = some .sessionStart := by
  cases received : (networkLoop false now emptySeen datagram).1 with
  | sessionStart => exact ⟨datagram, List.getLast?_concat, (networkLoop_start received).2.2⟩
  | sessionEnd | reboot =>
    rw [received] at after
    cases after
  | _ =>
    rw [received] at after
    exact lastTook after

theorem deliver_ordered {took : List Datagram}
    (ordered : took.Pairwise fun earlier later =>
      earlier.type = some .sessionEnd → later.type = some .sessionStart → earlier.ts < later.ts)
    (allowed : datagram.tagged → Fresh now datagram.ts → datagram.type = some .sessionStart → NotOvertaken took datagram) :
    (slaveTook (networkLoop false now emptySeen datagram).1 datagram took).Pairwise fun earlier later =>
      earlier.type = some .sessionEnd → later.type = some .sessionStart → earlier.ts < later.ts := by
  cases received : (networkLoop false now emptySeen datagram).1 with
  | sessionStart =>
    obtain ⟨tagged, fresh, start⟩ := networkLoop_start received
    refine List.pairwise_append.mpr ⟨ordered, List.pairwise_singleton _ _, ?_⟩
    rintro answer inside later (_ | ⟨_, ⟨⟩⟩) isEnd -
    exact allowed tagged fresh start answer inside isEnd
  | sessionEnd =>
    refine List.pairwise_append.mpr ⟨ordered, List.pairwise_singleton _ _, ?_⟩
    rintro answer - later (_ | ⟨_, ⟨⟩⟩) - isStart
    rw [networkLoop_end received] at isStart
    cases isStart
  | reboot => exact List.Pairwise.nil
  | _ => exact ordered

/-- A slave that has an answer for every START did not take one last. -/
theorem answered_last {took : List Datagram} {start : Datagram} (answered : Answered took)
    (ordered : took.Pairwise fun earlier later =>
      earlier.type = some .sessionEnd → later.type = some .sessionStart → earlier.ts < later.ts)
    (last : took.getLast? = some start) : start.type ≠ some .sessionStart := by
  intro isStart
  obtain ⟨before, rfl⟩ := List.getLast?_eq_some_iff.mp last
  obtain ⟨answer, inside, isEnd, since⟩ := answered start (List.mem_append_right _ (List.mem_singleton_self _)) isStart
  rcases List.mem_append.mp inside with earlier | same
  · have order := (List.pairwise_append.mp ordered).2.2 answer earlier start (List.mem_singleton_self _) isEnd isStart
    omega
  · rw [List.mem_singleton.mp same, isStart] at isEnd
    cases isEnd

theorem slaveActs_active {received : Received} {active : Bool} (after : slaveActs received active = true) :
    received = .sessionStart ∨ active = true := by
  cases received with
  | sessionStart => exact .inl rfl
  | sessionEnd => cases after
  | reboot => cases after
  | _ => exact .inr after

theorem step_linked {action : Action} (linked : Linked s) (allowed : EndsHeard s action)
    (taken : step address macAddress s action = some next) : Linked next := by
  cases action with
  | elapse ms =>
    cases taken
    exact { linked with past := fun datagram inside => Nat.le_trans (linked.past datagram inside) (Nat.le_add_right _ _) }
  | master action =>
    obtain ⟨after, -, rfl⟩ := Option.map_eq_some_iff.mp taken
    refine ⟨fun datagram inside start => ?_, fun datagram inside => ?_, linked.lastTook, linked.ordered⟩
    · rcases List.mem_append.mp inside with old | new
      · exact endOf_covers (linked.past datagram old) (linked.starts datagram old start)
      · exact .inl (broadcasts_start new start)
    · rcases List.mem_append.mp inside with old | new
      · exact linked.past datagram old
      · exact Nat.le_of_eq (broadcasts_ts new)
  | masterReboot =>
    cases taken
    exact { linked with
      starts := fun datagram inside start => endOf_covers (linked.past datagram inside) (linked.starts datagram inside start) }
  | deliver datagram =>
    simp only [step] at taken
    split at taken
    · cases taken
      exact { linked with
        lastTook := deliver_lastTook linked.lastTook
        ordered := deliver_ordered linked.ordered allowed }
    · cases taken
  | slaveReboot =>
    cases taken
    exact { linked with
      lastTook := nofun
      ordered := List.Pairwise.nil }

/-- A START is not fresh long after its session. -/
theorem deliver_shown (linked : Linked s) (authentic : Authentic s.sent datagram)
    (took : (networkLoop false s.now emptySeen datagram).1 = .sessionStart) : Within s.master s.ended s.now := by
  obtain ⟨tagged, fresh, start⟩ := networkLoop_start took
  rcases linked.starts datagram (authentic tagged (.inl start)) start with isOpen | ⟨e, known, sentBefore⟩
  · exact .inl isOpen
  · refine .inr ⟨e, known, ?_⟩
    unfold Fresh skew at fresh
    have tail : netFreshWindowMs ≤ windowTailMs := Nat.le_add_left _ _
    split at fresh <;> omega

theorem step_bounded {action : Action} (linked : Linked s) (bounded : Bounded s) (allowed : EndsHeard s action)
    (taken : step address macAddress s action = some next) : Bounded next := by
  cases action with
  | elapse ms =>
    cases taken
    intro active
    obtain ⟨start, last, isStart⟩ := linked.lastTook active
    exact allowed.resolve_right fun answered => answered_last answered linked.ordered last isStart
  | master action =>
    obtain ⟨after, -, rfl⟩ := Option.map_eq_some_iff.mp taken
    exact fun active => within_endOf (bounded active)
  | masterReboot =>
    cases taken
    exact fun active => within_endOf (bounded active)
  | deliver datagram =>
    simp only [step] at taken
    split at taken
    · next authentic =>
      have opens := deliver_shown linked authentic
      cases taken
      intro active
      rcases slaveActs_active active with start | before
      · exact opens start
      · exact bounded before
    · cases taken
  | slaveReboot =>
    cases taken
    intro active
    cases active

theorem bothBooted_linked (now : Nat) : Linked (bothBooted now) where
  starts _ inside := absurd inside List.not_mem_nil
  past _ inside := absurd inside List.not_mem_nil
  lastTook := nofun
  ordered := List.Pairwise.nil

/-- In every run of the master and a slave in which no END is lost for good and no START is
    taken after the END that answers it, whatever else is lost, repeated, late or out of order,
    the slave is active only while a session is open or ended within the insertion timeout and
    the freshness window. -/
theorem slave_window {now : Nat} {actions : List Action}
    (heard : Throughout (step address macAddress) EndsHeard (bothBooted now) actions) :
    Always (step address macAddress) Bounded (bothBooted now) actions := by
  have both := throughout_always
    (fun s action next (holds : Linked s ∧ Bounded s) allowed taken =>
      ⟨step_linked holds.1 allowed taken, step_bounded holds.1 holds.2 allowed taken⟩)
    ⟨bothBooted_linked now, nofun⟩ heard
  exact Runs.always_mono (fun _ holds => holds.2) both

end

/-! ## An END that is lost -/

/-- A session that times out, of which the slave hears the START. -/
def heardStart : List Action :=
  (windowStart 7 "10.0.0.5" 100).map .master ++ [.deliver (netSend .sessionStart 1700000000000), .elapse 10000] ++
    windowEnd.map .master

def endLost : List Action := heardStart ++ [.elapse 20000]

/-- The START comes twice and the END once, two seconds late. -/
def endHeard : List Action :=
  (windowStart 7 "10.0.0.5" 100).map .master ++ List.replicate 2 (.deliver (netSend .sessionStart 1700000000000)) ++
    [.elapse 10000] ++ windowEnd.map .master ++
      [.elapse 2000, .deliver (netSend .sessionEnd 1700000010000), .elapse 20000]

theorem slave_window_end_heard :
    Always (step dottedQuad "AA") Bounded (bothBooted 1700000000000) endHeard :=
  slave_window (by decide +kernel)

/-- Thirty seconds after the START the slave still takes coins. -/
theorem lost_end_leaves_open : ∃ last,
    run (step dottedQuad "AA") (bothBooted 1700000000000) endLost = some last ∧ last.active = true ∧
      ¬ Open last.master ∧ last.ended = some 1700000010000 ∧ last.now = 1700000030000 ∧ ¬ Bounded last := by
  have ran : (run (step dottedQuad "AA") (bothBooted 1700000000000) endLost).map (fun last =>
      (last.active, decide (Open last.master), last.ended, last.now)) =
        some (true, false, some 1700000010000, 1700000030000) := by decide +kernel
  obtain ⟨last, reached, shown⟩ := Option.map_eq_some_iff.mp ran
  obtain ⟨active, closed, ended, now⟩ : last.active = true ∧ decide (Open last.master) = false ∧
      last.ended = some 1700000010000 ∧ last.now = 1700000030000 := by simpa only [Prod.mk.injEq] using shown
  have notOpen := of_decide_eq_false closed
  refine ⟨last, reached, active, notOpen, ended, now, fun bounded => ?_⟩
  rcases bounded active with isOpen | ⟨e, known, soon⟩
  · exact notOpen isOpen
  · rw [ended] at known
    cases known
    rw [now] at soon
    exact absurd soon (by decide)

end EllaFi.SlaveWindow
