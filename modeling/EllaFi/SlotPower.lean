import EllaFi.CoinSlot
import EllaFi.Network

/-!
The power of the coin acceptor. `LedTask` switches it as it is notified of coin
sessions and of the service, through one mailbox in which a later notification
replaces one that is not handled yet. What the pin comes to once all that is due is
sent and handled (`comesTo`) follows the flag of the coin session, as long as no READY
comes in an open session, no ERROR replaces a START or STOP that has yet to switch
the pin, and no session opens during a boot test (`slot_power_follows`).
-/
namespace EllaFi.SlotPower
open EllaFi.Session EllaFi.Coins EllaFi.CoinTasks EllaFi.Network
open EllaFi.CoinSlot (Held held_initial held_step held_inactive held_started held_claimed held_window taskStage)
open EllaFi.Runs (run Always Throughout throughout_always always_mono)

/-! ## LedTask -/

inductive LedNotify where
  | ready
  | start
  | stop
  | error
  | role
deriving DecidableEq, Repr

/-- What `ledTask` keeps but for its colors, and the acceptor's power pin. -/
structure Led where
  booting : Bool
  blinking : Bool
  error : Bool
  flashOn : Bool
  power : Bool
deriving DecidableEq, Repr

def ledBooted : Led := { booting := true, blinking := false, error := false, flashOn := false, power := false }

/-- The pin is left alone in program mode. -/
def digitalWrite (programMode high : Bool) (led : Led) : Led := if programMode then led else { led with power := high }

def ledNotified (programMode : Bool) (val : LedNotify) (led : Led) : Led :=
  match val with
  | .role => led
  | .ready => digitalWrite programMode false { led with booting := false, blinking := false, error := false }
  | .start =>
    digitalWrite programMode true { led with booting := false, blinking := true, error := false, flashOn := false }
  | .stop => digitalWrite programMode false { led with blinking := false }
  | .error => { led with booting := false, blinking := false, error := true, flashOn := false }

/-- The wait for a notification ends only while something blinks. -/
def ledTimeout (led : Led) : Option Led :=
  if led.booting ∨ led.blinking ∨ led.error then some { led with flashOn := !led.flashOn } else none

/-! ## The coin session of a node -/

/-- The master's tasks, or a slave's flag with the notification that it is about to
    send. -/
inductive CoinSide where
  | master (tasks : Tasks)
  | slave (active : Bool) (due : Option LedNotify)

def CoinSide.isMaster : CoinSide → Bool
  | .master _ => true
  | .slave .. => false

/-- `COIN_INSERT_ACTIVE` -/
def CoinSide.active : CoinSide → Bool
  | .master tasks => tasks.coinInsertActive
  | .slave active _ => active

/-- STOP is due once the flag is cleared. -/
def stopDue (task : SessionTask) : List LedNotify :=
  match task with
  | .finalizing .. => [.stop]
  | _ => []

/-- START is due from the claim on. -/
def startDue (active : Bool) (task : SessionTask) : List LedNotify :=
  if active ∧ taskStage task ≠ .inWindow then [.start] else []

/-- The notifications that are still to be sent for the flag as it is, in order. -/
def CoinSide.due : CoinSide → List LedNotify
  | .master tasks => stopDue tasks.sessionTask ++ startDue tasks.coinInsertActive tasks.sessionTask
  | .slave _ due => due.toList

inductive CoinAction where
  | tasks (action : CoinTasks.Action)
  /-- A slave's network loop sets or clears the flag. -/
  | receive (received : Received)
  /-- And then it notifies. -/
  | notify

/-- What the session task sends: START as it opens a session, STOP before it grants. -/
def notified (before after : SessionTask) : Option LedNotify :=
  match before, after with
  | .receiving, .counting _ => some .start
  | .finalizing .., .granting .. => some .stop
  | _, _ => none

/-- The flag after a message of the master, and what is due then. -/
def slaveRecv (received : Received) (active : Bool) : CoinSide :=
  match received with
  | .sessionStart => .slave true (some .start)
  | .sessionEnd => .slave false (some .stop)
  | _ => .slave active none

section
variable (address : IPAddress) (macAddress : String)

/-- The coin side after an action, with what it sends. -/
def coinStep (coins : CoinSide) (action : CoinAction) : Option (CoinSide × Option LedNotify) :=
  match coins, action with
  | .master tasks, .tasks action =>
    (CoinTasks.step address macAddress tasks action).map fun after =>
      (.master after, notified tasks.sessionTask after.sessionTask)
  | .slave active none, .receive received => some (slaveRecv received active, none)
  | .slave active (some val), .notify => some (.slave active none, some val)
  | _, _ => none

/-! ## A node -/

structure Node where
  coins : CoinSide
  mailbox : Option LedNotify
  led : Led
  /-- `COINSLOT_PROGRAM_MODE`, until the next restart. -/
  programMode : Bool
  /-- `BOOT_TEST_RUNNING` -/
  bootTest : Bool

def booted (coins : CoinSide) : Node :=
  { coins, mailbox := none, led := ledBooted, programMode := false, bootTest := false }

inductive Action where
  | coins (action : CoinAction)
  /-- `ledReady`, `ledError` and `ledRoleKnown`. -/
  | ready
  | error
  | role
  | handle
  | timeout
  | program
  | bootTestStart
  | bootTestPower (high : Bool)
  | bootTestEnd

/-- `xTaskNotify` with the value overwritten. -/
def Node.mail (s : Node) (val : LedNotify) : Node := { s with mailbox := some val }

def Node.setPower (s : Node) (high : Bool) : Node := { s with led := { s.led with power := high } }

def step (s : Node) : Action → Option Node
  | .coins action =>
    (coinStep address macAddress s.coins action).map fun moved =>
      { s with coins := moved.1, mailbox := moved.2.or s.mailbox }
  | .ready => some (s.mail .ready)
  | .error => some (s.mail .error)
  | .role => some (s.mail .role)
  | .handle => s.mailbox.map fun val => { s with mailbox := none, led := ledNotified s.programMode val s.led }
  | .timeout => if s.mailbox = none then (ledTimeout s.led).map fun led => { s with led := led } else none
  | .program => some { s.setPower true with programMode := true }
  | .bootTestStart => if s.coins.active ∨ s.bootTest then none else some { s with bootTest := true }
  | .bootTestPower high => if s.bootTest then some (s.setPower high) else none
  | .bootTestEnd => if s.bootTest then some { s.setPower false with bootTest := false } else none

end

/-- Nothing is due and nothing is pending, and the pin is left to `LedTask`. -/
def Settled (s : Node) : Prop :=
  s.mailbox = none ∧ s.coins.due = [] ∧ s.programMode = false ∧ s.bootTest = false

instance (s : Node) : Decidable (Settled s) := inferInstanceAs (Decidable (_ ∧ _ ∧ _ ∧ _))

/-- The acceptor has power exactly while a session is open. -/
def PowerFollows (s : Node) : Prop := Settled s → s.led.power = s.coins.active

/-- The pin once a notification is handled. -/
def mailPower (val : Option LedNotify) (power : Bool) : Bool :=
  match val with
  | some .start => true
  | some .stop | some .ready => false
  | some .error | some .role | none => power

/-- The pin once all that is due is sent, and the last of it handled. -/
def duePower (due : List LedNotify) (power : Bool) : Bool := due.foldl (fun power val => mailPower (some val) power) power

/-- What the pin comes to. -/
def Node.comesTo (s : Node) : Bool := duePower s.coins.due (mailPower s.mailbox s.led.power)

/-- READY does not come in a session whose START was sent; ERROR does not replace what
    has yet to switch the pin; no session opens while a boot test runs. -/
def Undisturbed (address : IPAddress) (macAddress : String) (s : Node) (action : Action) : Prop :=
  s.programMode = true ∨
    match action with
    | .ready => s.coins.active = false ∨ s.coins.due ≠ []
    | .error | .role => s.bootTest = true ∨ mailPower s.mailbox s.led.power = s.led.power
    | .coins action => s.bootTest = true → ∀ moved ∈ coinStep address macAddress s.coins action, moved.1.active = false
    | _ => True

instance (address : IPAddress) (macAddress : String) (s : Node) :
    (action : Action) → Decidable (Undisturbed address macAddress s action)
  | .ready => inferInstanceAs (Decidable (_ ∨ _ ∨ _))
  | .error => inferInstanceAs (Decidable (_ ∨ _ ∨ _))
  | .role => inferInstanceAs (Decidable (_ ∨ _ ∨ _))
  | .coins action =>
    inferInstanceAs (Decidable (_ ∨ (_ → ∀ moved ∈ coinStep address macAddress s.coins action, moved.1.active = false)))
  | .handle | .timeout | .program | .bootTestStart | .bootTestPower _ | .bootTestEnd => .isTrue (.inr trivial)

/-! ## What the coin side does -/

/-- The slot of a master is held as its tasks say; a slave owes a START or a STOP. -/
def CoinSide.Sound (address : IPAddress) : CoinSide → Prop
  | .master tasks => Held address tasks
  | .slave _ due => ∀ val, due = some val → val = .start ∨ val = .stop

/-- What a step does to the flag and to what is due, and what it sends. -/
inductive Moves (isMaster : Bool) : Bool → List LedNotify → Option LedNotify → Bool → List LedNotify → Prop
  | same active due : Moves isMaster active due none active due
  /-- A claim, which the master grants only while the flag is clear. -/
  | set {active due} (fresh : isMaster = true → active = false ∧ LedNotify.start ∉ due) :
      Moves isMaster active due none true (due ++ [.start])
  | cleared active due : Moves isMaster active due none false (due ++ [.stop])
  | sent {val} (active due) (ofCoins : val = .start ∨ val = .stop) : Moves isMaster active (val :: due) (some val) active due
  /-- A claim that is taken back before its START is sent. -/
  | rolledBack {active due} (master : isMaster = true) (only : LedNotify.start ∉ due) :
      Moves isMaster active (due ++ [.start]) none false due

section
variable {address : IPAddress} {macAddress : String} {tasks after : Tasks} {coins next : CoinSide}
  {sent : Option LedNotify} {s : Node}

theorem start_not_stopDue (task : SessionTask) : LedNotify.start ∉ stopDue task := by
  cases task <;> simp [stopDue]

theorem startDue_inactive (task : SessionTask) : startDue false task = [] := by simp [startDue]

theorem startDue_counting (active : Bool) (nodes : Tally) : startDue active (.counting nodes) = [] := by
  simp [startDue, taskStage]

theorem startDue_closing (active fraudEnded : Bool) (nodes : Tally) : startDue active (.closing fraudEnded nodes) = [] := by
  simp [startDue, taskStage]

theorem startDue_waiting {task : SessionTask} (waiting : taskStage task ≠ .inWindow) : startDue true task = [.start] := by
  simp [startDue, waiting]

/-- A step of the tasks that changes neither the flag nor what is due is silent. -/
theorem moves_frame {active : Bool} {task taskAfter : SessionTask} (stops : stopDue taskAfter = stopDue task)
    (starts : startDue active taskAfter = startDue active task) (silent : notified task taskAfter = none) :
    Moves true active (stopDue task ++ startDue active task) (notified task taskAfter) active
      (stopDue taskAfter ++ startDue active taskAfter) := by
  rw [silent, stops, starts]
  exact .same _ _

theorem notified_same (task : SessionTask) : notified task task = none := by
  cases task <;> rfl

/-- What a step of the master's tasks does. -/
theorem tasks_moves {action : CoinTasks.Action} (held : Held address tasks)
    (taken : CoinTasks.step address macAddress tasks action = some after) :
    Moves true tasks.coinInsertActive (stopDue tasks.sessionTask ++ startDue tasks.coinInsertActive tasks.sessionTask)
      (notified tasks.sessionTask after.sessionTask) after.coinInsertActive
      (stopDue after.sessionTask ++ startDue after.coinInsertActive after.sessionTask) := by
  cases step_cases taken with
  | won socketFd clientIp inactive =>
    obtain ⟨-, -, noWindow⟩ := held_inactive held inactive
    simp only [inactive, startDue_inactive, startDue_waiting noWindow, notified_same, List.append_nil]
    exact .set fun _ => ⟨rfl, start_not_stopDue _⟩
  | rolledBack pending refused =>
    obtain ⟨-, noWindow⟩ := held_claimed held pending
    have active : tasks.coinInsertActive = true := by
      by_contra inactive
      obtain ⟨noClaims, -⟩ := held_inactive held (by simpa using inactive)
      rw [noClaims] at pending
      cases pending
    simp only [active, startDue_inactive, startDue_waiting noWindow, notified_same, List.append_nil]
    exact .rolledBack rfl (start_not_stopDue _)
  | opened free queued =>
    have waiting : taskStage tasks.sessionTask ≠ .inWindow := by rw [free]; decide
    rw [held_started held queued, startDue_waiting waiting, free]
    exact .sent _ _ (.inl rfl)
  | cleared closing =>
    simp only [closing, stopDue, startDue_closing, startDue_inactive, notified]
    exact .cleared _ _
  | began finalizing =>
    simp only [finalizing, stopDue, notified]
    exact .sent _ _ (.inr rfl)
  | counted counting queued =>
    rw [counting]
    exact moves_frame rfl (by rw [startDue_counting, startDue_counting]) rfl
  | aborted counting queued =>
    rw [counting]
    exact moves_frame rfl (by rw [startDue_counting, startDue_closing]) rfl
  | timedOut counting drained =>
    rw [counting]
    exact moves_frame rfl (by rw [startDue_counting, startDue_closing]) rfl
  | finalized granting =>
    rw [granting]
    exact moves_frame rfl (by simp [startDue, taskStage]) rfl
  | _ => exact moves_frame rfl rfl (notified_same _)

theorem coinStep_moves {action : CoinAction} (sound : coins.Sound address)
    (taken : coinStep address macAddress coins action = some (next, sent)) :
    next.Sound address ∧ next.isMaster = coins.isMaster ∧
      Moves coins.isMaster coins.active coins.due sent next.active next.due := by
  cases coins with
  | master tasks =>
    cases action with
    | tasks action =>
      obtain ⟨after, moved, same⟩ := Option.map_eq_some_iff.mp taken
      cases same
      exact ⟨held_step sound moved, rfl, tasks_moves sound moved⟩
    | receive received => cases taken
    | notify => cases taken
  | slave active due =>
    cases action with
    | tasks action => cases due <;> cases taken
    | receive received =>
      cases due with
      | some val => cases taken
      | none =>
        cases received with
        | sessionStart =>
          cases taken
          refine ⟨by rintro val ⟨⟩; exact .inl rfl, rfl, ?_⟩
          exact @Moves.set false active [] fun isMaster => by cases isMaster
        | sessionEnd =>
          cases taken
          refine ⟨by rintro val ⟨⟩; exact .inr rfl, rfl, ?_⟩
          exact @Moves.cleared false active []
        | _ =>
          cases taken
          exact ⟨sound, rfl, .same _ _⟩
    | notify =>
      cases due with
      | none => cases taken
      | some val =>
        cases taken
        exact ⟨by rintro val ⟨⟩, rfl, .sent active [] (sound val rfl)⟩

/-! ## What the pin comes to -/

theorem duePower_append (due more : List LedNotify) (power : Bool) :
    duePower (due ++ more) power = duePower more (duePower due power) := List.foldl_append

theorem mailPower_coins {val : LedNotify} (ofCoins : val = .start ∨ val = .stop) (power other : Bool) :
    mailPower (some val) power = mailPower (some val) other := by
  rcases ofCoins with rfl | rfl <;> rfl

/-- Less power before is no more power in the end. -/
theorem mailPower_false {val : Option LedNotify} {power : Bool} (off : mailPower val power = false) :
    mailPower val false = false := by
  rcases val with _ | ⟨_ | _ | _ | _ | _⟩ <;> first | rfl | exact off

theorem duePower_false {due : List LedNotify} {power : Bool} (off : duePower due power = false) :
    duePower due false = false := by
  induction due using List.reverseRecOn with
  | nil => rfl
  | append_singleton due val ih =>
    rw [duePower_append] at off ⊢
    change mailPower (some val) _ = false at off
    change mailPower (some val) _ = false
    cases val with
    | start => cases off
    | stop => rfl
    | ready => rfl
    | error => exact ih off
    | role => exact ih off

theorem duePower_less {due : List LedNotify} {val : Option LedNotify} {power : Bool}
    (off : duePower due (mailPower val power) = false) : duePower due (mailPower val false) = false := by
  cases before : mailPower val power with
  | false =>
    rw [mailPower_false before]
    rwa [before] at off
  | true =>
    rw [before] at off
    cases mailPower val false with
    | false => exact duePower_false off
    | true => exact off

/-- What a session sends does not depend on the pin before. -/
theorem duePower_coins {due : List LedNotify} (some : due ≠ []) (ofCoins : ∀ val ∈ due, val = .start ∨ val = .stop)
    (power other : Bool) : duePower due power = duePower due other := by
  obtain ⟨val, rest, rfl⟩ := List.exists_cons_of_ne_nil some
  exact congrArg (duePower rest) (mailPower_coins (ofCoins val List.mem_cons_self) power other)

theorem due_ofCoins (sound : coins.Sound address) : ∀ val ∈ coins.due, val = .start ∨ val = .stop := by
  intro val inside
  cases coins with
  | slave active due => exact sound val (Option.mem_toList.mp inside)
  | master tasks =>
    rcases List.mem_append.mp inside with stops | starts
    · unfold stopDue at stops
      split at stops
      · exact .inr (List.mem_singleton.mp stops)
      · exact absurd stops List.not_mem_nil
    · unfold startDue at starts
      split at starts
      · exact .inl (List.mem_singleton.mp starts)
      · exact absurd starts List.not_mem_nil

/-- The pin comes to the flag, also if the master's claim is taken back. -/
def Balanced (isMaster : Bool) (active : Bool) (due : List LedNotify) (base : Bool) : Prop :=
  duePower due base = active ∧
    (isMaster = true → ∀ rest, due = rest ++ [.start] → LedNotify.start ∉ rest ∧ duePower rest base = false)

theorem moves_balanced {isMaster active activeAfter : Bool} {due dueAfter : List LedNotify} {mailbox : Option LedNotify}
    {power : Bool} (moves : Moves isMaster active due sent activeAfter dueAfter)
    (balanced : Balanced isMaster active due (mailPower mailbox power)) :
    Balanced isMaster activeAfter dueAfter (mailPower (sent.or mailbox) power) := by
  obtain ⟨comes, withdrawn⟩ := balanced
  cases moves with
  | same => exact ⟨comes, withdrawn⟩
  | set fresh =>
    refine ⟨by rw [duePower_append]; rfl, fun master rest same => ?_⟩
    obtain ⟨rfl, -⟩ := List.append_inj' same rfl
    obtain ⟨inactive, noStart⟩ := fresh master
    exact ⟨noStart, comes.trans inactive⟩
  | cleared =>
    refine ⟨by rw [duePower_append]; rfl, fun _ rest same => ?_⟩
    obtain ⟨-, other⟩ := List.append_inj' same rfl
    cases other
  | @sent val active due ofCoins =>
    have base := mailPower_coins ofCoins power (mailPower mailbox power)
    rw [Option.some_or, base]
    refine ⟨comes, fun master rest same => ?_⟩
    obtain ⟨noStart, off⟩ := withdrawn master (val :: rest) (congrArg _ same)
    exact ⟨fun inside => noStart (List.mem_cons_of_mem _ inside), off⟩
  | rolledBack master only =>
    refine ⟨(withdrawn master _ rfl).2, fun _ rest same => ?_⟩
    rw [same] at only
    exact absurd (List.mem_append_right _ (List.mem_singleton_self _)) only

/-- Nothing is taken back where no START is on its way. -/
theorem balanced_idle {isMaster : Bool} {due : List LedNotify} {base : Bool} (off : duePower due base = false) :
    Balanced isMaster false due base := by
  refine ⟨off, fun _ rest same => ?_⟩
  rw [same, duePower_append] at off
  cases off

/-- A pin without power is no worse, where the flag is clear or more is due. -/
theorem balanced_off {isMaster active : Bool} {due : List LedNotify} {base : Bool}
    (balanced : Balanced isMaster active due base) (ofCoins : ∀ val ∈ due, val = .start ∨ val = .stop)
    (harmless : active = false ∨ due ≠ []) : Balanced isMaster active due false := by
  obtain ⟨comes, withdrawn⟩ := balanced
  refine ⟨?_, fun master rest same => ?_⟩
  · rcases harmless with rfl | more
    · exact duePower_false comes
    · exact (duePower_coins more ofCoins false base).trans comes
  · obtain ⟨noStart, off⟩ := withdrawn master rest same
    exact ⟨noStart, duePower_false off⟩

theorem ledNotified_power (val : LedNotify) (led : Led) : (ledNotified false val led).power = mailPower (some val) led.power := by
  cases val <;> rfl

theorem ledTimeout_power {led after : Led} (taken : ledTimeout led = some after) : after.power = led.power := by
  unfold ledTimeout at taken
  split at taken <;> cases taken
  rfl

/-! ## Runs -/

/-- Outside program mode the pin comes to the flag; while a boot test runs the flag
    is clear, and the pin comes to it once the test is over. -/
structure Sound (address : IPAddress) (s : Node) : Prop where
  coins : s.coins.Sound address
  balanced : s.programMode = false → s.bootTest = false →
    Balanced s.coins.isMaster s.coins.active s.coins.due (mailPower s.mailbox s.led.power)
  testIdle : s.programMode = false → s.bootTest = true → s.coins.active = false ∧
    Balanced s.coins.isMaster s.coins.active s.coins.due (mailPower s.mailbox false)

theorem sound_coins {action : CoinAction} {after : Node} (sound : Sound address s)
    (undisturbed : Undisturbed address macAddress s (.coins action))
    (taken : step address macAddress s (.coins action) = some after) : Sound address after := by
  obtain ⟨⟨next, sent⟩, moved, rfl⟩ := Option.map_eq_some_iff.mp taken
  obtain ⟨soundNext, role, moves⟩ := coinStep_moves sound.coins moved
  refine ⟨soundNext, fun noProgram noTest => ?_, fun noProgram test => ?_⟩
  · rw [role]
    exact moves_balanced moves (sound.balanced noProgram noTest)
  · have closed : next.active = false := by
      rcases undisturbed with program | kept
      · rw [noProgram] at program
        cases program
      · exact kept test _ moved
    refine ⟨closed, ?_⟩
    rw [role]
    exact moves_balanced moves (sound.testIdle noProgram test).2

/-- A notification that a session does not send. -/
theorem sound_mail {val : LedNotify} (sound : Sound address s) (ofService : mailPower (some val) false = false)
    (harmless : s.programMode = false → s.bootTest = false →
      mailPower (some val) s.led.power = mailPower s.mailbox s.led.power ∨
        (mailPower (some val) s.led.power = false ∧ (s.coins.active = false ∨ s.coins.due ≠ []))) :
    Sound address (s.mail val) := by
  refine ⟨sound.coins, fun noProgram noTest => ?_, fun noProgram test => ?_⟩
  · have before := sound.balanced noProgram noTest
    change Balanced s.coins.isMaster s.coins.active s.coins.due (mailPower (some val) s.led.power)
    rcases harmless noProgram noTest with same | ⟨off, more⟩
    · rw [same]
      exact before
    · rw [off]
      exact balanced_off before (due_ofCoins sound.coins) more
  · obtain ⟨closed, before⟩ := sound.testIdle noProgram test
    refine ⟨closed, ?_⟩
    change Balanced s.coins.isMaster s.coins.active s.coins.due (mailPower (some val) false)
    rw [ofService]
    exact balanced_off before (due_ofCoins sound.coins) (.inl closed)

/-- What `LedTask` does with a notification is what it was going to do. -/
theorem sound_handle {after : Node} (sound : Sound address s) (taken : step address macAddress s .handle = some after) :
    Sound address after := by
  obtain ⟨val, pending, rfl⟩ := Option.map_eq_some_iff.mp taken
  refine ⟨sound.coins, fun noProgram noTest => ?_, fun noProgram test => ?_⟩
  · have before := sound.balanced noProgram noTest
    rw [pending, ← ledNotified_power] at before
    simp only at noProgram ⊢
    rw [noProgram]
    exact before
  · obtain ⟨closed, before⟩ := sound.testIdle noProgram test
    exact ⟨closed, balanced_off before (due_ofCoins sound.coins) (.inl closed)⟩

/-- ERROR and ROLE leave the pin; they are harmless where nothing is pending that has
    yet to switch it. -/
theorem sound_silent {val : LedNotify} (sound : Sound address s) (silent : ∀ power, mailPower (some val) power = power)
    (kept : s.programMode = true ∨ s.bootTest = true ∨ mailPower s.mailbox s.led.power = s.led.power) :
    Sound address (s.mail val) := by
  refine sound_mail sound (silent false) fun noProgram noTest => .inl ?_
  rcases kept with program | test | same
  · rw [noProgram] at program
    cases program
  · rw [noTest] at test
    cases test
  · exact (silent _).trans same.symm

theorem sound_timeout {after : Node} (sound : Sound address s)
    (taken : step address macAddress s .timeout = some after) : Sound address after := by
  simp only [step] at taken
  split at taken
  · obtain ⟨led, blinked, rfl⟩ := Option.map_eq_some_iff.mp taken
    refine ⟨sound.coins, fun noProgram noTest => ?_, sound.testIdle⟩
    simp only [ledTimeout_power blinked]
    exact sound.balanced noProgram noTest
  · cases taken

/-- A boot test begins with no session open, and so with nothing that is due. -/
theorem sound_bootTestStart {after : Node} (sound : Sound address s)
    (taken : step address macAddress s .bootTestStart = some after) : Sound address after := by
  simp only [step] at taken
  split at taken
  · cases taken
  · next free =>
    obtain ⟨closed, noTest⟩ := not_or.mp free
    rw [Bool.not_eq_true] at closed noTest
    cases taken
    refine ⟨sound.coins, ?_, fun noProgram _ => ⟨closed, ?_⟩⟩
    · intro _ finished
      cases finished
    · have before := (sound.balanced noProgram noTest).1
      simp only [closed] at before ⊢
      exact balanced_idle (duePower_less before)

theorem step_sound {action : Action} {after : Node} (sound : Sound address s)
    (undisturbed : Undisturbed address macAddress s action) (taken : step address macAddress s action = some after) :
    Sound address after := by
  cases action with
  | coins action => exact sound_coins sound undisturbed taken
  | ready =>
    cases taken
    refine sound_mail sound rfl fun noProgram _ => .inr ⟨rfl, undisturbed.resolve_left fun program => ?_⟩
    rw [noProgram] at program
    cases program
  | error =>
    cases taken
    exact sound_silent sound (fun _ => rfl) undisturbed
  | role =>
    cases taken
    exact sound_silent sound (fun _ => rfl) undisturbed
  | handle => exact sound_handle sound taken
  | timeout => exact sound_timeout sound taken
  | program =>
    cases taken
    refine ⟨sound.coins, ?_, ?_⟩
    · intro noProgram
      cases noProgram
    · intro noProgram
      cases noProgram
  | bootTestStart => exact sound_bootTestStart sound taken
  | bootTestPower high =>
    simp only [step] at taken
    split at taken
    · next test =>
      cases taken
      refine ⟨sound.coins, fun _ noTest => ?_, sound.testIdle⟩
      rw [show s.bootTest = false from noTest] at test
      cases test
    · cases taken
  | bootTestEnd =>
    simp only [step] at taken
    split at taken
    · next test =>
      cases taken
      refine ⟨sound.coins, fun noProgram _ => (sound.testIdle noProgram test).2, ?_⟩
      intro _ test
      cases test
    · cases taken

/-- The pin comes to what the flag says, outside of program mode and boot tests. -/
theorem sound_comesTo (sound : Sound address s) (noProgram : s.programMode = false) (noTest : s.bootTest = false) :
    s.comesTo = s.coins.active := (sound.balanced noProgram noTest).1

theorem sound_follows (sound : Sound address s) : PowerFollows s := by
  rintro ⟨empty, none_, noProgram, noTest⟩
  have comes := sound_comesTo sound noProgram noTest
  rw [Node.comesTo, empty, none_] at comes
  exact comes

def coinsBooted (isMaster : Bool) : CoinSide := if isMaster then .master initial else .slave false none

theorem booted_sound (isMaster : Bool) : Sound address (booted (coinsBooted isMaster)) := by
  cases isMaster with
  | true =>
    refine ⟨held_initial, fun _ _ => balanced_idle rfl, ?_⟩
    intro _ test
    cases test
  | false =>
    refine ⟨?_, fun _ _ => balanced_idle rfl, ?_⟩
    · intro val due
      cases due
    · intro _ test
      cases test

/-- In every run of a master or a slave in which no READY comes in an open session, no
    ERROR replaces a notification that has yet to switch the pin and no session opens
    during a boot test, the acceptor has power exactly while a session is open,
    whenever all that is due is sent and handled. -/
theorem slot_power_follows {isMaster : Bool} {actions : List Action}
    (undisturbed : Throughout (step address macAddress) (Undisturbed address macAddress) (booted (coinsBooted isMaster))
      actions) :
    Always (step address macAddress) PowerFollows (booted (coinsBooted isMaster)) actions :=
  always_mono (fun _ => sound_follows)
    (throughout_always (fun _ _ _ => step_sound) (booted_sound isMaster) undisturbed)

end

/-! ## The service comes back in a session -/

/-- A client's session up to its START being handled, and its end up to STOP being sent. -/
def opened : List Action := (windowStart 7 "10.0.0.5" 100).map (fun action => .coins (.tasks action)) ++ [.handle]

def closed : List Action := (windowEnd.take 3).map fun action => .coins (.tasks action)

theorem slot_power_follows_session :
    Always (step dottedQuad "AA") PowerFollows (booted (coinsBooted true)) (.ready :: .handle :: opened ++ closed ++ [.handle]) :=
  slot_power_follows (by decide +kernel)

/-- READY in a session takes the acceptor's power, and ERROR instead of STOP leaves it on. -/
theorem service_flips_switch :
    (∃ last, run (step dottedQuad "AA") (booted (coinsBooted true)) (opened ++ [.error, .handle, .ready, .handle]) = some last ∧
      Settled last ∧ last.coins.active = true ∧ last.led.power = false) ∧
    ∃ last, run (step dottedQuad "AA") (booted (coinsBooted true)) (opened ++ closed ++ [.error, .handle]) = some last ∧
      Settled last ∧ last.coins.active = false ∧ last.led.power = true := by
  have shown (actions : List Action) (active power : Bool)
      (ran : (run (step dottedQuad "AA") (booted (coinsBooted true)) actions).map (fun last =>
        (decide (Settled last), last.coins.active, last.led.power)) = some (true, active, power)) :
      ∃ last, run (step dottedQuad "AA") (booted (coinsBooted true)) actions = some last ∧
        Settled last ∧ last.coins.active = active ∧ last.led.power = power := by
    obtain ⟨last, reached, same⟩ := Option.map_eq_some_iff.mp ran
    obtain ⟨settled, rest⟩ : decide (Settled last) = true ∧ last.coins.active = active ∧ last.led.power = power := by
      simpa only [Prod.mk.injEq] using same
    exact ⟨last, reached, of_decide_eq_true settled, rest⟩
  exact ⟨shown _ _ _ (by decide +kernel), shown _ _ _ (by decide +kernel)⟩

end EllaFi.SlotPower
