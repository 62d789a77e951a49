import EllaFi.CoinTasks
import EllaFi.Runs

/-!
The filter of `coinPulseTask`, pulse by pulse. Its loop body judges a pulse by what it
reads and by the timestamp that it holds (`judge`); the task of the machine does the same
in its steps, whatever comes between them (`tasks_filter`). The timestamp is that of the
last pulse that was accepted, of any source and in any session, until an interval reject
or a pulse outside the window clears it. Beside it stands the judge that knows the last
coin of the own slot and session (`due`). Both give the same verdicts throughout exactly
when every slot pulse comes clear (`interval_judged_iff`): by the kind of the last pulse
before it that counted, no coin is near that an interval reject has hidden, the counter
tells the distance of the own coin, and another pulse is near only where a coin is.
-/
namespace EllaFi.IntervalFilter
open EllaFi.Session EllaFi.Coins EllaFi.CoinTasks
open EllaFi.Runs (run watch watch_some run_keeps Always Throughout always_first)

/-! ## One pulse -/

/-- A pulse, and what the loop body reads for it. -/
structure Reading where
  pulse : CoinPulse
  bootTestRunning : Bool
  shouldAcceptCoins : Bool
  /-- `millis() < COIN_SLOT_READY_MILLIS` -/
  booting : Bool
deriving DecidableEq, Repr

inductive Verdict where
  | captured
  | outside
  | suppressed
  | widthFraud
  | intervalFraud
  | accepted
deriving DecidableEq, Repr

/-- What `coinPulseTask` keeps from pulse to pulse. -/
structure Filter where
  prevAcceptedTimestampMicros : UInt32
  fraudCountThisSession : Nat
deriving DecidableEq, Repr

def newFilter : Filter := { prevAcceptedTimestampMicros := 0, fraudCountThisSession := 0 }

def judge (filter : Filter) (r : Reading) : Verdict :=
  if r.bootTestRunning then .captured
  else if ¬ r.shouldAcceptCoins then .outside
  else if r.booting then .suppressed
  else if TooShort r.pulse then .widthFraud
  else if TooSoon filter.prevAcceptedTimestampMicros r.pulse then .intervalFraud
  else .accepted

def handle (filter : Filter) (r : Reading) : Filter :=
  match judge filter r with
  | .captured | .suppressed => filter
  | .outside => newFilter
  | .widthFraud => { filter with fraudCountThisSession := filter.fraudCountThisSession + 1 }
  | .intervalFraud =>
    { prevAcceptedTimestampMicros := 0, fraudCountThisSession := filter.fraudCountThisSession + 1 }
  | .accepted => { filter with prevAcceptedTimestampMicros := r.pulse.timestampMicros }

/-! ## The steps of the task -/

def filterOf (s : Tasks) : Filter where
  prevAcceptedTimestampMicros := s.prevAcceptedTimestampMicros
  fraudCountThisSession := s.fraudCountThisSession

/-- The pulse that the pulse task is done judging by a step, and what was read for it. -/
def readingAt (s : Tasks) : CoinTasks.Action → Option Reading
  | .checkActive bootTestRunning =>
    match s.pulseTask with
    | .checking pulse =>
      if bootTestRunning then some { pulse, bootTestRunning, shouldAcceptCoins := s.coinInsertActive, booting := false }
      else if s.coinInsertActive then none
      else some { pulse, bootTestRunning, shouldAcceptCoins := false, booting := false }
    | _ => none
  | .filterPulse millis =>
    match s.pulseTask with
    | .filtering pulse =>
      some { pulse, bootTestRunning := false, shouldAcceptCoins := true, booting := millis < s.coinSlotReadyMillis }
    | _ => none
  | _ => none

section
variable {address : IPAddress} {macAddress : String} {s next : Tasks}

/-- A step of the tasks leaves the filter, or handles the pulse that it judges. -/
theorem step_filter {action : CoinTasks.Action} (took : CoinTasks.step address macAddress s action = some next) :
    filterOf next = (readingAt s action).toList.foldl handle (filterOf s) := by
  cases action with
  | checkActive bootTestRunning =>
    simp only [CoinTasks.step, checkActive] at took
    split at took
    · next pulse checking =>
      cases bootTestRunning with
      | true =>
        cases took
        simp [readingAt, checking, handle, judge, filterOf]
      | false =>
        cases active : s.coinInsertActive <;> simp only [active, Bool.false_eq_true, if_false, if_true] at took <;>
          cases took <;> simp [readingAt, checking, active, handle, judge, filterOf, newFilter]
    · cases took
  | filterPulse millis =>
    simp only [CoinTasks.step, filterPulse] at took
    split at took
    · next pulse filtering =>
      simp only [readingAt, filtering, Option.toList_some, List.foldl_cons, List.foldl_nil]
      by_cases booting : millis < s.coinSlotReadyMillis
      · rw [if_pos booting] at took
        cases took
        simp [handle, judge, filterOf, booting]
      · rw [if_neg booting] at took
        by_cases short : TooShort pulse
        · rw [if_pos short] at took
          cases took
          simp [handle, judge, filterOf, booting, short]
        · rw [if_neg short] at took
          by_cases soon : TooSoon s.prevAcceptedTimestampMicros pulse
          · rw [if_pos soon] at took
            cases took
            simp [handle, judge, filterOf, booting, short, soon]
          · rw [if_neg soon] at took
            cases took
            simp [handle, judge, filterOf, booting, short, soon]
    · cases took
  | _ => cases step_cases took <;> rfl

/-- In any interleaving the task filters the pulses one by one. -/
theorem tasks_filter {actions : List CoinTasks.Action} {readings : List Reading}
    (ran : run (watch (CoinTasks.step address macAddress) fun s a readings => readings ++ (readingAt s a).toList)
      (initial, []) actions = some (s, readings)) :
    filterOf s = readings.foldl handle newFilter := by
  refine @run_keeps _ _ _ (fun here : Tasks × List Reading => filterOf here.1 = here.2.foldl handle newFilter)
    (fun here action next kept took => ?_) _ _ actions rfl ran
  obtain ⟨moved, noted⟩ := watch_some.mp took
  rw [noted, List.foldl_append, ← kept]
  exact step_filter moved

end

/-! ## Histories -/

/-- A pulse with the time at which it began, in microseconds since boot, of which its
    timestamp holds 32 bits. -/
structure Timed where
  reading : Reading
  began : Nat
  stamped : reading.pulse.timestampMicros = UInt32.ofNat began

/-- A pulse that was judged, and the session in which it was. -/
structure Round where
  reading : Reading
  began : Nat
  session : Nat
  verdict : Verdict
deriving DecidableEq, Repr

/-- The rounds so far, the last one first. -/
structure History where
  filter : Filter
  session : Nat
  rounds : List Round

def boot : History := { filter := newFilter, session := 0, rounds := [] }

inductive Action where
  | newSession
  | pulse (timed : Timed)

/-- A session is over when a pulse comes outside the window. -/
def step (h : History) : Action → Option History
  | .newSession => some { h with session := h.session + 1 }
  | .pulse timed =>
    let verdict := judge h.filter timed.reading
    some
      { filter := handle h.filter timed.reading
        session := if verdict = .outside then h.session + 1 else h.session
        rounds := { reading := timed.reading, began := timed.began, session := h.session, verdict } :: h.rounds }

/-- When the last coin of the own slot that was accepted in a session began. -/
def previousCoin (session : Nat) (rounds : List Round) : Option Nat :=
  (rounds.find? fun round =>
    round.verdict = .accepted ∧ round.reading.pulse.source = .coinslot ∧ round.session = session).map (·.began)

/-- The last pulse that was accepted, or rejected for its interval, since one came outside
    the window. -/
def lastCounted : List Round → Option Round
  | [] => none
  | round :: before =>
    match round.verdict with
    | .accepted | .intervalFraud => some round
    | .outside => none
    | .captured | .suppressed | .widthFraud => lastCounted before

/-- When the pulse began whose timestamp the filter holds. -/
def heldPulse (rounds : List Round) : Option Nat :=
  (lastCounted rounds).bind fun round => if round.verdict = .accepted then some round.began else none

def minPulseIntervalMicros : Nat := coinslotMinPulseIntervalMillis.toNat * 1000

/-- The one pulse began less than the minimum interval before the other. -/
def Follows (earlier began : Nat) : Prop := earlier ≤ began ∧ began < earlier + minPulseIntervalMicros

instance (earlier began : Nat) : Decidable (Follows earlier began) := inferInstanceAs (Decidable (_ ∧ _))

/-- What the counter shows of it; a timestamp of 0 stands for none. -/
def FollowsByCounter (earlier began : Nat) : Prop :=
  earlier % 2 ^ 32 ≠ 0 ∧ ((began : Int) - earlier) % 2 ^ 32 < minPulseIntervalMicros

instance (earlier began : Nat) : Decidable (FollowsByCounter earlier began) := inferInstanceAs (Decidable (_ ∧ _))

/-- A slot pulse of adequate width, inside a session. -/
structure OnTrial (r : Reading) : Prop where
  source : r.pulse.source = .coinslot
  wide : ¬ TooShort r.pulse
  filtered : r.bootTestRunning = false
  inside : r.shouldAcceptCoins = true
  ready : r.booting = false

/-- Every slot pulse was rejected for its interval exactly if it followed a coin of its
    own slot and session too soon. -/
def JudgedByCoins : List Round → Prop
  | [] => True
  | round :: before =>
    (OnTrial round.reading →
      (round.verdict = .intervalFraud ↔ ∃ coin ∈ previousCoin round.session before, Follows coin round.began)) ∧
    JudgedByCoins before

/-! ## The judge that knows the coins -/

/-- The sessions and the pulses so far, without what the code keeps of them. -/
structure Record where
  session : Nat
  rounds : List Round

def noPulses : Record := { session := 0, rounds := [] }

/-- A coin of the own slot and session is near. -/
def CoinNear (record : Record) (began : Nat) : Prop :=
  ∃ coin ∈ previousCoin record.session record.rounds, Follows coin began

instance (record : Record) (began : Nat) : Decidable (CoinNear record began) :=
  inferInstanceAs (Decidable (∃ coin ∈ previousCoin record.session record.rounds, _))

def due (record : Record) (timed : Timed) : Verdict :=
  if timed.reading.bootTestRunning then .captured
  else if ¬ timed.reading.shouldAcceptCoins then .outside
  else if timed.reading.booting then .suppressed
  else if TooShort timed.reading.pulse then .widthFraud
  else if timed.reading.pulse.source = .coinslot ∧ CoinNear record timed.began then .intervalFraud
  else .accepted

def judged (record : Record) (timed : Timed) (verdict : Verdict) : Record where
  session := if verdict = .outside then record.session + 1 else record.session
  rounds := { reading := timed.reading, began := timed.began, session := record.session, verdict } :: record.rounds

def dueStep (record : Record) : Action → Option Record
  | .newSession => some { record with session := record.session + 1 }
  | .pulse timed => some (judged record timed (due record timed))

/-- What comes before a slot pulse does not mislead the filter. -/
def Clear (record : Record) : Action → Prop
  | .newSession => True
  | .pulse timed => OnTrial timed.reading →
    match lastCounted record.rounds with
    | none => True
    | some round =>
      if round.verdict = .intervalFraud then
        -- a reject leaves the coin before it unknown, which must not be near any more
        ¬ CoinNear record timed.began
      else if round.reading.pulse.source = .coinslot ∧ round.session = record.session then
        -- its own coin, of which the counter has 32 bits and does not know 0
        (Follows round.began timed.began ↔ FollowsByCounter round.began timed.began)
      else
        -- a pulse of the button, of a slave or of an earlier session
        if FollowsByCounter round.began timed.began then CoinNear record timed.began
        else ¬ CoinNear record timed.began

section
variable {h next : History} {action : Action} {timed : Timed}

/-- The filter holds the timestamp of that pulse. -/
def Holds (h : History) : Prop := h.filter.prevAcceptedTimestampMicros = UInt32.ofNat ((heldPulse h.rounds).getD 0)

theorem holds_step (holds : Holds h) (took : step h action = some next) : Holds next := by
  cases action with
  | newSession =>
    cases took
    exact holds
  | pulse timed =>
    cases took
    unfold Holds heldPulse handle
    cases judge h.filter timed.reading with
    | captured | suppressed | widthFraud => exact holds
    | outside | intervalFraud => rfl
    | accepted => exact timed.stamped

theorem ofNat_sub_toNat (earlier began : Nat) :
    ((UInt32.ofNat began - UInt32.ofNat earlier).toNat : Int) = ((began : Int) - earlier) % 2 ^ 32 := by
  rw [UInt32.toNat_sub, UInt32.toNat_ofNat', UInt32.toNat_ofNat']
  omega

theorem tooSoon_iff (holds : Holds h) (source : timed.reading.pulse.source = .coinslot) :
    TooSoon h.filter.prevAcceptedTimestampMicros timed.reading.pulse ↔
      ∃ held ∈ heldPulse h.rounds, FollowsByCounter held timed.began := by
  unfold TooSoon Holds at *
  rw [holds, timed.stamped]
  cases heldPulse h.rounds with
  | none => simp
  | some earlier =>
    have positive : 0 < UInt32.ofNat earlier ↔ earlier % 2 ^ 32 ≠ 0 := by
      rw [UInt32.lt_iff_toNat_lt, UInt32.toNat_ofNat']
      simp [Nat.pos_iff_ne_zero]
    have near : UInt32.ofNat timed.began - UInt32.ofNat earlier < coinslotMinPulseIntervalMillis * 1000 ↔
        ((timed.began : Int) - earlier) % 2 ^ 32 < minPulseIntervalMicros := by
      rw [← ofNat_sub_toNat, UInt32.lt_iff_toNat_lt]
      exact Nat.cast_lt.symm
    simp [source, positive, near, FollowsByCounter]

theorem judge_onTrial {filter : Filter} {r : Reading} (onTrial : OnTrial r) :
    judge filter r = .intervalFraud ↔ TooSoon filter.prevAcceptedTimestampMicros r.pulse := by
  obtain ⟨-, wide, filtered, inside, ready⟩ := onTrial
  simp [judge, wide, filtered, inside, ready]

/-! ## The last pulse that counted -/

/-- The sessions of the pulses, and that none counted in one of which no pulse counted. -/
structure Dated (record : Record) : Prop where
  past : ∀ round ∈ record.rounds, round.session ≤ record.session
  fresh : lastCounted record.rounds = none → previousCoin record.session record.rounds = none

theorem previousCoin_later {session : Nat} {rounds : List Round} (past : ∀ round ∈ rounds, round.session < session) :
    previousCoin session rounds = none := by
  simp only [previousCoin, Option.map_eq_none_iff, List.find?_eq_none]
  intro round inside
  have := past round inside
  simp
  omega

theorem previousCoin_skip {session : Nat} {round : Round} {rounds : List Round} (other : round.verdict ≠ .accepted) :
    previousCoin session (round :: rounds) = previousCoin session rounds := by
  simp [previousCoin, other]

theorem dated_judged {record : Record} {verdict : Verdict} (dated : Dated record) : Dated (judged record timed verdict) where
  past := by
    refine List.forall_mem_cons.mpr ⟨?_, fun round inside => ?_⟩
    · simp only [judged]
      split <;> omega
    · have := dated.past round inside
      simp only [judged]
      split <;> omega
  fresh none := by
    simp only [judged] at none ⊢
    cases verdict with
    | accepted | intervalFraud => simp [lastCounted] at none
    | outside =>
      refine previousCoin_later (List.forall_mem_cons.mpr ⟨Nat.lt_succ_self _, fun round inside => ?_⟩)
      exact Nat.lt_succ_of_le (dated.past round inside)
    | captured | suppressed | widthFraud =>
      rw [previousCoin_skip (by simp)]
      exact dated.fresh none

theorem dated_newSession {record : Record} (dated : Dated record) :
    Dated { record with session := record.session + 1 } where
  past round inside := Nat.le_succ_of_le (dated.past round inside)
  fresh _ := previousCoin_later fun round inside => Nat.lt_succ_of_le (dated.past round inside)

/-- The last pulse that counted, where it is a coin of the slot and session, is the last one. -/
theorem previousCoin_counted {session : Nat} {rounds : List Round} {round : Round}
    (counted : lastCounted rounds = some round) (accepted : round.verdict = .accepted)
    (own : round.reading.pulse.source = .coinslot ∧ round.session = session) :
    previousCoin session rounds = some round.began := by
  induction rounds with
  | nil => cases counted
  | cons first before ih =>
    unfold lastCounted at counted
    split at counted
    · cases counted
      simp [previousCoin, accepted, own]
    · next fraud =>
      cases counted
      rw [fraud] at accepted
      cases accepted
    · cases counted
    all_goals
      next other =>
        rw [previousCoin_skip (by rw [other]; simp)]
        exact ih counted

theorem lastCounted_verdict {rounds : List Round} {round : Round} (counted : lastCounted rounds = some round) :
    round.verdict = .accepted ∨ round.verdict = .intervalFraud := by
  induction rounds with
  | nil => cases counted
  | cons first before ih =>
    unfold lastCounted at counted
    split at counted
    · next accepted => exact .inl (Option.some.inj counted ▸ accepted)
    · next fraud => exact .inr (Option.some.inj counted ▸ fraud)
    · cases counted
    all_goals exact ih counted

/-- A pulse comes clear exactly when what the filter holds is as near as the last coin. -/
theorem clear_iff {record : Record} (dated : Dated record) (onTrial : OnTrial timed.reading) :
    Clear record (.pulse timed) ↔
      ((∃ held ∈ heldPulse record.rounds, FollowsByCounter held timed.began) ↔ CoinNear record timed.began) := by
  simp only [Clear, onTrial, true_imp_iff, heldPulse]
  cases counted : lastCounted record.rounds with
  | none => simp [CoinNear, dated.fresh counted]
  | some round =>
    rcases lastCounted_verdict counted with accepted | fraud
    · simp only [accepted, reduceCtorEq, if_false, if_true, Option.bind_some, Option.mem_some_iff, exists_eq_left']
      by_cases own : round.reading.pulse.source = .coinslot ∧ round.session = record.session
      · rw [if_pos own]
        simp only [CoinNear, previousCoin_counted counted accepted own, Option.mem_some_iff, exists_eq_left']
        exact iff_comm
      · rw [if_neg own]
        split
        · next near => simp [near]
        · next far => simp [far]
    · simp [fraud]

/-! ## The verdicts of both -/

def recordOf (h : History) : Record := { session := h.session, rounds := h.rounds }

theorem step_pulse (h : History) (timed : Timed) :
    ∃ next, step h (.pulse timed) = some next ∧
      recordOf next = judged (recordOf h) timed (judge h.filter timed.reading) := ⟨_, rfl, rfl⟩

/-- The filter gives the verdict that is due exactly to a pulse that comes clear. -/
theorem judge_due (holds : Holds h) (dated : Dated (recordOf h)) :
    judge h.filter timed.reading = due (recordOf h) timed ↔ Clear (recordOf h) (.pulse timed) := by
  by_cases onTrial : OnTrial timed.reading
  · have verdict : judge h.filter timed.reading = .intervalFraud ↔ _ := judge_onTrial onTrial
    rw [tooSoon_iff holds onTrial.source] at verdict
    rw [clear_iff dated onTrial]
    obtain ⟨source, wide, filtered, inside, ready⟩ := onTrial
    have other : judge h.filter timed.reading = .intervalFraud ∨ judge h.filter timed.reading = .accepted := by
      simp only [judge, wide, filtered, inside, ready]
      by_cases soon : TooSoon h.filter.prevAcceptedTimestampMicros timed.reading.pulse <;> simp [soon]
    change _ ↔ ((∃ held ∈ heldPulse h.rounds, _) ↔ _)
    rw [← verdict]
    by_cases near : CoinNear (recordOf h) timed.began
    · have duty : due (recordOf h) timed = .intervalFraud := by simp [due, wide, filtered, inside, ready, source, near]
      rw [duty, iff_true_right near]
    · have duty : due (recordOf h) timed = .accepted := by simp [due, wide, filtered, inside, ready, near]
      rw [duty, iff_false_right near]
      rcases other with fraud | accepted
      · simp [fraud]
      · simp [accepted]
  · refine iff_of_true ?_ fun tried => absurd tried onTrial
    by_contra differs
    refine onTrial ?_
    unfold judge due at differs
    split at differs
    · exact absurd rfl differs
    · next filtered =>
      split at differs
      · exact absurd rfl differs
      · next inside =>
        split at differs
        · exact absurd rfl differs
        · next ready =>
          split at differs
          · exact absurd rfl differs
          · next wide =>
            by_cases source : timed.reading.pulse.source = .coinslot
            · exact ⟨source, wide, by simpa using filtered, by simpa using inside, by simpa using ready⟩
            · simp [TooSoon, source] at differs

/-- The verdict is that of the coins exactly if it is the one that is due. -/
theorem judged_iff_due (holds : Holds h) (dated : Dated (recordOf h)) (before : JudgedByCoins h.rounds)
    (took : step h (.pulse timed) = some next) :
    JudgedByCoins next.rounds ↔ Clear (recordOf h) (.pulse timed) := by
  cases took
  simp only [JudgedByCoins, before, and_true]
  constructor
  · intro judged onTrial
    refine (clear_iff dated onTrial).mpr ?_ onTrial
    change _ ↔ ∃ coin ∈ previousCoin h.session h.rounds, _
    rw [← judged onTrial, judge_onTrial onTrial, tooSoon_iff holds onTrial.source]
    rfl
  · intro clear onTrial
    rw [judge_onTrial onTrial, tooSoon_iff holds onTrial.source]
    exact (clear_iff dated onTrial).mp clear

theorem always_judged_iff (holds : Holds h) (dated : Dated (recordOf h)) (before : JudgedByCoins h.rounds)
    (actions : List Action) :
    Always step (fun h => JudgedByCoins h.rounds) h actions ↔ Throughout dueStep Clear (recordOf h) actions := by
  induction actions generalizing h with
  | nil => exact iff_of_true before trivial
  | cons action rest ih =>
    cases action with
    | newSession =>
      have later := ih (h := { h with session := h.session + 1 }) holds (dated_newSession dated) before
      constructor
      · rintro ⟨-, always⟩
        exact ⟨trivial, fun next taken => Option.some.inj taken ▸ later.mp (always _ rfl)⟩
      · rintro ⟨-, throughout⟩
        exact ⟨before, fun next taken => Option.some.inj taken ▸ later.mpr (throughout _ rfl)⟩
    | pulse timed =>
      obtain ⟨next, taken, same⟩ := step_pulse h timed
      have judged := judged_iff_due holds dated before taken
      by_cases clear : Clear (recordOf h) (.pulse timed)
      · have due : dueStep (recordOf h) (.pulse timed) = some (recordOf next) := by
          rw [same, (judge_due holds dated).mpr clear]
          rfl
        have later := ih (holds_step holds taken) (same ▸ dated_judged dated) (judged.mpr clear)
        constructor
        · rintro ⟨-, always⟩
          refine ⟨clear, fun record reached => ?_⟩
          rw [due] at reached
          exact Option.some.inj reached ▸ later.mp (always next taken)
        · rintro ⟨-, throughout⟩
          refine ⟨before, fun other reached => ?_⟩
          rw [taken] at reached
          exact Option.some.inj reached ▸ later.mpr (throughout _ due)
      · refine iff_of_false ?_ fun throughout => clear throughout.1
        rintro ⟨-, always⟩
        have shown : JudgedByCoins next.rounds :=
          @always_first _ _ step (fun h => JudgedByCoins h.rounds) _ _ (always next taken)
        exact clear (judged.mp shown)

/-- In any run of pulses and sessions, every slot pulse of adequate width is rejected for
    its interval exactly if it follows a coin of its own slot and session too soon, if
    and only if every one comes clear. -/
theorem interval_judged_iff (actions : List Action) :
    Always step (fun h => JudgedByCoins h.rounds) boot actions ↔ Throughout dueStep Clear noPulses actions :=
  always_judged_iff (h := boot) rfl ⟨List.forall_mem_nil _, fun _ => rfl⟩ trivial actions

/-- A pulse after a coin of its slot and session, with nothing between that counts, comes
    clear while the counter has not come round. -/
theorem clear_of_coin {record : Record} {coin : Round} (counted : lastCounted record.rounds = some coin)
    (accepted : coin.verdict = .accepted)
    (own : coin.reading.pulse.source = .coinslot ∧ coin.session = record.session)
    (recent : coin.began ≤ timed.began ∧ timed.began < coin.began + 2 ^ 32 ∧ coin.began % 2 ^ 32 ≠ 0) :
    Clear record (.pulse timed) := by
  intro _
  rw [counted]
  simp only [accepted, reduceCtorEq, if_false, own, and_self, if_true]
  obtain ⟨earlier, period, nonzero⟩ := recent
  unfold FollowsByCounter Follows minPulseIntervalMicros
  omega

end

/-! ## A coin after another slot's -/

def inWindow (source : CoinPulseSource) (began : Nat) (mac : String) : Action :=
  .pulse
    { reading :=
        { pulse := { source, widthMicros := 20000, timestampMicros := UInt32.ofNat began, mac }
          bootTestRunning := false, shouldAcceptCoins := true, booting := false }
      began, stamped := rfl }

/-- The first coin of the master's slot is rejected, since a slave has reported one of
    its own 50 ms before. -/
theorem slave_coin_mistaken :
    ∃ h, run step boot [inWindow .network 1000000 "BB", inWindow .coinslot 1050000 ""] = some h ∧
      h.rounds.map (·.verdict) = [.intervalFraud, .accepted] ∧ previousCoin 0 h.rounds = none ∧
        ¬ JudgedByCoins h.rounds := by
  refine ⟨_, rfl, by decide, by decide, fun judged => ?_⟩
  obtain ⟨coin, before, -⟩ := (judged.1 ⟨rfl, by decide, rfl, rfl, rfl⟩).mp (by decide)
  exact absurd (Option.isSome_of_mem before) (by decide)

end EllaFi.IntervalFilter
