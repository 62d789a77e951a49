import EllaFi.IntervalFilter
import EllaFi.Lockstep

/-!
The replay of a simulated coin signal. `cosim_replay.py` takes the edges of a waveform, with
their times in seconds, through its own copy of the interrupt and the filters of
`coinPulseTask`. The copy measures an interval from rising edge to rising edge, where the
firmware measures from falling edge to falling edge, and it does not cut times off to the
micros and millis of the firmware. The two decide the same about every pulse exactly where
neither changes the outcome of a test (`replay_iff`).
-/
namespace EllaFi.CosimReplay
open EllaFi.CoinTasks EllaFi.IntervalFilter
open EllaFi.Lockstep (trace last EachInput last_shows trace_inputs trace_outputs trace_view trace_eq_iff)

/-! ## Edges -/

inductive EdgeKind where
  | fall
  | rise
deriving DecidableEq, Repr

structure Edge (Time : Type) where
  time : Time
  kind : EdgeKind

structure Pulse (Time : Type) where
  fall : Time
  rise : Time

/-- What is decided about a pulse. -/
inductive Decision where
  | judged (verdict : Verdict)
  | aborted
deriving DecidableEq, Repr

/-! ## The replay -/

/-- What `firmware_constants` finds in `globals.h`. -/
structure Constants where
  widthMinMicros : Nat
  intervalMinMillis : Nat
  bootSuppressMillis : Nat
  maxFraud : Nat

def firmwareConstants : Constants where
  widthMinMicros := coinslotMinPulseWidthMicros.toNat
  intervalMinMillis := coinslotMinPulseIntervalMillis.toNat
  bootSuppressMillis := coinslotBootSuppressMillis.toNat
  maxFraud := coinslotMaxFraudPerSession

/-- The texts of the events; two of them count the rejects. -/
inductive Message where
  | discarded
  | suppressed
  | rejectedWidth (fraud : Nat)
  | rejectedInterval (fraud : Nat)
  | aborted
  | accepted

def Message.decision : Message → Decision
  | .discarded => .judged .outside
  | .suppressed => .judged .suppressed
  | .rejectedWidth _ => .judged .widthFraud
  | .rejectedInterval _ => .judged .intervalFraud
  | .aborted => .aborted
  | .accepted => .judged .accepted

structure Event (Time : Type) where
  time : Time
  message : Message
  widthMicros : Time

def Event.decided {Time : Type} (event : Event Time) : Time × Decision := (event.time, event.message.decision)

def Event.accepts {Time : Type} (event : Event Time) : Option Time :=
  if event.message.decision = .judged .accepted then some event.time else none

/-- The variables of the second loop. -/
structure Replay (Time : Type) where
  accepted : List Time
  fraud : Nat
  aborted : Bool
  prevAcceptMicros : Option Time

section
variable {Time : Type} [Sub Time] [Mul Time] [NatCast Time]

def micro (time : Time) : Time := time * (1000000 : Nat)

/-- The first loop: every rising edge after a falling one queues its time and the width. -/
def queued : Option Time → List (Edge Time) → List (Time × Time)
  | _, [] => []
  | fallTime, ⟨tt, kind⟩ :: rest =>
    match kind, fallTime with
    | .fall, _ => queued (some tt) rest
    | .rise, some fall => (tt, micro (tt - fall)) :: queued none rest
    | .rise, none => queued none rest

variable [Add Time] [Div Time] [LT Time] [DecidableLT Time] [LE Time] [DecidableLE Time]
variable (C : Constants) (sessionStart sessionEnd : Time)

def readyTime : Time := sessionStart + (C.bootSuppressMillis : Time) / (1000 : Nat)

/-- A rejected pulse ends the session when it was one too many. -/
def rejected (s : Replay Time) (message : Nat → Message) (tt widthMicros : Time) : Replay Time × List (Event Time) :=
  let fraud := s.fraud + 1
  let event : Event Time := ⟨tt, message fraud, widthMicros⟩
  if C.maxFraud ≤ fraud then ({ s with fraud, aborted := true }, [event, ⟨tt, .aborted, (0 : Nat)⟩])
  else ({ s with fraud }, [event])

/-- The pulse comes too soon after the rising edge of the last accepted one. -/
def TooNear (s : Replay Time) (tt : Time) : Prop :=
  ∃ prev ∈ s.prevAcceptMicros, micro tt - prev < ((C.intervalMinMillis * 1000 : Nat) : Time)

instance (s : Replay Time) (tt : Time) : Decidable (TooNear C s tt) :=
  inferInstanceAs (Decidable (∃ prev ∈ s.prevAcceptMicros, micro tt - prev < ((C.intervalMinMillis * 1000 : Nat) : Time)))

/-- The body of the second loop. -/
def replayPulse (s : Replay Time) (pulse : Time × Time) : Replay Time × List (Event Time) :=
  let (tt, widthMicros) := pulse
  if s.aborted ∨ ¬ (sessionStart ≤ tt ∧ tt ≤ sessionEnd) then (s, [⟨tt, .discarded, widthMicros⟩])
  else if tt < readyTime C sessionStart then (s, [⟨tt, .suppressed, widthMicros⟩])
  else if widthMicros < (C.widthMinMicros : Time) then rejected C s .rejectedWidth tt widthMicros
  else if TooNear C s tt then rejected C { s with prevAcceptMicros := none } .rejectedInterval tt widthMicros
  else ({ s with prevAcceptMicros := some (micro tt), accepted := s.accepted ++ [tt] }, [⟨tt, .accepted, widthMicros⟩])

def newReplay : Replay Time := { accepted := [], fraud := 0, aborted := false, prevAcceptMicros := none }

def replay (edges : List (Edge Time)) : List Time × List (Event Time) × Nat × Bool :=
  let s := last (replayPulse C sessionStart sessionEnd) newReplay (queued none edges)
  (s.accepted, trace (replayPulse C sessionStart sessionEnd) newReplay (queued none edges), s.fraud, s.aborted)

omit [Sub Time] [Mul Time] [Add Time] [Div Time] [LT Time] [DecidableLT Time] [LE Time] [DecidableLE Time] in
theorem rejected_accepts (t : Replay Time) {message : Nat → Message} (tt widthMicros : Time)
    (rejects : ∀ fraud, (message fraud).decision ≠ .judged .accepted) :
    (rejected C t message tt widthMicros).1.accepted =
      t.accepted ++ (rejected C t message tt widthMicros).2.filterMap Event.accepts := by
  have refused : Event.accepts ⟨tt, message (t.fraud + 1), widthMicros⟩ = none := if_neg (rejects _)
  have ended : Event.accepts ⟨tt, .aborted, ((0 : Nat) : Time)⟩ = none := rfl
  by_cases limit : C.maxFraud ≤ t.fraud + 1 <;> simp [rejected, limit, refused, ended]

/-- The times that the replay returns are those of the accepted pulses. -/
theorem replay_accepted (edges : List (Edge Time)) :
    (replay C sessionStart sessionEnd edges).1 =
      (replay C sessionStart sessionEnd edges).2.1.filterMap Event.accepts := by
  refine last_shows Replay.accepted Event.accepts (fun t pulse => ?_) newReplay (queued none edges)
  obtain ⟨tt, widthMicros⟩ := pulse
  simp only [replayPulse]
  split_ifs
  · simp [Event.accepts, Message.decision]
  · simp [Event.accepts, Message.decision]
  · exact rejected_accepts C t _ _ nofun
  · exact rejected_accepts C { t with prevAcceptMicros := none } _ _ nofun
  · simp [Event.accepts, Message.decision]

end

/-! ## The firmware -/

/-- The interrupt, with the fall time that it keeps; 0 is none. -/
def coinSlotPulse (now : UInt32) (low : Bool) (coinslotFallTime : UInt32) : UInt32 × Option CoinPulse :=
  if low then (now, none)
  else
    (0, if 0 < coinslotFallTime then
      some { source := .coinslot, widthMicros := now - coinslotFallTime, timestampMicros := coinslotFallTime, mac := "" }
    else none)

/-- What `coinPulseTask` keeps, and whether the session still accepts coins. -/
structure Device where
  filter : Filter
  coinInsertActive : Bool

def Device.reads (d : Device) (readyMillis millis : UInt32) (pulse : CoinPulse) : Reading where
  pulse := pulse
  bootTestRunning := false
  shouldAcceptCoins := d.coinInsertActive
  booting := millis < readyMillis

/-- `coinPulseTask` judges a pulse on the master; at the fraud limit the session is ended
    before the next one. -/
def coinPulse (readyMillis millis : UInt32) (d : Device) (pulse : CoinPulse) : Device × List Decision :=
  let verdict := judge d.filter (d.reads readyMillis millis pulse)
  let filter := handle d.filter (d.reads readyMillis millis pulse)
  if (verdict = .widthFraud ∨ verdict = .intervalFraud) ∧ coinslotMaxFraudPerSession ≤ filter.fraudCountThisSession then
    ({ filter, coinInsertActive := false }, [.judged verdict, .aborted])
  else ({ d with filter }, [.judged verdict])

/-- The interrupt's variable and the task. -/
structure Board where
  coinslotFallTime : UInt32
  device : Device

def newDevice : Device := { filter := newFilter, coinInsertActive := true }

section
variable {Time : Type} (micros millis : Time → Nat) (sessionStart : Time)

/-- `COIN_SLOT_READY_MILLIS` -/
def readyMillis : UInt32 := UInt32.ofNat (millis sessionStart) + coinslotBootSuppressMillis

/-- A pulse is handled at its rising edge. -/
def edge (b : Board) (e : Edge Time) : Board × List (Time × Decision) :=
  let sent := coinSlotPulse (UInt32.ofNat (micros e.time)) (e.kind = .fall) b.coinslotFallTime
  match sent.2 with
  | none => ({ b with coinslotFallTime := sent.1 }, [])
  | some pulse =>
    let handled := coinPulse (readyMillis millis sessionStart) (UInt32.ofNat (millis e.time)) b.device pulse
    ({ coinslotFallTime := sent.1, device := handled.1 }, handled.2.map fun decision => (e.time, decision))

def firmware (edges : List (Edge Time)) : List (Time × Decision) :=
  trace (edge micros millis sessionStart) { coinslotFallTime := 0, device := newDevice } edges

/-! ## Pulses -/

/-- The edges in pairs. -/
def pulses : Option Time → List (Edge Time) → List (Pulse Time)
  | _, [] => []
  | fall, ⟨time, kind⟩ :: rest =>
    match kind, fall with
    | .fall, _ => pulses (some time) rest
    | .rise, some fall => ⟨fall, time⟩ :: pulses none rest
    | .rise, none => pulses none rest

/-- What the interrupt sends for it. -/
def Pulse.sent (p : Pulse Time) : CoinPulse where
  source := .coinslot
  widthMicros := UInt32.ofNat (micros p.rise) - UInt32.ofNat (micros p.fall)
  timestampMicros := UInt32.ofNat (micros p.fall)
  mac := ""

def devicePulse (d : Device) (p : Pulse Time) : Device × List (Time × Decision) :=
  let handled := coinPulse (readyMillis millis sessionStart) (UInt32.ofNat (millis p.rise)) d (p.sent micros)
  (handled.1, handled.2.map fun decision => (p.rise, decision))

def firmwareVerdict (d : Device) (p : Pulse Time) : Verdict :=
  judge d.filter (d.reads (readyMillis millis sessionStart) (UInt32.ofNat (millis p.rise)) (p.sent micros))

/-- The coin whose timestamp the filter keeps is watched as well. -/
def watched (s : Device × Option (Pulse Time)) (p : Pulse Time) :
    (Device × Option (Pulse Time)) × List (Time × Decision) :=
  let handled := devicePulse micros millis sessionStart s.1 p
  let held := match firmwareVerdict micros millis sessionStart s.1 p with
    | .accepted => some p
    | .intervalFraud | .outside => none
    | .captured | .suppressed | .widthFraud => s.2
  ((handled.1, held), handled.2)

variable {edges : List (Edge Time)} {p : Pulse Time}

theorem queued_pulses [Sub Time] [Mul Time] [NatCast Time] (fall : Option Time) (edges : List (Edge Time)) :
    queued fall edges = (pulses fall edges).map fun p => (p.rise, micro (p.rise - p.fall)) := by
  induction edges generalizing fall with
  | nil => rfl
  | cons e rest ih =>
    obtain ⟨time, kind⟩ := e
    cases kind with
    | fall => simp only [queued, pulses, ih]
    | rise => cases fall <;> simp only [queued, pulses, ih, List.map_cons]

theorem firmware_pulses (fall : Option Time) (d : Device) (shown : ∀ time ∈ fall, 0 < UInt32.ofNat (micros time))
    (nonzero : ∀ e ∈ edges, 0 < UInt32.ofNat (micros e.time)) :
    trace (edge micros millis sessionStart)
        { coinslotFallTime := (fall.map fun time => UInt32.ofNat (micros time)).getD 0, device := d } edges =
      trace (devicePulse micros millis sessionStart) d (pulses fall edges) := by
  induction edges generalizing fall d with
  | nil => rfl
  | cons e rest ih =>
    obtain ⟨here, later⟩ := List.forall_mem_cons.mp nonzero
    obtain ⟨time, kind⟩ := e
    cases kind with
    | fall =>
      have after := ih (some time) d (by simpa using here) later
      simpa [trace, edge, coinSlotPulse, pulses] using after
    | rise =>
      cases fall with
      | none =>
        have after := ih none d (by simp) later
        simpa [trace, edge, coinSlotPulse, pulses] using after
      | some begun =>
        have positive : 0 < UInt32.ofNat (micros begun) := shown begun rfl
        have after (d : Device) := ih none d (by simp) later
        simp only [Option.map_none, Option.getD_none] at after
        simp [trace, edge, coinSlotPulse, pulses, positive, after, devicePulse, Pulse.sent]

theorem mem_pulses {fall : Option Time} (inside : p ∈ pulses fall edges) :
    (p.fall ∈ fall ∨ ∃ e ∈ edges, e.time = p.fall) ∧ ∃ e ∈ edges, e.time = p.rise := by
  induction edges generalizing fall with
  | nil => cases inside
  | cons e rest ih =>
    obtain ⟨time, kind⟩ := e
    cases kind with
    | fall =>
      obtain ⟨began, e, later, ended⟩ := @ih (some time) inside
      refine ⟨.inr ?_, e, List.mem_cons_of_mem _ later, ended⟩
      rcases began with here | ⟨e, later, began⟩
      · exact ⟨_, List.mem_cons_self, Option.mem_some_iff.mp here⟩
      · exact ⟨e, List.mem_cons_of_mem _ later, began⟩
    | rise =>
      have behind (inside : p ∈ pulses none rest) :
          (p.fall ∈ fall ∨ ∃ e ∈ ⟨time, .rise⟩ :: rest, e.time = p.fall) ∧
            ∃ e ∈ ⟨time, .rise⟩ :: rest, e.time = p.rise := by
        obtain ⟨began, e, later, ended⟩ := ih inside
        obtain ⟨e', later', began⟩ := began.resolve_left (by simp)
        exact ⟨.inr ⟨e', List.mem_cons_of_mem _ later', began⟩, e, List.mem_cons_of_mem _ later, ended⟩
      cases fall with
      | none => exact behind inside
      | some begun =>
        rcases List.mem_cons.mp inside with rfl | later
        · exact ⟨.inl rfl, _, List.mem_cons_self, rfl⟩
        · exact behind later

/-- Pulses begin and end in the order of the edges. -/
theorem pulses_ordered {fall : Option Time} (before : ∀ time ∈ fall, ∀ e ∈ edges, micros time ≤ micros e.time)
    (ordered : edges.Pairwise fun earlier later => micros earlier.time ≤ micros later.time) :
    (∀ p ∈ pulses fall edges, micros p.fall ≤ micros p.rise) ∧
      (pulses fall edges).Pairwise fun earlier later => micros earlier.fall ≤ micros later.fall := by
  induction edges generalizing fall with
  | nil => exact ⟨List.forall_mem_nil _, List.Pairwise.nil⟩
  | cons e rest ih =>
    obtain ⟨time, kind⟩ := e
    obtain ⟨first, others⟩ := List.pairwise_cons.mp ordered
    cases kind with
    | fall => exact @ih (some time) (fun _ same => Option.mem_some_iff.mp same ▸ first) others
    | rise =>
      have behind := @ih none (by simp) others
      cases fall with
      | none => exact behind
      | some begun =>
        refine ⟨List.forall_mem_cons.mpr ⟨before begun rfl _ List.mem_cons_self, behind.1⟩,
          List.pairwise_cons.mpr ⟨fun q later => ?_, behind.2⟩⟩
        obtain ⟨e, inside, began⟩ := (mem_pulses later).1.resolve_left (by simp)
        exact began ▸ before begun rfl e (List.mem_cons_of_mem _ inside)

end

/-! ## The timers -/

section
variable {Time : Type} [LE Time] {micros millis : Time → Nat} {sessionStart sessionEnd : Time} {edges : List (Edge Time)}
  {p : Pulse Time}

/-- All edges are in the session, and no timer is zero or wraps. -/
structure WithinSession (micros millis : Time → Nat) (sessionStart sessionEnd : Time) (edges : List (Edge Time)) : Prop where
  inside : ∀ e ∈ edges, sessionStart ≤ e.time ∧ e.time ≤ sessionEnd
  ordered : edges.Pairwise fun earlier later => micros earlier.time ≤ micros later.time
  nonzero : ∀ e ∈ edges, 0 < micros e.time
  microsFit : ∀ e ∈ edges, micros e.time < 2 ^ 32
  millisFit : ∀ e ∈ edges, millis e.time < 2 ^ 32
  readyFits : millis sessionStart + firmwareConstants.bootSuppressMillis < 2 ^ 32

structure Timely (micros millis : Time → Nat) (sessionStart sessionEnd : Time) (p : Pulse Time) : Prop where
  inside : sessionStart ≤ p.rise ∧ p.rise ≤ sessionEnd
  nonzero : 0 < micros p.fall
  ordered : micros p.fall ≤ micros p.rise
  microsFit : micros p.rise < 2 ^ 32
  millisFit : millis p.rise < 2 ^ 32
  readyFits : millis sessionStart + firmwareConstants.bootSuppressMillis < 2 ^ 32

theorem pulses_timely (within : WithinSession micros millis sessionStart sessionEnd edges) (inside : p ∈ pulses none edges) :
    Timely micros millis sessionStart sessionEnd p := by
  obtain ⟨began, rise, risen, ended⟩ := mem_pulses inside
  obtain ⟨fall, fallen, began⟩ := began.resolve_left (by simp)
  exact
    { inside := ended ▸ within.inside rise risen
      nonzero := began ▸ within.nonzero fall fallen
      ordered := (pulses_ordered micros (by simp) within.ordered).1 p inside
      microsFit := ended ▸ within.microsFit rise risen
      millisFit := ended ▸ within.millisFit rise risen
      readyFits := within.readyFits }

/-- The pulse comes before the acceptor is ready. -/
def Booting (millis : Time → Nat) (sessionStart : Time) (p : Pulse Time) : Prop :=
  millis p.rise < millis sessionStart + firmwareConstants.bootSuppressMillis

def Narrow (micros : Time → Nat) (p : Pulse Time) : Prop := micros p.rise - micros p.fall < firmwareConstants.widthMinMicros

/-- It began too soon after another one. -/
def Near (micros : Time → Nat) (coin p : Pulse Time) : Prop :=
  micros p.fall - micros coin.fall < firmwareConstants.intervalMinMillis * 1000

theorem booting_iff (timely : Timely micros millis sessionStart sessionEnd p) :
    UInt32.ofNat (millis p.rise) < readyMillis millis sessionStart ↔ Booting millis sessionStart p := by
  have fits := timely.millisFit
  have ready := timely.readyFits
  have suppress : firmwareConstants.bootSuppressMillis = coinslotBootSuppressMillis.toNat := rfl
  rw [UInt32.lt_iff_toNat_lt, readyMillis, UInt32.toNat_add, UInt32.toNat_ofNat', UInt32.toNat_ofNat', ← suppress,
    Nat.mod_eq_of_lt fits, Nat.mod_eq_of_lt (show millis sessionStart < 2 ^ 32 by omega), Nat.mod_eq_of_lt ready]
  exact Iff.rfl

theorem toNat_between {earlier later : Nat} (ordered : earlier ≤ later) (fits : later < 2 ^ 32) :
    (UInt32.ofNat later - UInt32.ofNat earlier).toNat = later - earlier := by
  rw [UInt32.toNat_sub, UInt32.toNat_ofNat', UInt32.toNat_ofNat']
  omega

theorem tooShort_iff (timely : Timely micros millis sessionStart sessionEnd p) :
    TooShort (p.sent micros) ↔ Narrow micros p := by
  have slot : (p.sent micros).source = .coinslot ∨ (p.sent micros).source = .button := .inl rfl
  rw [TooShort, and_iff_right slot, UInt32.lt_iff_toNat_lt, Pulse.sent, toNat_between timely.ordered timely.microsFit]
  exact Iff.rfl

theorem tooSoon_iff {coin : Pulse Time} (timely : Timely micros millis sessionStart sessionEnd p)
    (nonzero : 0 < micros coin.fall) (before : micros coin.fall ≤ micros p.fall) :
    TooSoon (UInt32.ofNat (micros coin.fall)) (p.sent micros) ↔ Near micros coin p := by
  have ordered := timely.ordered
  have fits := timely.microsFit
  have shown : 0 < UInt32.ofNat (micros coin.fall) := by
    rw [UInt32.lt_iff_toNat_lt, UInt32.toNat_ofNat', Nat.mod_eq_of_lt (by omega)]
    exact nonzero
  have slot : (p.sent micros).source = .coinslot := rfl
  rw [TooSoon, and_iff_right slot, and_iff_right shown, UInt32.lt_iff_toNat_lt, Pulse.sent,
    toNat_between before (by omega)]
  exact Iff.rfl

end

/-! ## The two in step -/

/-- The tests inside a session, in their order. -/
def sift (booting narrow near : Prop) [Decidable booting] [Decidable narrow] [Decidable near] : Verdict :=
  if booting then .suppressed else if narrow then .widthFraud else if near then .intervalFraud else .accepted

theorem sift_eq_iff {b n i b' n' i' : Prop} [Decidable b] [Decidable n] [Decidable i] [Decidable b'] [Decidable n']
    [Decidable i'] : sift b n i = sift b' n' i' ↔ (b ↔ b') ∧ (¬ b → (n ↔ n') ∧ (¬ n → (i ↔ i'))) := by
  unfold sift
  split_ifs <;> simp [*]

theorem firmwareVerdict_eq {Time : Type} {micros millis : Time → Nat} {sessionStart : Time} {d : Device} {p : Pulse Time} :
    firmwareVerdict micros millis sessionStart d p =
      if d.coinInsertActive then
        sift (UInt32.ofNat (millis p.rise) < readyMillis millis sessionStart) (TooShort (p.sent micros))
          (TooSoon d.filter.prevAcceptedTimestampMicros (p.sent micros))
      else .outside := by
  cases active : d.coinInsertActive <;> simp [firmwareVerdict, judge, Device.reads, active, sift]

section
variable {Time : Type} [Mul Time] [NatCast Time] [LE Time] {micros millis : Time → Nat} {sessionStart sessionEnd : Time}

/-- What links the device and the replay while they have decided the same, before the
    pulses that are still to come. -/
structure Related (micros millis : Time → Nat) (sessionStart sessionEnd : Time) (s : Device × Option (Pulse Time))
    (t : Replay Time) (rest : List (Pulse Time)) : Prop where
  active : s.1.coinInsertActive = !t.aborted
  fraud : t.aborted = false → s.1.filter.fraudCountThisSession = t.fraud
  prev : t.aborted = false → t.prevAcceptMicros = s.2.map fun coin => micro coin.rise
  held : s.1.filter.prevAcceptedTimestampMicros = UInt32.ofNat ((s.2.map fun coin => micros coin.fall).getD 0)
  heldBefore : ∀ coin ∈ s.2, 0 < micros coin.fall ∧ ∀ p ∈ rest, micros coin.fall ≤ micros p.fall
  timely : ∀ p ∈ rest, Timely micros millis sessionStart sessionEnd p
  ordered : rest.Pairwise fun earlier later => micros earlier.fall ≤ micros later.fall

variable {s : Device × Option (Pulse Time)} {t : Replay Time} {p : Pulse Time} {rest : List (Pulse Time)}

theorem related_tail (related : Related micros millis sessionStart sessionEnd s t (p :: rest)) :
    Related micros millis sessionStart sessionEnd s t rest :=
  { related with
    heldBefore := fun coin held =>
      ⟨(related.heldBefore coin held).1, (List.forall_mem_cons.mp (related.heldBefore coin held).2).2⟩
    timely := (List.forall_mem_cons.mp related.timely).2
    ordered := (List.pairwise_cons.mp related.ordered).2 }

theorem related_aborted (related : Related micros millis sessionStart sessionEnd s t rest) :
    Related micros millis sessionStart sessionEnd ({ s.1 with coinInsertActive := false }, s.2)
      { t with aborted := true } rest where
  active := rfl
  fraud := nofun
  prev := nofun
  held := related.held
  heldBefore := related.heldBefore
  timely := related.timely
  ordered := related.ordered

theorem related_start {edges : List (Edge Time)} (within : WithinSession micros millis sessionStart sessionEnd edges) :
    Related micros millis sessionStart sessionEnd (newDevice, none) newReplay (pulses none edges) where
  active := rfl
  fraud := fun _ => rfl
  prev := fun _ => rfl
  held := rfl
  heldBefore := nofun
  timely := fun _ => pulses_timely within
  ordered := (pulses_ordered micros (by simp) within.ordered).2

theorem held_near (related : Related micros millis sessionStart sessionEnd s t (p :: rest)) :
    TooSoon s.1.filter.prevAcceptedTimestampMicros (p.sent micros) ↔ ∃ coin ∈ s.2, Near micros coin p := by
  rw [related.held]
  have timely := related.timely p List.mem_cons_self
  cases held : s.2 with
  | none => simp [TooSoon]
  | some coin =>
    obtain ⟨nonzero, before⟩ := related.heldBefore coin held
    simpa using tooSoon_iff timely nonzero (before p List.mem_cons_self)

variable [Add Time] [Sub Time] [Div Time] [LT Time]

/-- The replay's test of an interval. -/
def RisesNear (coin p : Pulse Time) : Prop :=
  micro p.rise - micro coin.rise < ((firmwareConstants.intervalMinMillis * 1000 : Nat) : Time)

/-- Before the session is aborted, cutting off the times and measuring an interval from the
    other edge change no test that the pulse comes to. -/
def Alike (micros millis : Time → Nat) (sessionStart : Time) (s : Device × Option (Pulse Time)) (p : Pulse Time) : Prop :=
  s.1.coinInsertActive →
    (Booting millis sessionStart p ↔ p.rise < readyTime firmwareConstants sessionStart) ∧
    (¬ Booting millis sessionStart p →
      (Narrow micros p ↔ micro (p.rise - p.fall) < (firmwareConstants.widthMinMicros : Time)) ∧
      (¬ Narrow micros p → ∀ coin ∈ s.2, (Near micros coin p ↔ RisesNear coin p)))

variable [DecidableLT Time]

/-- The verdict of the replay inside the session. -/
def replayVerdict (sessionStart : Time) (t : Replay Time) (p : Pulse Time) : Verdict :=
  if t.aborted then .outside
  else
    sift (p.rise < readyTime firmwareConstants sessionStart)
      (micro (p.rise - p.fall) < (firmwareConstants.widthMinMicros : Time)) (TooNear firmwareConstants t p.rise)

omit [LE Time] in
theorem replayVerdict_outside : replayVerdict sessionStart t p = .outside ↔ t.aborted := by
  unfold replayVerdict sift
  split_ifs <;> simp [*]

/-- The verdicts are the same exactly where the tests are. -/
theorem verdict_eq_iff (related : Related micros millis sessionStart sessionEnd s t (p :: rest)) :
    firmwareVerdict micros millis sessionStart s.1 p = replayVerdict sessionStart t p ↔
      Alike micros millis sessionStart s p := by
  have timely := related.timely p List.mem_cons_self
  rw [firmwareVerdict_eq, replayVerdict, Alike, related.active]
  cases aborted : t.aborted with
  | true => simp
  | false =>
    have near : TooNear firmwareConstants t p.rise ↔ ∃ coin ∈ s.2, RisesNear coin p := by
      rw [TooNear, related.prev aborted]
      simp [RisesNear]
    have each : ((∃ coin ∈ s.2, Near micros coin p) ↔ ∃ coin ∈ s.2, RisesNear coin p) ↔
        ∀ coin ∈ s.2, (Near micros coin p ↔ RisesNear coin p) := by
      cases s.2 <;> simp
    simp only [Bool.not_false, if_true, Bool.false_eq_true, if_false, true_imp_iff, sift_eq_iff, booting_iff timely,
      tooShort_iff timely, held_near related, near, each]

end

/-- A reject that was one too many ends the session. -/
def OneTooMany (verdict : Verdict) (fraudCount : Nat) : Prop :=
  (verdict = .widthFraud ∨ verdict = .intervalFraud) ∧ firmwareConstants.maxFraud ≤ fraudCount

instance (verdict : Verdict) (fraudCount : Nat) : Decidable (OneTooMany verdict fraudCount) :=
  inferInstanceAs (Decidable (_ ∧ _))

section
variable {Time : Type} {micros millis : Time → Nat} {sessionStart sessionEnd : Time}
  {s : Device × Option (Pulse Time)} {p : Pulse Time}

/-- The device after a verdict, and the coin whose timestamp it keeps. -/
def deviceAfter (micros : Time → Nat) (s : Device × Option (Pulse Time)) (p : Pulse Time) :
    Verdict → Device × Option (Pulse Time)
  | .captured | .suppressed => s
  | .outside => ({ s.1 with filter := newFilter }, none)
  | .widthFraud =>
    ({ s.1 with filter.fraudCountThisSession := s.1.filter.fraudCountThisSession + 1 }, s.2)
  | .intervalFraud =>
    ({ s.1 with
        filter := { prevAcceptedTimestampMicros := 0, fraudCountThisSession := s.1.filter.fraudCountThisSession + 1 } },
      none)
  | .accepted => ({ s.1 with filter.prevAcceptedTimestampMicros := UInt32.ofNat (micros p.fall) }, some p)

theorem watched_eq {verdict : Verdict} (judged : firmwareVerdict micros millis sessionStart s.1 p = verdict) :
    watched micros millis sessionStart s p =
      if OneTooMany verdict (deviceAfter micros s p verdict).1.filter.fraudCountThisSession then
        (({ (deviceAfter micros s p verdict).1 with coinInsertActive := false }, (deviceAfter micros s p verdict).2),
          [(p.rise, .judged verdict), (p.rise, .aborted)])
      else (deviceAfter micros s p verdict, [(p.rise, .judged verdict)]) := by
  have same : judge s.1.filter
      (s.1.reads (readyMillis millis sessionStart) (UInt32.ofNat (millis p.rise)) (p.sent micros)) = verdict := judged
  unfold watched devicePulse coinPulse handle OneTooMany
  rw [judged, same]
  cases verdict with
  | captured | suppressed | outside | accepted => rfl
  | widthFraud | intervalFraud =>
    simp only [firmwareConstants, deviceAfter]
    split <;> simp_all

end

section
variable {Time : Type} [Mul Time] [NatCast Time] [LE Time] [Add Time] [Sub Time] [Div Time] [LT Time] [DecidableLT Time]
  [DecidableLE Time] {micros millis : Time → Nat} {sessionStart sessionEnd : Time} {s : Device × Option (Pulse Time)}
  {t : Replay Time} {p : Pulse Time} {rest : List (Pulse Time)}

def replayAfter (t : Replay Time) (p : Pulse Time) : Verdict → Replay Time
  | .captured | .suppressed | .outside => t
  | .widthFraud => { t with fraud := t.fraud + 1 }
  | .intervalFraud => { t with fraud := t.fraud + 1, prevAcceptMicros := none }
  | .accepted => { t with prevAcceptMicros := some (micro p.rise), accepted := t.accepted ++ [p.rise] }

/-- The second loop for the pulse, as its verdicts and aborts. -/
def replayed (sessionStart sessionEnd : Time) (t : Replay Time) (p : Pulse Time) : Replay Time × List (Time × Decision) :=
  let after := replayPulse firmwareConstants sessionStart sessionEnd t (p.rise, micro (p.rise - p.fall))
  (after.1, after.2.map Event.decided)

theorem replayed_eq {verdict : Verdict} (inside : sessionStart ≤ p.rise ∧ p.rise ≤ sessionEnd)
    (judged : replayVerdict sessionStart t p = verdict) :
    replayed sessionStart sessionEnd t p =
      if OneTooMany verdict (replayAfter t p verdict).fraud then
        ({ replayAfter t p verdict with aborted := true }, [(p.rise, .judged verdict), (p.rise, .aborted)])
      else (replayAfter t p verdict, [(p.rise, .judged verdict)]) := by
  subst judged
  unfold replayed
  by_cases aborted : t.aborted
  · simp [replayPulse, replayVerdict, aborted, OneTooMany, replayAfter, Event.decided, Message.decision]
  by_cases booting : p.rise < readyTime firmwareConstants sessionStart
  · simp [replayPulse, replayVerdict, sift, inside, aborted, booting, OneTooMany, replayAfter, Event.decided,
      Message.decision]
  by_cases narrow : micro (p.rise - p.fall) < (firmwareConstants.widthMinMicros : Time)
  · by_cases limit : firmwareConstants.maxFraud ≤ t.fraud + 1 <;>
      simp [replayPulse, replayVerdict, sift, rejected, inside, aborted, booting, narrow, limit, OneTooMany, replayAfter,
        Event.decided, Message.decision]
  by_cases near : TooNear firmwareConstants t p.rise
  · by_cases limit : firmwareConstants.maxFraud ≤ t.fraud + 1 <;>
      simp [replayPulse, replayVerdict, sift, rejected, inside, aborted, booting, narrow, near, limit, OneTooMany,
        replayAfter, Event.decided, Message.decision]
  · simp [replayPulse, replayVerdict, sift, inside, aborted, booting, narrow, near, OneTooMany, replayAfter,
      Event.decided, Message.decision]

omit [DecidableLE Time]

/-- The same verdict keeps the two in step. -/
theorem related_after (related : Related micros millis sessionStart sessionEnd s t (p :: rest)) {verdict : Verdict}
    (judged : replayVerdict sessionStart t p = verdict) :
    Related micros millis sessionStart sessionEnd (deviceAfter micros s p verdict) (replayAfter t p verdict) rest := by
  have tail := related_tail related
  cases verdict with
  | captured | suppressed => exact tail
  | outside =>
    have aborted := replayVerdict_outside.mp judged
    exact
      { tail with
        fraud := fun going => by simp [replayAfter, aborted] at going
        prev := fun going => by simp [replayAfter, aborted] at going
        held := rfl
        heldBefore := nofun }
  | widthFraud => exact { tail with fraud := fun going => congrArg (· + 1) (tail.fraud going) }
  | intervalFraud =>
    exact
      { tail with
        fraud := fun going => congrArg (· + 1) (tail.fraud going)
        prev := fun _ => rfl
        held := rfl
        heldBefore := nofun }
  | accepted =>
    have timely := related.timely p List.mem_cons_self
    exact
      { tail with
        prev := fun _ => rfl
        held := rfl
        heldBefore := by
          rintro coin ⟨⟩
          exact ⟨timely.nonzero, (List.pairwise_cons.mp related.ordered).1⟩ }

/-- A reject is one too many for both. -/
theorem oneTooMany_iff (related : Related micros millis sessionStart sessionEnd s t (p :: rest)) {verdict : Verdict}
    (judged : replayVerdict sessionStart t p = verdict) :
    OneTooMany verdict (deviceAfter micros s p verdict).1.filter.fraudCountThisSession ↔
      OneTooMany verdict (replayAfter t p verdict).fraud := by
  refine and_congr_right fun fraud => ?_
  have going : t.aborted = false := by
    by_contra ended
    have outside : verdict = .outside := judged ▸ replayVerdict_outside.mpr (eq_true_of_ne_false ended)
    rcases fraud with rfl | rfl <;> cases outside
  have kept : (replayAfter t p verdict).aborted = false := by
    rcases fraud with rfl | rfl <;> exact going
  rw [(related_after related judged).fraud kept]

variable [DecidableLE Time]

theorem step_agrees (related : Related micros millis sessionStart sessionEnd s t (p :: rest))
    (alike : Alike micros millis sessionStart s p) :
    (watched micros millis sessionStart s p).2 = (replayed sessionStart sessionEnd t p).2 ∧
      Related micros millis sessionStart sessionEnd (watched micros millis sessionStart s p).1
        (replayed sessionStart sessionEnd t p).1 rest := by
  have timely := related.timely p List.mem_cons_self
  have after := related_after related rfl
  rw [watched_eq ((verdict_eq_iff related).mpr alike), replayed_eq timely.inside rfl]
  by_cases tooMany : OneTooMany (replayVerdict sessionStart t p) (replayAfter t p (replayVerdict sessionStart t p)).fraud
  · rw [if_pos tooMany, if_pos ((oneTooMany_iff related rfl).mpr tooMany)]
    exact ⟨rfl, related_aborted after⟩
  · rw [if_neg tooMany, if_neg (mt (oneTooMany_iff related rfl).mp tooMany)]
    exact ⟨rfl, after⟩

/-- Two verdicts show at once. -/
theorem step_differs (related : Related micros millis sessionStart sessionEnd s t (p :: rest))
    (unlike : ¬ Alike micros millis sessionStart s p) (later others : List (Time × Decision)) :
    (watched micros millis sessionStart s p).2 ++ later ≠ (replayed sessionStart sessionEnd t p).2 ++ others := by
  have timely := related.timely p List.mem_cons_self
  have device : ∃ tail, (watched micros millis sessionStart s p).2 =
      (p.rise, .judged (firmwareVerdict micros millis sessionStart s.1 p)) :: tail := by
    rw [watched_eq rfl]
    split <;> exact ⟨_, rfl⟩
  have script : ∃ tail, (replayed sessionStart sessionEnd t p).2 =
      (p.rise, .judged (replayVerdict sessionStart t p)) :: tail := by
    rw [replayed_eq timely.inside rfl]
    split <;> exact ⟨_, rfl⟩
  obtain ⟨_, device⟩ := device
  obtain ⟨_, script⟩ := script
  rw [device, script]
  intro same
  have heads := (List.cons.inj same).1
  have verdicts : firmwareVerdict micros millis sessionStart s.1 p = replayVerdict sessionStart t p := by
    simpa using heads
  exact unlike ((verdict_eq_iff related).mp verdicts)

/-- The replay accepts, suppresses, rejects and aborts as the firmware does exactly when,
    pulse after pulse, the two measures of time come to the same. -/
theorem replay_iff {edges : List (Edge Time)} (within : WithinSession micros millis sessionStart sessionEnd edges) :
    firmware micros millis sessionStart edges =
        (replay firmwareConstants sessionStart sessionEnd edges).2.1.map Event.decided ↔
      EachInput (watched micros millis sessionStart) (Alike micros millis sessionStart) (newDevice, none)
        (pulses none edges) := by
  have positive : ∀ e ∈ edges, 0 < UInt32.ofNat (micros e.time) := by
    intro e inside
    rw [UInt32.lt_iff_toNat_lt, UInt32.toNat_ofNat', Nat.mod_eq_of_lt (within.microsFit e inside)]
    exact within.nonzero e inside
  have device : firmware micros millis sessionStart edges =
      trace (watched micros millis sessionStart) (newDevice, none) (pulses none edges) :=
    (firmware_pulses micros millis sessionStart none newDevice nofun positive).trans
      (trace_view Prod.fst (fun _ _ => rfl) (newDevice, none) (pulses none edges))
  have script : (replay firmwareConstants sessionStart sessionEnd edges).2.1.map Event.decided =
      trace (replayed sessionStart sessionEnd) newReplay (pulses none edges) := by
    rw [replay, trace_outputs, queued_pulses, trace_inputs]
    rfl
  rw [device, script]
  exact @trace_eq_iff _ _ _ _ _ _ _ (Related micros millis sessionStart sessionEnd) (fun _ _ _ _ => step_agrees)
    (fun _ _ _ _ => step_differs) _ _ _ (related_start within)

end

/-! ## In exact numbers -/

/-- The device's clocks, for a time since its start. -/
def exactMicros (time : Rat) : Nat := (time * 1000000).floor.toNat

def exactMillis (time : Rat) : Nat := (time * 1000).floor.toNat

instance (s : Device × Option (Pulse Rat)) (p : Pulse Rat) : Decidable (Alike exactMicros exactMillis 1 s p) :=
  inferInstanceAs (Decidable
    (_ → (_ < _ ↔ _ < _) ∧ (¬ _ < _ → (_ < _ ↔ _ < _) ∧ (¬ _ < _ → ∀ coin ∈ s.2, (_ < _ ↔ _ < _)))))

/-- A spike, and two coins as the acceptor signals them. -/
def coins : List (Edge Rat) :=
  [⟨1.55, .fall⟩, ⟨1.551, .rise⟩, ⟨1.6, .fall⟩, ⟨1.62, .rise⟩, ⟨1.72, .fall⟩, ⟨1.74, .rise⟩]

theorem replay_iff_coins :
    firmware exactMicros exactMillis 1 coins = (replay firmwareConstants 1 11 coins).2.1.map Event.decided :=
  (replay_iff
    { inside := by decide +kernel
      ordered := by decide +kernel
      nonzero := by decide +kernel
      microsFit := by decide +kernel
      millisFit := by decide +kernel
      readyFits := by decide +kernel }).mpr (by decide +kernel)

/-- The second pulse begins 93.75 ms after the first, but ends 125 ms after it. -/
def stretched : List (Edge Rat) := [⟨2, .fall⟩, ⟨2.0625, .rise⟩, ⟨2.09375, .fall⟩, ⟨2.1875, .rise⟩]

/-- The firmware rejects the second pulse, and the replay counts a coin. -/
theorem stretched_accepted :
    ¬ ∀ (sessionStart sessionEnd : Rat) (edges : List (Edge Rat)),
      WithinSession exactMicros exactMillis sessionStart sessionEnd edges →
        firmware exactMicros exactMillis sessionStart edges =
          (replay firmwareConstants sessionStart sessionEnd edges).2.1.map Event.decided := by
  intro matching
  have within : WithinSession exactMicros exactMillis 1 11 stretched :=
    { inside := by decide +kernel
      ordered := by decide +kernel
      nonzero := by decide +kernel
      microsFit := by decide +kernel
      millisFit := by decide +kernel
      readyFits := by decide +kernel }
  have device : firmware exactMicros exactMillis 1 stretched =
      [(2.0625, .judged .accepted), (2.1875, .judged .intervalFraud)] := by decide +kernel
  have script : (replay firmwareConstants 1 11 stretched).2.1.map Event.decided =
      [(2.0625, .judged .accepted), (2.1875, .judged .accepted)] := by decide +kernel
  have same := matching 1 11 stretched within
  rw [device, script] at same
  exact absurd same (by decide +kernel)

end EllaFi.CosimReplay
