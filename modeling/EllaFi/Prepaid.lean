import EllaFi.Runs

/-!
A prepaid session whose end is kept twice: exactly by the side that enforces it,
and by a side that reads a coarse clock, which can also put the time left aside
and ask for it again. The two ends agree up to one tick of the coarse clock, or
both have passed (`Sound`), and every move changes the time left by what was paid
minus what elapsed, up to one tick (`step_drift`). So over a run nothing paid is
lost and nothing is given twice (`paid_time_conserved`).
-/
namespace EllaFi.Prepaid
open EllaFi.Runs (run inflow throughout_all throughout_drift)

/-- A clock that is read in ticks. -/
structure CoarseClock where
  read : Nat → Nat
  tick : Nat
  below : ∀ t, read t ≤ t
  close : ∀ t, t < read t + tick
  mono : ∀ {t u}, t ≤ u → read t ≤ read u

structure Meter where
  clock : Nat
  /-- The side with the coarse clock knows the client. -/
  known : Bool
  /-- The end that this side keeps; 0 is none. -/
  cached : Nat
  /-- The time put aside. -/
  paused : Nat
  /-- The end that the other side enforces. -/
  granted : Nat
deriving DecidableEq, Repr

/-- What can happen to one client's meter. -/
inductive Move where
  | idle
  | enroll
  | elapse (millis : Nat)
  | authenticate (millis : Nat)
  | extend (millis : Nat)
  | pause
  /-- The end is then read from the other side, or not yet. -/
  | resume (read : Bool)
  | sync
deriving DecidableEq, Repr

section
variable (coarse : CoarseClock)

def step (meter : Meter) : Move → Option Meter
  | .idle => some meter
  | .enroll => some { meter with known := true }
  | .elapse millis => some { meter with clock := meter.clock + millis }
  | .authenticate millis =>
    if meter.known ∧ meter.cached ≤ coarse.read meter.clock then
      some { meter with cached := coarse.read meter.clock + millis, granted := meter.clock + millis }
    else none
  | .extend millis =>
    if meter.known ∧ coarse.read meter.clock < meter.cached then
      some { meter with cached := meter.cached + millis, granted := meter.granted + millis }
    else none
  | .pause =>
    if meter.known ∧ coarse.read meter.clock < meter.cached ∧ meter.paused = 0 then
      some { meter with
        cached := 0, paused := meter.cached - coarse.read meter.clock, granted := meter.clock }
    else none
  | .resume read =>
    if meter.known ∧ meter.cached ≤ coarse.read meter.clock then
      some { meter with
        cached := (if read then meter.clock else coarse.read meter.clock) + meter.paused
        paused := 0
        granted := meter.clock + meter.paused }
    else none
  | .sync =>
    if meter.known ∧ coarse.read meter.clock < meter.granted then
      some { meter with cached := meter.granted }
    else none

/-- The time that the client still has, running or put aside. -/
def left (meter : Meter) : Nat := (meter.cached - meter.clock) + meter.paused

/-- What a move pays in, less the running time that it lets pass. -/
def brings (meter : Meter) : Move → Int
  | .elapse millis => -(min millis (meter.cached - meter.clock) : Nat)
  | .authenticate millis | .extend millis => millis
  | .idle | .enroll | .pause | .resume _ | .sync => 0

/-- The two ends are within one tick, or both have passed. -/
def Sound (meter : Meter) : Prop :=
  (meter.known ∧ meter.cached ≤ meter.granted ∧ meter.granted < meter.cached + coarse.tick) ∨
    (meter.cached ≤ coarse.read meter.clock ∧ meter.granted ≤ meter.clock ∧
      (meter.known = false → meter.granted ≤ coarse.read meter.clock))

end

section
variable {coarse : CoarseClock} {meter next : Meter} {move : Move}

theorem step_sound (sound : Sound coarse meter) (moved : step coarse meter move = some next) : Sound coarse next := by
  have below := coarse.below meter.clock
  have close := coarse.close meter.clock
  cases move with
  | idle =>
    simp only [step, Option.some.injEq] at moved
    exact moved ▸ sound
  | enroll =>
    simp only [step, Option.some.injEq] at moved
    subst moved
    rcases sound with ⟨-, ends⟩ | ⟨past, finished, -⟩
    · exact .inl ⟨rfl, ends⟩
    · exact .inr ⟨past, finished, nofun⟩
  | elapse millis =>
    simp only [step, Option.some.injEq] at moved
    subst moved
    have later := coarse.mono (Nat.le_add_right meter.clock millis)
    rcases sound with ends | ⟨past, finished, unknown⟩
    · exact .inl ends
    · exact .inr ⟨Nat.le_trans past later, Nat.le_add_right_of_le finished, fun new => Nat.le_trans (unknown new) later⟩
  | authenticate millis =>
    simp only [step, Option.ite_none_right_eq_some, Option.some.injEq] at moved
    obtain ⟨⟨known, -⟩, rfl⟩ := moved
    exact .inl ⟨known, by simp only; omega, by simp only; omega⟩
  | extend millis =>
    simp only [step, Option.ite_none_right_eq_some, Option.some.injEq] at moved
    obtain ⟨⟨known, running⟩, rfl⟩ := moved
    rcases sound with ⟨-, ahead, behind⟩ | ⟨past, -⟩
    · exact .inl ⟨known, by simp only; omega, by simp only; omega⟩
    · omega
  | pause =>
    simp only [step, Option.ite_none_right_eq_some, Option.some.injEq] at moved
    obtain ⟨⟨known, running, free⟩, rfl⟩ := moved
    exact .inr ⟨Nat.zero_le _, Nat.le_refl _, fun unknown => by simp_all⟩
  | resume read =>
    simp only [step, Option.ite_none_right_eq_some, Option.some.injEq] at moved
    obtain ⟨⟨known, -⟩, rfl⟩ := moved
    refine .inl ⟨known, ?_, ?_⟩ <;> cases read <;> simp <;> omega
  | sync =>
    simp only [step, Option.ite_none_right_eq_some, Option.some.injEq] at moved
    obtain ⟨⟨known, -⟩, rfl⟩ := moved
    exact .inl ⟨known, Nat.le_refl _, by simp only; omega⟩

theorem step_drift (sound : Sound coarse meter) (moved : step coarse meter move = some next) :
    |(left next : Int) - left meter - brings meter move| ≤ coarse.tick := by
  have below := coarse.below meter.clock
  have close := coarse.close meter.clock
  rw [abs_le]
  cases move with
  | idle | enroll =>
    simp only [step, Option.some.injEq] at moved
    subst moved
    simp only [left, brings]
    omega
  | elapse millis =>
    simp only [step, Option.some.injEq] at moved
    subst moved
    simp only [left, brings]
    omega
  | authenticate millis | extend millis =>
    simp only [step, Option.ite_none_right_eq_some, Option.some.injEq] at moved
    obtain ⟨⟨known, ends⟩, rfl⟩ := moved
    simp only [left, brings]
    omega
  | pause =>
    simp only [step, Option.ite_none_right_eq_some, Option.some.injEq] at moved
    obtain ⟨⟨known, running, free⟩, rfl⟩ := moved
    simp only [left, brings]
    omega
  | resume read =>
    simp only [step, Option.ite_none_right_eq_some, Option.some.injEq] at moved
    obtain ⟨⟨known, ends⟩, rfl⟩ := moved
    cases read <;> simp [left, brings] <;> omega
  | sync =>
    simp only [step, Option.ite_none_right_eq_some, Option.some.injEq] at moved
    obtain ⟨⟨known, running⟩, rfl⟩ := moved
    simp only [left, brings]
    rcases sound with ⟨-, ahead, behind⟩ | ⟨past, finished, -⟩ <;> omega

end

/-- Over a run, the time left is what was paid minus what elapsed, up to one tick
    for each move. -/
theorem paid_time_conserved {coarse : CoarseClock} {meter last : Meter} {moves : List Move}
    (sound : Sound coarse meter) (ran : run (step coarse) meter moves = some last) :
    |(left last : Int) - left meter - inflow (step coarse) brings meter moves| ≤ coarse.tick * moves.length :=
  throughout_drift (fun _ _ _ sound _ moved => step_sound sound moved)
    (fun _ _ _ sound _ moved => step_drift sound moved) sound (throughout_all fun _ _ => trivial) ran

end EllaFi.Prepaid
