import Mathlib.Algebra.Order.Group.Abs
import Mathlib.Algebra.Order.Ring.Int
import Mathlib.Data.List.Induction
import Mathlib.Tactic.Ring

/-!
Runs of a partial step function. The environment chooses each action, and
`step s a = none` means that `a` cannot happen in `s`. A property of the first
state that every possible step keeps holds in every state that a run reaches
(`run_keeps`); one that only some steps keep holds along the runs that take no
other step (`throughout_keeps`). A measure that every step changes by what flows
in, up to `bound`, drifts by at most `bound` for each step of a run
(`throughout_drift`). A property that exactly the forbidden steps break shows all
along the runs that take none of them, and no others (`always_iff`). A view under
which every step of one system is a step of another carries its runs
(`run_simulates`), and a step function can be watched (`watch`).
-/
namespace EllaFi.Runs
universe u v w
variable {State : Type u} {Action : Type v}

/-- The state after the actions, in order, when each of them can happen. -/
def run (step : State → Action → Option State) : State → List Action → Option State
  | s, [] => some s
  | s, a :: rest => (step s a).bind fun next => run step next rest

/-- Every step that the run takes is allowed in the state it is taken in. -/
def Throughout (step : State → Action → Option State) (allowed : State → Action → Prop) :
    State → List Action → Prop
  | _, [] => True
  | s, a :: rest => allowed s a ∧ ∀ next, step s a = some next → Throughout step allowed next rest

/-- A property of every state that the run visits. -/
def Always (step : State → Action → Option State) (Holds : State → Prop) : State → List Action → Prop
  | s, [] => Holds s
  | s, a :: rest => Holds s ∧ ∀ next, step s a = some next → Always step Holds next rest

/-- Every state that the run visits is related to every later one. -/
def Climbs (step : State → Action → Option State) (Rel : State → State → Prop) : State → List Action → Prop
  | _, [] => True
  | s, a :: rest => ∀ next, step s a = some next → Always step (Rel s) next rest ∧ Climbs step Rel next rest

/-- What the steps of a run bring in together. -/
def inflow (step : State → Action → Option State) (brings : State → Action → Int) :
    State → List Action → Int
  | _, [] => 0
  | s, a :: rest => brings s a + ((step s a).map fun next => inflow step brings next rest).getD 0

section
variable {step : State → Action → Option State}

@[simp] theorem run_nil (s : State) : run step s [] = some s := rfl

theorem run_cons {s last : State} {a : Action} {rest : List Action} :
    run step s (a :: rest) = some last ↔
      ∃ next, step s a = some next ∧ run step next rest = some last := by
  simp only [run, Option.bind_eq_some_iff]

theorem run_total (total : ∀ s a, ∃ next, step s a = some next) (s : State) (actions : List Action) :
    ∃ last, run step s actions = some last := by
  induction actions generalizing s with
  | nil => exact ⟨s, rfl⟩
  | cons a rest ih =>
    obtain ⟨next, taken⟩ := total s a
    obtain ⟨last, ran⟩ := ih next
    exact ⟨last, run_cons.mpr ⟨next, taken, ran⟩⟩

theorem run_append (s : State) (before after : List Action) :
    run step s (before ++ after) = (run step s before).bind fun middle => run step middle after := by
  induction before generalizing s with
  | nil => simp
  | cons a rest ih =>
    cases taken : step s a with
    | none => simp [run, taken]
    | some next => simp [run, taken, ih]

theorem run_snoc {s last : State} {before : List Action} {a : Action} :
    run step s (before ++ [a]) = some last ↔ ∃ middle, run step s before = some middle ∧ step middle a = some last := by
  rw [run_append, Option.bind_eq_some_iff]
  refine exists_congr fun middle => and_congr_right fun _ => ?_
  cases taken : step middle a <;> simp [run, taken]

/-- A run goes through a state before each of its actions. -/
theorem run_reaches {s last : State} {before actions : List Action} {a : Action}
    (ran : run step s actions = some last) (soFar : before ++ [a] <+: actions) :
    ∃ middle next, run step s before = some middle ∧ step middle a = some next := by
  obtain ⟨after, rfl⟩ := soFar
  rw [run_append, Option.bind_eq_some_iff] at ran
  obtain ⟨next, reached, -⟩ := ran
  obtain ⟨middle, reached, taken⟩ := run_snoc.mp reached
  exact ⟨middle, next, reached, taken⟩

/-- The rule for a property of the actions so far and the state they lead to. -/
theorem run_history {start s : State} {Holds : List Action → State → Prop} (first : Holds [] start)
    (keeps : ∀ log s a next, run step start log = some s → Holds log s → step s a = some next → Holds (log ++ [a]) next)
    {log : List Action} (ran : run step start log = some s) : Holds log s := by
  induction log using List.reverseRecOn generalizing s with
  | nil =>
    rw [run_nil, Option.some.injEq] at ran
    exact ran ▸ first
  | append_singleton before a ih =>
    obtain ⟨middle, reached, taken⟩ := run_snoc.mp ran
    exact keeps before middle a s reached (ih reached) taken

theorem throughout_all {permitted : Action → Prop} {s : State} {actions : List Action}
    (all : ∀ a ∈ actions, permitted a) : Throughout step (fun _ => permitted) s actions := by
  induction actions generalizing s with
  | nil => trivial
  | cons a rest ih =>
    obtain ⟨here, later⟩ := List.forall_mem_cons.mp all
    exact ⟨here, fun _ _ => ih later⟩

/-- The invariant rule. -/
theorem run_keeps {Holds : State → Prop}
    (keeps : ∀ s a next, Holds s → step s a = some next → Holds next)
    {s last : State} {actions : List Action} (first : Holds s) (ran : run step s actions = some last) :
    Holds last := by
  induction actions generalizing s with
  | nil =>
    rw [run_nil, Option.some.injEq] at ran
    exact ran ▸ first
  | cons a rest ih =>
    obtain ⟨next, taken, tail⟩ := run_cons.mp ran
    exact ih (keeps s a next first taken) tail

/-- The invariant rule along runs that take only allowed steps. -/
theorem throughout_keeps {Holds : State → Prop} {allowed : State → Action → Prop}
    (keeps : ∀ s a next, Holds s → allowed s a → step s a = some next → Holds next)
    {s last : State} {actions : List Action} (first : Holds s)
    (permitted : Throughout step allowed s actions) (ran : run step s actions = some last) : Holds last := by
  induction actions generalizing s with
  | nil =>
    rw [run_nil, Option.some.injEq] at ran
    exact ran ▸ first
  | cons a rest ih =>
    obtain ⟨next, taken, tail⟩ := run_cons.mp ran
    exact ih (keeps s a next first permitted.1 taken) (permitted.2 next taken) tail

/-- A measure that no allowed step moves by more than `bound` away from what the
    step brings in. -/
theorem throughout_drift {Holds : State → Prop} {allowed : State → Action → Prop}
    {measure : State → Int} {brings : State → Action → Int} {bound : Int}
    (keeps : ∀ s a next, Holds s → allowed s a → step s a = some next → Holds next)
    (drift : ∀ s a next, Holds s → allowed s a → step s a = some next →
      |measure next - measure s - brings s a| ≤ bound)
    {s last : State} {actions : List Action} (first : Holds s)
    (permitted : Throughout step allowed s actions) (ran : run step s actions = some last) :
    |measure last - measure s - inflow step brings s actions| ≤ bound * actions.length := by
  induction actions generalizing s with
  | nil =>
    rw [run_nil, Option.some.injEq] at ran
    simp [inflow, ran]
  | cons a rest ih =>
    obtain ⟨next, taken, tail⟩ := run_cons.mp ran
    have here := drift s a next first permitted.1 taken
    have later := ih (keeps s a next first permitted.1 taken) (permitted.2 next taken) tail
    have split : measure last - measure s - inflow step brings s (a :: rest) =
        (measure next - measure s - brings s a) +
          (measure last - measure next - inflow step brings next rest) := by
      simp only [inflow, taken, Option.map_some, Option.getD_some]
      ring
    calc |measure last - measure s - inflow step brings s (a :: rest)|
        ≤ |measure next - measure s - brings s a| +
            |measure last - measure next - inflow step brings next rest| := by
          rw [split]; exact abs_add_le _ _
      _ ≤ bound + bound * rest.length := add_le_add here later
      _ = bound * (a :: rest).length := by push_cast [List.length_cons]; ring

instance decidableThroughout {allowed : State → Action → Prop} [∀ s a, Decidable (allowed s a)] (s : State)
    (actions : List Action) : Decidable (Throughout step allowed s actions) :=
  match actions with
  | [] => .isTrue trivial
  | a :: rest =>
    match taken : step s a with
    | none => decidable_of_iff (allowed s a) (by simp [Throughout, taken])
    | some next =>
      have : Decidable (Throughout step allowed next rest) := decidableThroughout next rest
      decidable_of_iff (allowed s a ∧ Throughout step allowed next rest) (by simp [Throughout, taken])

theorem always_first {Holds : State → Prop} {s : State} {actions : List Action}
    (always : Always step Holds s actions) : Holds s := by
  cases actions with
  | nil => exact always
  | cons => exact always.1

theorem always_last {Holds : State → Prop} {s last : State} {actions : List Action}
    (always : Always step Holds s actions) (ran : run step s actions = some last) : Holds last := by
  induction actions generalizing s with
  | nil =>
    rw [run_nil, Option.some.injEq] at ran
    exact ran ▸ always
  | cons a rest ih =>
    obtain ⟨next, taken, tail⟩ := run_cons.mp ran
    exact ih (always.2 next taken) tail

/-- The invariant rule for all states of a run that takes only allowed steps. -/
theorem throughout_always {Holds : State → Prop} {allowed : State → Action → Prop}
    (keeps : ∀ s a next, Holds s → allowed s a → step s a = some next → Holds next)
    {s : State} {actions : List Action} (first : Holds s) (permitted : Throughout step allowed s actions) :
    Always step Holds s actions := by
  induction actions generalizing s with
  | nil => exact first
  | cons a rest ih =>
    exact ⟨first, fun next taken => ih (keeps s a next first permitted.1 taken) (permitted.2 next taken)⟩

/-- What an allowed step from a state that holds shows is shown by each step. -/
theorem throughout_shows {Holds : State → Prop} {allowed shown : State → Action → Prop}
    (keeps : ∀ s a next, Holds s → allowed s a → step s a = some next → Holds next)
    (shows : ∀ s a, Holds s → allowed s a → shown s a) {s : State} {actions : List Action} (first : Holds s)
    (permitted : Throughout step allowed s actions) : Throughout step shown s actions := by
  induction actions generalizing s with
  | nil => trivial
  | cons a rest ih =>
    exact ⟨shows s a first permitted.1,
      fun next taken => ih (keeps s a next first permitted.1 taken) (permitted.2 next taken)⟩

theorem always_mono {Holds Shown : State → Prop} (shows : ∀ s, Holds s → Shown s) {s : State} {actions : List Action}
    (always : Always step Holds s actions) : Always step Shown s actions := by
  induction actions generalizing s with
  | nil => exact shows s always
  | cons a rest ih => exact ⟨shows s always.1, fun next taken => ih (always.2 next taken)⟩

theorem throughout_of_always {Holds : State → Prop} {allowed : State → Action → Prop}
    (permits : ∀ s, Holds s → ∀ a, allowed s a) {s : State} {actions : List Action}
    (always : Always step Holds s actions) : Throughout step allowed s actions := by
  induction actions generalizing s with
  | nil => trivial
  | cons a rest ih => exact ⟨permits s always.1 a, fun next taken => ih (always.2 next taken)⟩

/-- A property that is bound to be lost does not always show in a run that comes to
    its end. -/
theorem doomed_shows {Shown Doomed : State → Prop}
    (doomed : ∀ s a next, Doomed s → step s a = some next → ¬ Shown next ∨ Doomed next)
    {s last : State} {actions : List Action} (here : Doomed s) (settled : ¬ Doomed last)
    (ran : run step s actions = some last) : ¬ Always step Shown s actions := by
  induction actions generalizing s with
  | nil =>
    rw [run_nil, Option.some.injEq] at ran
    exact absurd (ran ▸ here) settled
  | cons a rest ih =>
    obtain ⟨next, taken, tail⟩ := run_cons.mp ran
    rintro ⟨-, always⟩
    rcases doomed s a next here taken with lost | still
    · exact lost (always_first (always next taken))
    · exact ih still tail (always next taken)

/-- When a property is kept by the allowed steps, and by every other step what shows
    of it is lost at once or is bound to be lost, the runs that always show it are the
    runs of allowed steps, if nothing is left to be lost at their ends. -/
theorem always_iff_settled {Known Holds Shown Doomed : State → Prop} {allowed : State → Action → Prop}
    (known : ∀ s a next, Known s → step s a = some next → Known next)
    (keeps : ∀ s a next, Known s → Holds s → allowed s a → step s a = some next → Holds next)
    (shows : ∀ s, Holds s → Shown s)
    (loses : ∀ s a next, Known s → Holds s → ¬ allowed s a → step s a = some next → ¬ Shown next ∨ Doomed next)
    (doomed : ∀ s a next, Doomed s → step s a = some next → ¬ Shown next ∨ Doomed next)
    {s last : State} {actions : List Action} (knownFirst : Known s) (first : Holds s) (settled : ¬ Doomed last)
    (ran : run step s actions = some last) :
    Always step Shown s actions ↔ Throughout step allowed s actions := by
  induction actions generalizing s with
  | nil => exact iff_of_true (shows s first) trivial
  | cons a rest ih =>
    obtain ⟨next, taken, tail⟩ := run_cons.mp ran
    have later (permitted : allowed s a) := ih (known s a next knownFirst taken)
      (keeps s a next knownFirst first permitted taken) tail
    have only : ∀ other, step s a = some other → other = next := fun other too => by simpa [taken] using too.symm
    constructor
    · rintro ⟨-, always⟩
      have permitted : allowed s a := by
        by_contra forbidden
        rcases loses s a next knownFirst first forbidden taken with lost | bound
        · exact lost (always_first (always next taken))
        · exact doomed_shows doomed bound settled tail (always next taken)
      refine ⟨permitted, fun other too => ?_⟩
      rw [only other too]
      exact (later permitted).mp (always next taken)
    · rintro ⟨permitted, throughout⟩
      refine ⟨shows s first, fun other too => ?_⟩
      rw [only other too]
      exact (later permitted).mpr (throughout next taken)

/-- The same where nothing is lost later than at once. -/
theorem always_iff {Known Holds Shown : State → Prop} {allowed : State → Action → Prop}
    (known : ∀ s a next, Known s → step s a = some next → Known next)
    (keeps : ∀ s a next, Known s → Holds s → allowed s a → step s a = some next → Holds next)
    (shows : ∀ s, Holds s → Shown s)
    (loses : ∀ s a next, Known s → Holds s → ¬ allowed s a → step s a = some next → ¬ Shown next)
    {s last : State} {actions : List Action} (knownFirst : Known s) (first : Holds s)
    (ran : run step s actions = some last) :
    Always step Shown s actions ↔ Throughout step allowed s actions :=
  always_iff_settled known keeps shows
    (fun s a next known holds forbidden taken => .inl (loses s a next known holds forbidden taken))
    (fun _ _ _ impossible _ => False.elim impossible) knownFirst first id ran

theorem always_of_steps {Rel : State → State → Prop} (trans : ∀ a b c, Rel a b → Rel b c → Rel a c)
    {first s : State} {actions : List Action} (here : Rel first s)
    (steps : Throughout step (fun s a => ∀ next, step s a = some next → Rel s next) s actions) :
    Always step (Rel first) s actions := by
  induction actions generalizing s with
  | nil => exact here
  | cons a rest ih =>
    refine ⟨here, fun next taken => ?_⟩
    exact ih (trans _ _ _ here (steps.1 next taken)) (steps.2 next taken)

/-- A transitive relation holds between all states of a run as soon as it holds
    across every step. -/
theorem climbs_iff {Rel : State → State → Prop} (trans : ∀ a b c, Rel a b → Rel b c → Rel a c) {s : State}
    {actions : List Action} :
    Climbs step Rel s actions ↔ Throughout step (fun s a => ∀ next, step s a = some next → Rel s next) s actions := by
  induction actions generalizing s with
  | nil => exact Iff.rfl
  | cons a rest ih =>
    constructor
    · intro climbs
      exact ⟨fun next taken => always_first (climbs next taken).1, fun next taken => ih.mp (climbs next taken).2⟩
    · rintro ⟨here, later⟩ next taken
      exact ⟨always_of_steps trans (here next taken) (later next taken), ih.mpr (later next taken)⟩

/-- Two ways to judge a step that agree wherever an invariant holds judge the same
    runs. -/
theorem throughout_iff {Known : State → Prop} {allowed permitted : State → Action → Prop}
    (keeps : ∀ s a next, Known s → step s a = some next → Known next)
    (same : ∀ s a, Known s → (allowed s a ↔ permitted s a)) {s : State} {actions : List Action} (known : Known s) :
    Throughout step allowed s actions ↔ Throughout step permitted s actions := by
  induction actions generalizing s with
  | nil => exact Iff.rfl
  | cons a rest ih =>
    refine and_congr (same s a known) (forall_congr' fun next => forall_congr' fun taken => ?_)
    exact ih (keeps s a next known taken)

theorem throughout_congr {allowed permitted : State → Action → Prop} (same : ∀ s a, allowed s a ↔ permitted s a)
    {s : State} {actions : List Action} : Throughout step allowed s actions ↔ Throughout step permitted s actions :=
  throughout_iff (fun _ _ _ _ _ => trivial) (fun s a _ => same s a) trivial

theorem throughout_and {allowed permitted : State → Action → Prop} {s : State} {actions : List Action} :
    Throughout step (fun s a => allowed s a ∧ permitted s a) s actions ↔
      Throughout step allowed s actions ∧ Throughout step permitted s actions := by
  induction actions generalizing s with
  | nil => exact (and_self_iff).symm
  | cons a rest ih =>
    constructor
    · rintro ⟨⟨first, second⟩, later⟩
      exact ⟨⟨first, fun next taken => (ih.mp (later next taken)).1⟩,
        ⟨second, fun next taken => (ih.mp (later next taken)).2⟩⟩
    · rintro ⟨⟨first, laterFirst⟩, ⟨second, laterSecond⟩⟩
      exact ⟨⟨first, second⟩, fun next taken => ih.mpr ⟨laterFirst next taken, laterSecond next taken⟩⟩

end

/-! ## Simulation -/

/-- A view under which each allowed step of one system is a step of another that
    brings in the same carries the runs of the one to runs of the other, step by
    step. -/
theorem run_simulates {Other : Type w} {Act : Type*} {step : State → Action → Option State}
    {other : Other → Act → Option Other} (view : State → Other) {Holds : State → Prop}
    {allowed : State → Action → Prop} {brings : State → Action → Int} {pays : Other → Act → Int}
    (keeps : ∀ s a next, Holds s → allowed s a → step s a = some next → Holds next)
    (follows : ∀ s a next, Holds s → allowed s a → step s a = some next →
      ∃ act, other (view s) act = some (view next) ∧ pays (view s) act = brings s a)
    {s last : State} {actions : List Action} (first : Holds s)
    (permitted : Throughout step allowed s actions) (ran : run step s actions = some last) :
    ∃ acts, run other (view s) acts = some (view last) ∧ acts.length = actions.length ∧
      inflow other pays (view s) acts = inflow step brings s actions := by
  induction actions generalizing s with
  | nil =>
    rw [run_nil, Option.some.injEq] at ran
    exact ⟨[], by rw [run_nil, ran], rfl, rfl⟩
  | cons a rest ih =>
    obtain ⟨next, taken, tail⟩ := run_cons.mp ran
    obtain ⟨act, followed, paid⟩ := follows s a next first permitted.1 taken
    obtain ⟨acts, ranOn, sameLength, sameInflow⟩ :=
      ih (keeps s a next first permitted.1 taken) (permitted.2 next taken) tail
    exact ⟨act :: acts, run_cons.mpr ⟨_, followed, ranOn⟩, by simp [sameLength],
      by simp [inflow, followed, taken, paid, sameInflow]⟩

/-! ## Watching a run -/

/-- The step function with a record beside the state, which each step extends
    and none reads. -/
def watch {Record : Type w} (step : State → Action → Option State)
    (note : State → Action → Record → Record) : State × Record → Action → Option (State × Record) :=
  fun s a => (step s.1 a).map fun next => (next, note s.1 a s.2)

theorem watch_some {Record : Type w} {step : State → Action → Option State}
    {note : State → Action → Record → Record} {s next : State × Record} {a : Action} :
    watch step note s a = some next ↔ step s.1 a = some next.1 ∧ next.2 = note s.1 a s.2 := by
  rcases next with ⟨state, record⟩
  cases taken : step s.1 a with
  | none => simp [watch, taken]
  | some after => simp [watch, taken, eq_comm]

theorem watch_of_step {Record : Type w} {step : State → Action → Option State} {s next : State} {a : Action}
    (note : State → Action → Record → Record) (record : Record) (taken : step s a = some next) :
    watch step note (s, record) a = some (next, note s a record) := watch_some.mpr ⟨taken, rfl⟩

end EllaFi.Runs
