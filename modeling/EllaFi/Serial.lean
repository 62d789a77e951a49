import EllaFi.Runs

/-!
Operations on shared data that are interrupted by one another. An operation reads,
makes one first change, and then writes back (`Program`, `Tail`); each part is
atomic, and between two parts any other operation may take its own. An interleaving
amounts to a serial order of its operations (`serial_of_undisturbed`) when each
makes its first change while no other is between its first change and its last,
and would stand where it stands had it read what is there now (`Undisturbed`). An
operation that ends with nothing changed may come at any time, if it would have
changed nothing before the operation it came in the midst of, or after it.
-/
namespace EllaFi.Serial
open EllaFi.Runs (run run_cons Throughout)
universe u v
variable {Data : Type u} {Thread : Type v}

/-- What is left of an operation that has made its first change. -/
inductive Tail (Data : Type u) where
  | done
  | step (change : Data → Data) (next : Data → Tail Data)

inductive Program (Data : Type u) where
  | done
  | read (next : Data → Program Data)
  | commit (change : Data → Data) (next : Data → Tail Data)

/-- The rest of the operation, uninterrupted. -/
def Tail.run : Tail Data → Data → Data
  | .done, d => d
  | .step change next, d => (next d).run (change d)

def Program.run : Program Data → Data → Data
  | .done, d => d
  | .read next, d => (next d).run d
  | .commit change next, d => (next d).run (change d)

/-- A program that reads the data comes to another one, changing nothing. -/
inductive Reads (d : Data) : Program Data → Program Data → Prop where
  | here (program : Program Data) : Reads d program program
  | read {next : Data → Program Data} {program : Program Data} (rest : Reads d (next d) program) :
      Reads d (.read next) program

theorem Reads.run {d : Data} {before after : Program Data} (reads : Reads d before after) :
    before.run d = after.run d := by
  induction reads with
  | here => rfl
  | read _ ih => exact ih

/-! ## Interleavings -/

inductive Progress (Data : Type u) where
  | ahead (program : Program Data)
  | behind (tail : Tail Data)

namespace Progress

def Over : Progress Data → Prop
  | .ahead .done | .behind .done => True
  | .ahead (.read _) | .ahead (.commit ..) | .behind (.step ..) => False

/-- Between the first change and the last. -/
def Midway : Progress Data → Prop
  | .behind (.step ..) => True
  | .ahead _ | .behind .done => False

def Pending : Progress Data → Prop
  | .ahead (.read _) | .ahead (.commit ..) => True
  | .ahead .done | .behind _ => False

end Progress

/-- The data, also as the last operation to be midway found it, and how far each
    thread is. -/
structure State (Data : Type u) (Thread : Type v) where
  prior : Data
  data : Data
  progress : Thread → Progress Data

def start (ops : Thread → Program Data) (d : Data) : State Data Thread where
  prior := d
  data := d
  progress t := .ahead (ops t)

/-- The operations of the threads, one after the other. -/
def serial (ops : Thread → Program Data) (d : Data) (order : List Thread) : Data :=
  order.foldl (fun d t => (ops t).run d) d

/-- The data as it will be when the thread that is midway, if any, is done. -/
def Settles (s : State Data Thread) (settled : Data) : Prop :=
  ((∀ t, ¬ (s.progress t).Midway) ∧ settled = s.data) ∨
    ∃ t tail, s.progress t = .behind tail ∧ (∀ u, (s.progress u).Midway → u = t) ∧ settled = tail.run s.data

/-- The operation would change nothing after the one that is midway, or before it. -/
def Idle (ops : Thread → Program Data) (s : State Data Thread) (t : Thread) : Prop :=
  (∀ settled, Settles s settled → (ops t).run settled = settled) ∨ (ops t).run s.prior = s.prior

/-- The thread disturbs no other and is not disturbed by one. -/
def Undisturbed (ops : Thread → Program Data) (s : State Data Thread) (t : Thread) : Prop :=
  match s.progress t with
  | .ahead (.read next) => next s.data = .done → Idle ops s t
  | .ahead (.commit change next) =>
    (change s.data = s.data ∧ next s.data = .done ∧ Idle ops s t) ∨
      ((∀ u, ¬ (s.progress u).Midway) ∧ Reads s.data (ops t) (.commit change next))
  | .ahead .done | .behind _ => True

theorem serial_append (ops : Thread → Program Data) (d : Data) (before after : List Thread) :
    serial ops d (before ++ after) = serial ops (serial ops d before) after := by
  simp [serial]

theorem over_settled {progress : Progress Data} (finished : progress.Over) : ¬ progress.Midway ∧ ¬ progress.Pending := by
  rcases progress with (_ | _ | _) | (_ | _) <;> simp_all [Progress.Over, Progress.Midway, Progress.Pending]

/-- What is left to do decides whether the thread is midway now. -/
def State.priorTo (s : State Data Thread) : Tail Data → Data
  | .done => s.prior
  | .step .. => s.data

section
variable {ops : Thread → Program Data} {s last : State Data Thread} {t : Thread} {settled d : Data}

theorem settled_data (settles : Settles s settled) (alone : ∀ u, ¬ (s.progress u).Midway) : settled = s.data := by
  rcases settles with ⟨-, same⟩ | ⟨holder, tail, behind, -, same⟩
  · exact same
  · cases tail with
    | done => exact same
    | step => exact absurd (by simp [behind, Progress.Midway]) (alone holder)

theorem priorTo_cases (tail : Tail Data) : s.priorTo tail = s.prior ∨ s.priorTo tail = s.data := by
  cases tail with
  | done => exact .inl rfl
  | step => exact .inr rfl

/-- The data is left as by the operations that have their place in the order and
    those that are pending, in some order. -/
def Ends (ops : Thread → Program Data) (d : Data) (placed : List Thread) (s last : State Data Thread) : Prop :=
  ∃ later order : List Thread, later.Nodup ∧ (∀ t, t ∈ later ↔ (s.progress t).Pending) ∧
    order.Perm (placed ++ later) ∧ last.data = serial ops d order

theorem ends_stays {placed : List Thread} {next : State Data Thread} (ends : Ends ops d placed next last)
    (all : ∀ u, (next.progress u).Pending ↔ (s.progress u).Pending) : Ends ops d placed s last := by
  obtain ⟨later, order, nodup, members, perm, same⟩ := ends
  exact ⟨later, order, nodup, fun u => (members u).trans (all u), perm, same⟩

/-- An operation that changes nothing has its place where it would change nothing. -/
theorem idle_placed {before after : List Thread} (settles : Settles s (serial ops d (before ++ after)))
    (earlier : s.prior = serial ops d before) (idle : Idle ops s t) :
    ∃ before' after' : List Thread, (before' ++ after').Perm (before ++ after ++ [t]) ∧
      serial ops d (before' ++ after') = serial ops d (before ++ after) ∧ serial ops d before' = serial ops d before := by
  rcases idle with idle | idle
  · refine ⟨before, after ++ [t], by simp, ?_, rfl⟩
    rw [← List.append_assoc, serial_append]
    exact idle _ settles
  · have whole : serial ops d (before ++ [t]) = serial ops d before := by
      rw [serial_append, ← earlier]
      exact idle
    refine ⟨before ++ [t], after, ?_, ?_, whole⟩
    · simpa using (@List.perm_append_comm _ [t] after).append_left before
    · rw [serial_append, whole, ← serial_append]

end

section
variable [DecidableEq Thread]

def State.advance (s : State Data Thread) (t : Thread) (prior d : Data) (progress : Progress Data) :
    State Data Thread where
  prior := prior
  data := d
  progress := Function.update s.progress t progress

/-- One thread takes the next part of its operation. -/
def step (s : State Data Thread) (t : Thread) : Option (State Data Thread) :=
  match s.progress t with
  | .ahead .done | .behind .done => none
  | .ahead (.read next) => some (s.advance t s.prior s.data (.ahead (next s.data)))
  | .ahead (.commit change next) =>
    some (s.advance t (s.priorTo (next s.data)) (change s.data) (.behind (next s.data)))
  | .behind (.step change next) => some (s.advance t s.prior (change s.data) (.behind (next s.data)))

variable {ops : Thread → Program Data} {s last : State Data Thread} {t : Thread} {settled prior d : Data}
  {progress : Progress Data}

/-- A step of a thread that is midway neither before nor after it leaves the others
    as they are. -/
theorem settles_outside (here : ¬ (s.progress t).Midway) (there : ¬ progress.Midway) (settles : Settles s settled) :
    Settles (s.advance t prior s.data progress) settled := by
  have same (u : Thread) : ((s.advance t prior s.data progress).progress u).Midway ↔ (s.progress u).Midway := by
    by_cases own : u = t
    · subst own
      simp [State.advance, here, there]
    · simp [State.advance, own]
  rcases settles with ⟨none_, rfl⟩ | ⟨holder, tail, held, only, rfl⟩
  · exact .inl ⟨fun u => (not_congr (same u)).mpr (none_ u), rfl⟩
  · cases tail with
    | done =>
      refine .inl ⟨fun u midway => ?_, rfl⟩
      have between := (same u).mp midway
      obtain rfl := only u between
      simp [held, Progress.Midway] at between
    | step change next =>
      have other : holder ≠ t := by
        rintro rfl
        simp [held, Progress.Midway] at here
      exact .inr ⟨holder, _, by simp [State.advance, other, held], fun u midway => only u ((same u).mp midway), rfl⟩

/-- With no other thread midway, the data settles as the thread's rest leaves it. -/
theorem settles_inside (alone : ∀ u, (s.progress u).Midway → u = t) (prior d : Data)
    (tail : Tail Data) : Settles (s.advance t prior d (.behind tail)) (tail.run d) := by
  refine .inr ⟨t, tail, by simp [State.advance], fun u midway => ?_, rfl⟩
  by_contra other
  exact other (alone u (by simpa [State.advance, other] using midway))

theorem pending_other {u : Thread} (other : u ≠ t) :
    ((s.advance t prior d progress).progress u).Pending ↔ (s.progress u).Pending := by
  simp [State.advance, other]

theorem pending_self : ((s.advance t prior d progress).progress t).Pending ↔ progress.Pending := by
  simp [State.advance]

/-- The thread takes its place, in front or behind. -/
theorem ends_joins {placed placed' : List Thread} {next : State Data Thread} (ends : Ends ops d placed' next last)
    (joins : placed'.Perm (placed ++ [t])) (pending : (s.progress t).Pending) (left : ¬ (next.progress t).Pending)
    (others : ∀ u, u ≠ t → ((next.progress u).Pending ↔ (s.progress u).Pending)) : Ends ops d placed s last := by
  obtain ⟨later, order, nodup, all, perm, same⟩ := ends
  refine ⟨t :: later, order, List.nodup_cons.mpr ⟨fun inside => left ((all t).mp inside), nodup⟩, fun u => ?_,
    perm.trans ((joins.append_right later).trans (by simp)), same⟩
  by_cases own : u = t
  · simp [own, pending]
  · rw [List.mem_cons, all u, others u own]
    simp [own]

/-- The threads that are pending end in some order, each after those that came
    before or in their midst. -/
theorem serial_from {schedule before after : List Thread} (settles : Settles s (serial ops d (before ++ after)))
    (earlier : s.prior = serial ops d before) (undisturbed : Throughout step (Undisturbed ops) s schedule)
    (ran : run step s schedule = some last) (finished : ∀ t, (last.progress t).Over) : Ends ops d (before ++ after) s last := by
  induction schedule generalizing s before after with
  | nil =>
    rw [Runs.run_nil, Option.some.injEq] at ran
    subst ran
    refine ⟨[], before ++ after, .nil, fun t => by simpa using (over_settled (finished t)).2, by simp, ?_⟩
    exact (settled_data settles fun t => (over_settled (finished t)).1).symm
  | cons t rest ih =>
    obtain ⟨next, taken, tail⟩ := run_cons.mp ran
    obtain ⟨here, later⟩ := undisturbed
    have later := later next taken
    have idles (same : Settles next (serial ops d (before ++ after))) (earlierNext : next.prior = s.prior)
        (idle : Idle ops s t) (pending : (s.progress t).Pending) (left : ¬ (next.progress t).Pending)
        (others : ∀ u, u ≠ t → ((next.progress u).Pending ↔ (s.progress u).Pending)) :
        Ends ops d (before ++ after) s last := by
      obtain ⟨before', after', joins, whole, front⟩ := idle_placed settles earlier idle
      have ends := ih (whole ▸ same) (earlierNext.trans (earlier.trans front.symm)) later tail
      exact ends_joins ends joins pending left others
    have left (progress : Progress Data) (finished : ¬ progress.Pending) (prior d : Data) :
        ¬ ((s.advance t prior d progress).progress t).Pending := fun pending => finished (pending_self.mp pending)
    cases stands : s.progress t with
    | ahead program =>
      cases program with
      | done => simp [step, stands] at taken
      | read next =>
        simp only [step, stands, Option.some.injEq] at taken
        subst taken
        simp only [Undisturbed, stands] at here
        have same : Settles (s.advance t s.prior s.data (.ahead (next s.data))) (serial ops d (before ++ after)) :=
          settles_outside (by simp [stands, Progress.Midway]) (by simp [Progress.Midway]) settles
        by_cases ends : next s.data = .done
        · exact idles same rfl (here ends) (by simp [stands, Progress.Pending])
            (left _ (by simp [ends, Progress.Pending]) _ _) fun u other => pending_other other
        · refine ends_stays (ih same earlier later tail) fun u => ?_
          by_cases own : u = t
          · subst own
            rw [pending_self, stands]
            cases rest : next s.data <;> simp_all [Progress.Pending]
          · exact pending_other own
      | commit change next =>
        simp only [step, stands, Option.some.injEq] at taken
        subst taken
        simp only [Undisturbed, stands] at here
        have pending : (s.progress t).Pending := by simp [stands, Progress.Pending]
        have left := left (.behind (next s.data)) (by simp [Progress.Pending])
        rcases here with ⟨same, ends, idle⟩ | ⟨alone, reads⟩
        · refine idles ?_ (by simp [State.advance, State.priorTo, ends]) idle pending (left _ _)
            fun u other => pending_other other
          rw [same, ends]
          exact settles_outside (by simp [stands, Progress.Midway]) (by simp [Progress.Midway]) settles
        · have now := settled_data settles alone
          have inside := settles_inside (fun u midway => (absurd midway (alone u) : u = t)) (s.priorTo (next s.data))
            (change s.data) (next s.data)
          have whole : serial ops d (before ++ after ++ [t]) = (next s.data).run (change s.data) := by
            rw [serial_append, now]
            exact reads.run
          rw [← whole] at inside
          rcases priorTo_cases (next s.data) with same | same
          · rw [List.append_assoc] at inside
            exact ends_joins (ih inside (same.trans earlier) later tail) (by simp) pending (left _ _)
              fun u other => pending_other other
          · exact ends_joins (ih inside (same.trans now.symm) later tail) (.refl _) pending (left _ _)
              fun u other => pending_other other
    | behind rest =>
      cases rest with
      | done => simp [step, stands] at taken
      | step change next =>
        simp only [step, stands, Option.some.injEq] at taken
        subst taken
        have midway : (s.progress t).Midway := by simp [stands, Progress.Midway]
        have same : Settles (s.advance t s.prior (change s.data) (.behind (next s.data))) (serial ops d (before ++ after)) := by
          rcases settles with ⟨alone, -⟩ | ⟨holder, tail, behind, only, settled⟩
          · exact absurd midway (alone t)
          · obtain rfl := only t midway
            rw [behind] at stands
            cases stands
            exact settled ▸ settles_inside only _ _ _
        refine ends_stays (ih same earlier later tail) fun u => ?_
        by_cases own : u = t
        · subst own
          rw [pending_self, stands]
          exact Iff.rfl
        · exact pending_other own

/-- An interleaving of operations that do not disturb each other leaves the data as
    some serial order of them does. -/
theorem serial_of_undisturbed {schedule : List Thread} (undisturbed : Throughout step (Undisturbed ops) (start ops d) schedule)
    (ran : run step (start ops d) schedule = some last) (finished : ∀ t, (last.progress t).Over) :
    ∃ order : List Thread, order.Nodup ∧ (∀ t, t ∈ order ↔ ops t ≠ .done) ∧ last.data = serial ops d order := by
  have settles : Settles (start ops d) (serial ops d ([] ++ [])) := .inl ⟨fun t => by simp [start, Progress.Midway], rfl⟩
  obtain ⟨later, order, nodup, all, perm, ends⟩ : Ends ops d ([] ++ []) (start ops d) last :=
    serial_from settles rfl undisturbed ran finished
  rw [List.append_nil, List.nil_append] at perm
  refine ⟨order, perm.nodup_iff.mpr nodup, fun t => perm.mem_iff.trans ((all t).trans ?_), ends⟩
  cases program : ops t <;> simp [start, program, Progress.Pending]

end

end EllaFi.Serial
