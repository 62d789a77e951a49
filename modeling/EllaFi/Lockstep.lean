import Mathlib.Data.List.Basic

/-!
Two machines that are given the same inputs. Where their outputs for an input tell whether
they agree about it, and agreement keeps them related, they put out the same if and only if
they agree about each input in turn (`trace_eq_iff`).
-/
namespace EllaFi.Lockstep
universe u v w x
variable {First : Type u} {Second : Type v} {Input : Type w} {Out : Type x}

/-- What the inputs bring about in turn. -/
def trace (step : First → Input → First × List Out) : First → List Input → List Out
  | _, [] => []
  | s, i :: rest => (step s i).2 ++ trace step (step s i).1 rest

/-- The state after the inputs. -/
def last (step : First → Input → First × List Out) (s : First) (inputs : List Input) : First :=
  inputs.foldl (fun s i => (step s i).1) s

/-- What holds of each input, in the state in which it comes. -/
def EachInput (step : First → Input → First × List Out) (Holds : First → Input → Prop) : First → List Input → Prop
  | _, [] => True
  | s, i :: rest => Holds s i ∧ EachInput step Holds (step s i).1 rest

theorem trace_inputs {Other : Type*} (step : First → Input → First × List Out) (view : Other → Input) (s : First)
    (inputs : List Other) : trace step s (inputs.map view) = trace (fun s i => step s (view i)) s inputs := by
  induction inputs generalizing s with
  | nil => rfl
  | cons i rest ih => simp only [List.map_cons, trace, ih]

theorem trace_outputs {Other : Type*} (step : First → Input → First × List Out) (view : Out → Other) (s : First)
    (inputs : List Input) :
    (trace step s inputs).map view = trace (fun s i => ((step s i).1, (step s i).2.map view)) s inputs := by
  induction inputs generalizing s with
  | nil => rfl
  | cons i rest ih => simp only [trace, List.map_append, ih]

/-- A machine that another one can be seen in puts out the same. -/
theorem trace_view {first : First → Input → First × List Out} {second : Second → Input → Second × List Out}
    (view : First → Second) (follows : ∀ s i, second (view s) i = (view (first s i).1, (first s i).2)) (s : First)
    (inputs : List Input) : trace second (view s) inputs = trace first s inputs := by
  induction inputs generalizing s with
  | nil => rfl
  | cons i rest ih => simp only [trace, follows, ih]

/-- A log in the state that every step extends by some of what it puts out. -/
theorem last_shows {Entry : Type*} {step : First → Input → First × List Out} (log : First → List Entry)
    (shown : Out → Option Entry) (steps : ∀ s i, log (step s i).1 = log s ++ (step s i).2.filterMap shown) (s : First)
    (inputs : List Input) : log (last step s inputs) = log s ++ (trace step s inputs).filterMap shown := by
  induction inputs generalizing s with
  | nil => simp [last, trace]
  | cons i rest ih =>
    have after : last step s (i :: rest) = last step (step s i).1 rest := rfl
    rw [after, ih, steps, trace, List.filterMap_append, List.append_assoc]

instance decidableEachInput {step : First → Input → First × List Out} {Holds : First → Input → Prop}
    [∀ s i, Decidable (Holds s i)] (s : First) : (inputs : List Input) → Decidable (EachInput step Holds s inputs)
  | [] => .isTrue trivial
  | i :: rest =>
    have : Decidable (EachInput step Holds (step s i).1 rest) := decidableEachInput (step s i).1 rest
    inferInstanceAs (Decidable (_ ∧ _))

/-- The relation may speak of the inputs that are still to come. -/
theorem trace_eq_iff {first : First → Input → First × List Out} {second : Second → Input → Second × List Out}
    {Agree : First → Input → Prop} {Related : First → Second → List Input → Prop}
    (agrees : ∀ s t i rest, Related s t (i :: rest) → Agree s i →
      (first s i).2 = (second t i).2 ∧ Related (first s i).1 (second t i).1 rest)
    (differs : ∀ s t i rest, Related s t (i :: rest) → ¬ Agree s i →
      ∀ later others, (first s i).2 ++ later ≠ (second t i).2 ++ others)
    {s : First} {t : Second} {inputs : List Input} (related : Related s t inputs) :
    trace first s inputs = trace second t inputs ↔ EachInput first Agree s inputs := by
  induction inputs generalizing s t with
  | nil => exact iff_of_true rfl trivial
  | cons i rest ih =>
    by_cases agree : Agree s i
    · obtain ⟨same, after⟩ := agrees s t i rest related agree
      rw [trace, trace, EachInput, same, List.append_cancel_left_eq, ih after]
      exact (and_iff_right agree).symm
    · exact iff_of_false (differs s t i rest related agree _ _) fun each => agree each.1

end EllaFi.Lockstep
