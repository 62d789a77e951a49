import Mathlib.Data.List.Basic

/-!
A start-up that creates handles one after the other, while the activities that it has
enabled already run. In a start-up that creates all that an activity needs before it
enables it, every live activity has what it needs at every moment (`provided_begin`,
`provided_advance`).
-/
namespace EllaFi.Startup
universe u v
variable {Handle : Type u} {Activity : Type v}

/-- One operation of a start-up. -/
inductive Op (Handle : Type u) (Activity : Type v) where
  | creates (handle : Handle)
  | uses (handle : Handle)
  | enables (activity : Activity)
  | disables (activity : Activity)
deriving DecidableEq, Repr

/-- How far a start-up has come. -/
structure Progress (Handle : Type u) (Activity : Type v) where
  created : List Handle
  live : List Activity
  todo : List (Op Handle Activity)
deriving DecidableEq, Repr

def begin_ (todo : List (Op Handle Activity)) : Progress Handle Activity := { created := [], live := [], todo }

def advance [DecidableEq Activity] (progress : Progress Handle Activity) : Option (Progress Handle Activity) :=
  match progress.todo with
  | [] => none
  | .creates handle :: todo => some { progress with created := handle :: progress.created, todo }
  | .uses _ :: todo => some { progress with todo }
  | .enables activity :: todo => some { progress with live := activity :: progress.live, todo }
  | .disables activity :: todo => some { progress with live := progress.live.filter (· ≠ activity), todo }

/-- What the next operation uses. -/
def nextUse (progress : Progress Handle Activity) : List Handle :=
  match progress.todo with
  | .uses handle :: _ => [handle]
  | _ => []

/-- What an operation uses, and what the activity that it enables needs, is created
    before. -/
def Ordered (needs : Activity → List Handle) : List Handle → List (Op Handle Activity) → Prop
  | _, [] => True
  | created, .creates handle :: todo => Ordered needs (handle :: created) todo
  | created, .uses handle :: todo => handle ∈ created ∧ Ordered needs created todo
  | created, .enables activity :: todo => (∀ handle ∈ needs activity, handle ∈ created) ∧ Ordered needs created todo
  | created, .disables _ :: todo => Ordered needs created todo

instance decidableOrdered [DecidableEq Handle] (needs : Activity → List Handle) :
    ∀ (created : List Handle) (todo : List (Op Handle Activity)), Decidable (Ordered needs created todo)
  | _, [] => instDecidableTrue
  | created, .creates handle :: todo => decidableOrdered needs (handle :: created) todo
  | created, .uses _ :: todo =>
    have := decidableOrdered needs created todo
    inferInstanceAs (Decidable (_ ∧ _))
  | created, .enables _ :: todo =>
    have := decidableOrdered needs created todo
    inferInstanceAs (Decidable (_ ∧ _))
  | created, .disables _ :: todo => decidableOrdered needs created todo

/-- Every live activity has what it needs, and so will those to come. -/
structure Provided (needs : Activity → List Handle) (progress : Progress Handle Activity) : Prop where
  live : ∀ activity ∈ progress.live, ∀ handle ∈ needs activity, handle ∈ progress.created
  ordered : Ordered needs progress.created progress.todo

section
variable {needs : Activity → List Handle} {progress next : Progress Handle Activity}

theorem provided_begin {todo : List (Op Handle Activity)} (ordered : Ordered needs [] todo) :
    Provided needs (begin_ todo) := ⟨by simp [begin_], ordered⟩

theorem provided_advance [DecidableEq Activity] (provided : Provided needs progress) (taken : advance progress = some next) :
    Provided needs next := by
  obtain ⟨created, active, todo⟩ := progress
  obtain ⟨live, ordered⟩ := provided
  cases todo with
  | nil => cases taken
  | cons op todo =>
    cases op with
    | creates handle =>
      cases taken
      exact ⟨fun activity here needed use => List.mem_cons_of_mem _ (live activity here needed use), ordered⟩
    | uses handle =>
      cases taken
      exact ⟨live, ordered.2⟩
    | enables activity =>
      cases taken
      refine ⟨fun other here => ?_, ordered.2⟩
      rcases List.mem_cons.mp here with rfl | before
      · exact ordered.1
      · exact live other before
    | disables activity =>
      cases taken
      exact ⟨fun other here => live other (List.mem_filter.mp here).1, ordered⟩

theorem nextUse_created (provided : Provided needs progress) : ∀ handle ∈ nextUse progress, handle ∈ progress.created := by
  obtain ⟨created, active, todo⟩ := progress
  intro handle used
  cases todo with
  | nil => exact absurd used List.not_mem_nil
  | cons op todo =>
    cases op with
    | uses other =>
      rw [List.mem_singleton.mp used]
      exact provided.ordered.1
    | creates other => exact absurd used List.not_mem_nil
    | enables activity => exact absurd used List.not_mem_nil
    | disables activity => exact absurd used List.not_mem_nil

end

end EllaFi.Startup
