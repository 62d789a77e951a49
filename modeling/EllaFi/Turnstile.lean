import EllaFi.Runs

/-!
A server that any number of clients race for, one at a time. A client that wins
the turn is queued or gives the turn back; the server takes the queued client,
releases the turn when it has what it needs, and finishes later, while the next
client may already be waiting. No turn is won while another is held
(`exclusive`), every client that wins is queued at most once, every queued client
is served once, in order, and every client that is served is finished once
(`Accounted`).
-/
namespace EllaFi.Turnstile
open EllaFi.Runs (run run_history run_reaches)
universe u

section
variable {Client : Type u}

/-- Who holds the turn, and whom the server has released and not finished. While a
    client is served it holds the turn, and nobody is left to finish. -/
inductive Turn (Client : Type u) where
  | free (finishing : Option Client)
  | claimed (client : Client) (finishing : Option Client)
  | queued (client : Client) (finishing : Option Client)
  | serving (client : Client)

inductive Event (Client : Type u) where
  | won (client : Client)
  | posted (client : Client)
  | withdrawn
  | begun (client : Client)
  | released
  | finished
deriving DecidableEq

namespace Turn

/-- The client that has the turn and is not queued yet. -/
def pending : Turn Client → List Client
  | .claimed client _ => [client]
  | _ => []

def waiting : Turn Client → List Client
  | .queued client _ => [client]
  | _ => []

def taken : Turn Client → Bool
  | .free _ => false
  | _ => true

/-- The client that the server is not done with. -/
def current : Turn Client → Option Client
  | .free finishing | .claimed _ finishing | .queued _ finishing => finishing
  | .serving client => some client

/-- The server is done with the client that it released. -/
def finish : Turn Client → Option (Turn Client)
  | .free (some _) => some (.free none)
  | .claimed client (some _) => some (.claimed client none)
  | .queued client (some _) => some (.queued client none)
  | _ => none

end Turn

variable [DecidableEq Client]

def step : Turn Client → Event Client → Option (Turn Client)
  | .free finishing, .won client => some (.claimed client finishing)
  | .claimed holder finishing, .posted client => if holder = client then some (.queued client finishing) else none
  | .claimed _ finishing, .withdrawn => some (.free finishing)
  | .queued next none, .begun client => if next = client then some (.serving client) else none
  | .serving client, .released => some (.free (some client))
  | turn, .finished => turn.finish
  | _, _ => none

/-! ## Logs -/

section
variable (log : List (Event Client))

def winners : List Client := log.filterMap fun | .won client => some client | _ => none

def withdrawals : Nat := log.countP fun e => e matches .withdrawn

def releases : Nat := log.countP fun e => e matches .released

def finishes : Nat := log.countP fun e => e matches .finished

def posts : List Client := log.filterMap fun | .posted client => some client | _ => none

def begins : List Client := log.filterMap fun | .begun client => some client | _ => none

end

/-- What the log says of where the clients are. -/
structure Accounted (log : List (Event Client)) (turn : Turn Client) : Prop where
  earned : (posts log ++ turn.pending).Sublist (winners log)
  claimed : (winners log).length = (posts log).length + withdrawals log + turn.pending.length
  held : (winners log).length = releases log + withdrawals log + turn.taken.toNat
  queued : posts log = begins log ++ turn.waiting
  served : (begins log).length = finishes log + turn.current.toList.length
  last : ∀ client, turn.current = some client → (begins log).getLast? = some client

variable {log : List (Event Client)} {turn next : Turn Client} {event : Event Client}

attribute [local simp] winners posts withdrawals releases begins finishes Turn.pending Turn.waiting Turn.current Turn.taken

theorem step_accounted (accounted : Accounted log turn) (moved : step turn event = some next) :
    Accounted (log ++ [event]) next := by
  obtain ⟨earned, claimed, held, queued, served, last⟩ := accounted
  cases event with
  | won client =>
    cases turn <;> simp only [step, reduceCtorEq, Option.some.injEq] at moved
    subst moved
    simp at earned claimed held queued served last
    exact ⟨by simpa using earned.append_right [client], by simp; omega, by simp; omega, by simpa, by simpa, by simpa⟩
  | posted client =>
    cases turn <;> simp only [step, reduceCtorEq, Option.ite_none_right_eq_some, Option.some.injEq] at moved
    obtain ⟨rfl, rfl⟩ := moved
    simp at earned claimed held queued served last
    exact ⟨by simpa, by simp; omega, by simpa, by simpa, by simpa, by simpa⟩
  | withdrawn =>
    cases turn <;> simp only [step, reduceCtorEq, Option.some.injEq] at moved
    subst moved
    simp at earned claimed held queued served last
    exact ⟨by simpa using (List.sublist_append_left _ _).trans earned, by simp; omega, by simp; omega,
      by simpa, by simpa, by simpa⟩
  | begun client =>
    rcases turn with _ | _ | ⟨_, _ | _⟩ | _ <;>
      simp only [step, reduceCtorEq, Option.ite_none_right_eq_some, Option.some.injEq] at moved
    obtain ⟨rfl, rfl⟩ := moved
    simp at earned claimed held queued served
    exact ⟨by simpa, by simpa, by simpa, by simpa, by simpa, by simp⟩
  | released =>
    cases turn <;> simp only [step, reduceCtorEq, Option.some.injEq] at moved
    subst moved
    simp at earned claimed held queued served last
    exact ⟨by simpa, by simpa, by simp; omega, by simpa, by simpa, by simpa⟩
  | finished =>
    rcases turn with (_ | _) | ⟨_, _ | _⟩ | ⟨_, _ | _⟩ | _ <;>
      simp only [step, Turn.finish, reduceCtorEq, Option.some.injEq] at moved <;> subst moved <;>
        simp at earned claimed held queued served <;>
          exact ⟨by simpa, by simpa, by simpa, by simpa, by simpa, by simp⟩

theorem run_accounted (ran : run step (.free none) log = some turn) : Accounted log turn :=
  run_history (by constructor <;> simp) (fun _ _ _ _ _ accounted moved => step_accounted accounted moved) ran

/-- A turn is won only when every turn won before was released or given back. -/
theorem exclusive {before : List (Event Client)} {client : Client} (ran : run step (.free none) log = some turn)
    (soFar : before ++ [.won client] <+: log) : (winners before).length = releases before + withdrawals before := by
  obtain ⟨middle, next, reached, moved⟩ := run_reaches ran soFar
  have held := (run_accounted reached).held
  cases middle <;> simp only [step, reduceCtorEq] at moved
  simpa using held

end

end EllaFi.Turnstile
