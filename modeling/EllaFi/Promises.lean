import Mathlib.Data.List.Basic

/-!
A record in memory that is saved as a whole, and what has been promised of it. A
promise names keys; it stands as long as each of them has a value that it had since.
A save that fails leaves the keys of the promise open until one succeeds. A restart
loads the saved record, and keeps every promise exactly when it keeps the open ones
(`restart_keeps_iff`).
-/
namespace EllaFi.Promises
universe u v w
variable {Record : Type u} {Key : Type v} {Value : Type w}

/-- A record in memory, and the one that a restart loads. -/
structure Store (Record : Type u) where
  ram : Record
  saved : Record

def Store.write (after : Record) (saves : Bool) (store : Store Record) : Store Record where
  ram := after
  saved := if saves then after else store.saved

def Store.restart (store : Store Record) : Store Record := { store with ram := store.saved }

/-- Of every key the values that it had since it was promised, none if it never was,
    and the keys that were promised since the last save. -/
structure Promised (Key : Type v) (Value : Type w) where
  since : Key → List Value
  unsaved : List Key

def Promised.nothing : Promised Key Value := { since := fun _ => [], unsaved := [] }

section
variable (valueOf : Record → Key → Value)

/-- Every promised key has a value in the record that it had since. -/
def Had (record : Record) (since : Key → List Value) : Prop := ∀ key, since key ≠ [] → valueOf record key ∈ since key

/-- A restart would find a value of every open key that it had since. -/
def OpenSaved (store : Store Record) (promised : Promised Key Value) : Prop :=
  ∀ key ∈ promised.unsaved, valueOf store.saved key ∈ promised.since key

/-- The promises stand in memory, and those that are not open in the saved record. -/
structure Tracked (store : Store Record) (promised : Promised Key Value) : Prop where
  inRam : Had valueOf store.ram promised.since
  inSaved : ∀ key, promised.since key ≠ [] → key ∈ promised.unsaved ∨ valueOf store.saved key ∈ promised.since key
  promisedOpen : ∀ key ∈ promised.unsaved, promised.since key ≠ []

variable [DecidableEq Key]

/-- The values of the promised keys with those that they have now; the values of
    `keys` are promised anew. -/
def heldSince (keys : List Key) (after : Record) (since : Key → List Value) (key : Key) : List Value :=
  if key ∈ keys then [valueOf after key] else if since key = [] then [] else since key ++ [valueOf after key]

def Promised.write (keys : List Key) (after : Record) (saves : Bool) (promised : Promised Key Value) :
    Promised Key Value where
  since := heldSince valueOf keys after promised.since
  unsaved := if saves then [] else promised.unsaved ++ keys

def Promised.restart (loaded : Record) (promised : Promised Key Value) : Promised Key Value where
  since := heldSince valueOf [] loaded promised.since
  unsaved := []

end

section
variable {valueOf : Record → Key → Value} {store : Store Record} {promised : Promised Key Value}

/-- Only the open promises can be lost. -/
theorem restart_keeps_iff (tracked : Tracked valueOf store promised) :
    Had valueOf store.restart.ram promised.since ↔ OpenSaved valueOf store promised := by
  constructor
  · intro had key isOpen
    exact had key (tracked.promisedOpen key isOpen)
  · intro openSaved key isPromised
    rcases tracked.inSaved key isPromised with isOpen | held
    · exact openSaved key isOpen
    · exact held

theorem tracked_nothing : Tracked valueOf store Promised.nothing where
  inRam _ isPromised := absurd rfl isPromised
  inSaved _ isPromised := absurd rfl isPromised
  promisedOpen _ isOpen := absurd isOpen List.not_mem_nil

variable [DecidableEq Key] {keys : List Key} {after record : Record} {since : Key → List Value} {key : Key}

theorem heldSince_ne_nil : heldSince valueOf keys after since key ≠ [] ↔ key ∈ keys ∨ since key ≠ [] := by
  unfold heldSince
  by_cases anew : key ∈ keys
  · simp [anew]
  · by_cases never : since key = []
    · simp [anew, never]
    · simp [anew, never]

/-- The value that a promised key has now is one that it had since. -/
theorem had_now : Had valueOf after (heldSince valueOf keys after since) := by
  intro key isPromised
  unfold heldSince at isPromised ⊢
  split
  · exact List.mem_singleton_self _
  · next old =>
    rw [if_neg old] at isPromised
    split
    · next never => exact absurd (if_pos never) isPromised
    · exact List.mem_append_right _ (List.mem_singleton_self _)

theorem mem_heldSince {value : Value} (old : key ∉ keys) (held : value ∈ since key) :
    value ∈ heldSince valueOf keys after since key := by
  rw [heldSince, if_neg old, if_neg (List.ne_nil_of_mem held)]
  exact List.mem_append_left _ held

theorem had_still (had : Had valueOf record since) : Had valueOf record (heldSince valueOf [] after since) := by
  intro key isPromised
  rcases heldSince_ne_nil.mp isPromised with anew | before
  · exact absurd anew List.not_mem_nil
  · exact mem_heldSince List.not_mem_nil (had key before)

theorem tracked_write (tracked : Tracked valueOf store promised) (keys : List Key) (after : Record) (saves : Bool) :
    Tracked valueOf (store.write after saves) (promised.write valueOf keys after saves) where
  inRam := had_now
  inSaved := by
    intro key isPromised
    cases saves with
    | true => exact .inr (had_now key isPromised)
    | false =>
      by_cases anew : key ∈ keys
      · exact .inl (List.mem_append_right _ anew)
      · rcases heldSince_ne_nil.mp isPromised with anew' | before
        · exact absurd anew' anew
        · rcases tracked.inSaved key before with isOpen | held
          · exact .inl (List.mem_append_left _ isOpen)
          · exact .inr (mem_heldSince anew held)
  promisedOpen := by
    intro key isOpen
    refine heldSince_ne_nil.mpr ?_
    cases saves with
    | true => exact absurd isOpen List.not_mem_nil
    | false =>
      rcases List.mem_append.mp isOpen with before | anew
      · exact .inr (tracked.promisedOpen key before)
      · exact .inl anew

/-- What a restart loads is what the promises are judged by from then on. -/
theorem tracked_restart : Tracked valueOf store.restart (promised.restart valueOf store.saved) := by
  have loaded : Had valueOf store.saved (heldSince valueOf [] store.saved promised.since) := had_now
  exact
    { inRam := loaded
      inSaved := fun key isPromised => .inr (loaded key isPromised)
      promisedOpen := fun _ isOpen => absurd isOpen List.not_mem_nil }

end

end EllaFi.Promises
