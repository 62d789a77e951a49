import Mathlib.Data.List.Induction

/-!
A table of addresses, each leased to at most one holder, where a holder that takes
an address gives up any other that it has. After any number of leases, whether an
address is a holder's depends on the last lease that is about either of them, and
on the table only where there is none (`foldl_grant_iff`).
-/
namespace EllaFi.Leases
universe u v
variable {Address : Type u} {Holder : Type v} [DecidableEq Address] [DecidableEq Holder]

/-- The table after an address was leased to a holder. -/
def grant (table : Address → Option Holder) (lease : Address × Holder) (address : Address) : Option Holder :=
  if address = lease.1 then some lease.2
  else if table address = some lease.2 then none
  else table address

/-- The last of the leases that is about the address or the holder. -/
def lastWord (address : Address) (holder : Holder) (leases : List (Address × Holder)) : Option (Address × Holder) :=
  (leases.filter fun lease => lease.1 = address ∨ lease.2 = holder).getLast?

variable {table : Address → Option Holder} {leases : List (Address × Holder)} {address : Address} {holder : Holder}

@[simp] theorem lastWord_nil : lastWord address holder [] = none := rfl

theorem lastWord_append_singleton (leases : List (Address × Holder)) (lease : Address × Holder) :
    lastWord address holder (leases ++ [lease]) =
      if lease.1 = address ∨ lease.2 = holder then some lease else lastWord address holder leases := by
  unfold lastWord
  rw [List.filter_append]
  by_cases about : lease.1 = address ∨ lease.2 = holder
  · simp [about]
  · simp [about]

theorem lastWord_concerns {lease : Address × Holder} (last : lastWord address holder leases = some lease) :
    lease ∈ leases ∧ (lease.1 = address ∨ lease.2 = holder) := by
  simpa using List.mem_filter.mp (List.mem_of_getLast? last)

theorem grant_iff (lease : Address × Holder) :
    grant table lease address = some holder ↔
      if lease.1 = address ∨ lease.2 = holder then lease = (address, holder) else table address = some holder := by
  obtain ⟨given, taker⟩ := lease
  unfold grant
  by_cases here : address = given
  · subst here
    simp
  · by_cases mine : taker = holder
    · subst mine
      simp only [here, if_false, or_true, if_true, Prod.mk.injEq, and_true]
      constructor
      · intro held
        split at held
        · cases held
        · next free => exact absurd held free
      · rintro rfl
        exact absurd rfl here
    · simp only [here, if_false, Ne.symm here, mine, or_self]
      constructor
      · intro held
        split at held
        · cases held
        · exact held
      · intro held
        rw [if_neg (by rw [held]; simpa using Ne.symm mine), held]

/-- Whose an address is after a number of leases. -/
theorem foldl_grant_iff (table : Address → Option Holder) (leases : List (Address × Holder)) (address : Address)
    (holder : Holder) :
    leases.foldl grant table address = some holder ↔
      match lastWord address holder leases with
      | some lease => lease = (address, holder)
      | none => table address = some holder := by
  induction leases using List.reverseRecOn with
  | nil => rfl
  | append_singleton leases lease ih =>
    rw [List.foldl_append, List.foldl_cons, List.foldl_nil, grant_iff, lastWord_append_singleton]
    by_cases about : lease.1 = address ∨ lease.2 = holder
    · rw [if_pos about, if_pos about]
    · rw [if_neg about, if_neg about]
      exact ih

/-- A holder that takes an address keeps it until it is leased to another, or the
    holder takes another. -/
theorem foldl_grant_taken {before after : List (Address × Holder)}
    (table : Address → Option Holder) (address : Address) (holder : Holder)
    (otherHolders : ∀ lease ∈ after, lease.2 ≠ holder) :
    (before ++ (address, holder) :: after).foldl grant table address = some holder ↔
      ∀ lease ∈ after, lease.1 ≠ address := by
  rw [List.foldl_append, List.foldl_cons, foldl_grant_iff]
  cases last : lastWord address holder after with
  | none =>
    have quiet := List.getLast?_eq_none_iff.mp last
    rw [List.filter_eq_nil_iff] at quiet
    simp only [grant, if_true, true_iff]
    intro lease inside same
    exact quiet lease inside (by simp [same])
  | some lease =>
    obtain ⟨inside, about⟩ := lastWord_concerns last
    have taken : lease.1 = address := about.resolve_right (otherHolders lease inside)
    constructor
    · rintro rfl
      exact absurd rfl (otherHolders _ inside)
    · intro free
      exact absurd taken (free lease inside)

end EllaFi.Leases
