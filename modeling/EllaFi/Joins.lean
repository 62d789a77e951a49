import EllaFi.Totals
import Mathlib.Data.Multiset.Lattice
import Mathlib.Order.WithBot

/-!
Tables whose values only rise: an entry is written where the key has no value, or
one of lower rank. Writing a list of entries is then a join: it leaves under each
key the highest rank of the value that was there and the entries of the key
(`rankOf_foldl_raise`), in whichever order they come (`rankOf_foldl_perm`), and
writing some of them again changes nothing (`foldl_raise_again`).
-/
namespace EllaFi.Joins
open EllaFi.Totals
universe u v w
variable {Key : Type u} {Value : Type v} {Rank : Type w} [DecidableEq Key] (rank : Value → Rank)

/-- The rank of what a table has under a key; `⊥` is below every value. -/
def rankOf (table : Table Key Value) (key : Key) : WithBot Rank := (table.lookup key).elim ⊥ fun value => rank value

theorem mem_iff_rankOf {table : Table Key Value} {key : Key} : key ∈ table ↔ rankOf rank table key ≠ ⊥ := by
  rw [← AList.lookup_isSome, rankOf]
  cases table.lookup key <;> simp

variable [LinearOrder Rank]

/-- The entry is written, unless the key has a value of the same rank or higher. -/
def raise (table : Table Key Value) (entry : Key × Value) : Table Key Value :=
  match table.lookup entry.1 with
  | none => table.insert entry.1 entry.2
  | some value => if rank entry.2 ≤ rank value then table else table.insert entry.1 entry.2

/-- The highest rank of a key's entries. -/
def highest (key : Key) (entries : List (Key × Value)) : WithBot Rank :=
  Multiset.sup ((entries.filter fun entry => entry.1 = key).map fun entry => (rank entry.2 : WithBot Rank))

section
variable {rank} {table : Table Key Value} {entries others : List (Key × Value)} {entry : Key × Value} {key : Key}

theorem highest_cons (entry : Key × Value) (rest : List (Key × Value)) (key : Key) :
    highest rank key (entry :: rest) = (if entry.1 = key then (rank entry.2 : WithBot Rank) else ⊥) ⊔
      highest rank key rest := by
  by_cases here : entry.1 = key
  · simp [highest, here]
  · simp [highest, here]

theorem highest_perm (perm : entries.Perm others) (key : Key) : highest rank key entries = highest rank key others :=
  congrArg Multiset.sup (Multiset.coe_eq_coe.mpr ((perm.filter _).map _))

theorem le_highest (inside : entry ∈ entries) : (rank entry.2 : WithBot Rank) ≤ highest rank entry.1 entries :=
  Multiset.le_sup (Multiset.mem_coe.mpr (List.mem_map.mpr ⟨entry, List.mem_filter.mpr ⟨inside, by simp⟩, rfl⟩))

theorem highest_bot : highest rank key entries = ⊥ ↔ ∀ entry ∈ entries, entry.1 ≠ key := by
  induction entries with
  | nil => simp [highest]
  | cons first rest ih =>
    rw [highest_cons, sup_eq_bot_iff, ih, List.forall_mem_cons]
    by_cases here : first.1 = key <;> simp [here]

/-- One entry is a join at its key. -/
theorem rankOf_raise (table : Table Key Value) (entry : Key × Value) (key : Key) :
    rankOf rank (raise rank table entry) key =
      rankOf rank table key ⊔ if entry.1 = key then (rank entry.2 : WithBot Rank) else ⊥ := by
  have written : rankOf rank (table.insert entry.1 entry.2) key =
      if entry.1 = key then (rank entry.2 : WithBot Rank) else rankOf rank table key := by
    rw [rankOf, lookup_insert_eq]
    by_cases here : entry.1 = key
    · simp [here]
    · simp [here, Ne.symm here, rankOf]
  unfold raise
  split
  · next absent =>
    rw [written]
    by_cases here : entry.1 = key
    · subst here
      simp [rankOf, absent]
    · simp [here]
  · next value found =>
    have known : rankOf rank table entry.1 = rank value := by simp [rankOf, found]
    split
    · next low =>
      by_cases here : entry.1 = key
      · subst here
        rw [if_pos rfl, known, sup_eq_left.mpr (WithBot.coe_le_coe.mpr low)]
      · simp [here]
    · next high =>
      rw [written]
      by_cases here : entry.1 = key
      · subst here
        rw [if_pos rfl, if_pos rfl, known, sup_eq_right.mpr (WithBot.coe_le_coe.mpr (le_of_not_ge high))]
      · simp [here]

/-- Writing a list of entries leaves the highest rank under every key. -/
theorem rankOf_foldl_raise (entries : List (Key × Value)) (table : Table Key Value) (key : Key) :
    rankOf rank (entries.foldl (raise rank) table) key = rankOf rank table key ⊔ highest rank key entries := by
  induction entries generalizing table with
  | nil => simp [highest]
  | cons entry rest ih => rw [List.foldl_cons, ih, rankOf_raise, highest_cons, sup_assoc]

theorem rankOf_foldl_perm (perm : entries.Perm others) (table : Table Key Value) (key : Key) :
    rankOf rank (entries.foldl (raise rank) table) key = rankOf rank (others.foldl (raise rank) table) key := by
  rw [rankOf_foldl_raise, rankOf_foldl_raise, highest_perm perm]

theorem mem_foldl_raise : key ∈ entries.foldl (raise rank) table ↔ key ∈ table ∨ ∃ entry ∈ entries, entry.1 = key := by
  rw [mem_iff_rankOf rank, rankOf_foldl_raise, ne_eq, sup_eq_bot_iff, not_and_or, mem_iff_rankOf rank, highest_bot]
  simp

/-- The only entry of a key has its highest rank. -/
theorem highest_unique (distinct : (entries.map (·.1)).Nodup) (inside : entry ∈ entries) :
    highest rank entry.1 entries = (rank entry.2 : WithBot Rank) := by
  induction entries with
  | nil => cases inside
  | cons first rest ih =>
    obtain ⟨fresh, others⟩ := List.nodup_cons.mp distinct
    rw [highest_cons]
    rcases List.mem_cons.mp inside with rfl | later
    · have absent : highest rank entry.1 rest = ⊥ :=
        highest_bot.mpr fun other there same => fresh (List.mem_map.mpr ⟨other, there, same⟩)
      rw [if_pos rfl, absent, sup_bot_eq]
    · have apart : first.1 ≠ entry.1 := fun same => fresh (List.mem_map.mpr ⟨entry, later, same.symm⟩)
      rw [if_neg apart, ih others later, bot_sup_eq]

theorem lookup_raise_ne (apart : entry.1 ≠ key) : (raise rank table entry).lookup key = table.lookup key := by
  unfold raise
  split
  · exact AList.lookup_insert_ne (Ne.symm apart)
  · split
    · rfl
    · exact AList.lookup_insert_ne (Ne.symm apart)

theorem lookup_foldl_raise_ne (apart : ∀ entry ∈ entries, entry.1 ≠ key) (table : Table Key Value) :
    (entries.foldl (raise rank) table).lookup key = table.lookup key := by
  induction entries generalizing table with
  | nil => rfl
  | cons first rest ih =>
    obtain ⟨own, others⟩ := List.forall_mem_cons.mp apart
    rw [List.foldl_cons, ih others, lookup_raise_ne own]

theorem lookup_raise_self (higher : rankOf rank table entry.1 < (rank entry.2 : WithBot Rank)) :
    (raise rank table entry).lookup entry.1 = some entry.2 := by
  unfold raise
  split
  · exact AList.lookup_insert _
  · next value found =>
    have low : ¬ rank entry.2 ≤ rank value := by
      rw [rankOf, found, Option.elim_some] at higher
      exact not_le_of_gt (WithBot.coe_lt_coe.mp higher)
    rw [if_neg low]
    exact AList.lookup_insert _

/-- The only entry of a key is written if it is higher than what is there. -/
theorem lookup_foldl_raise (distinct : (entries.map (·.1)).Nodup) (inside : entry ∈ entries)
    (higher : rankOf rank table entry.1 < (rank entry.2 : WithBot Rank)) :
    (entries.foldl (raise rank) table).lookup entry.1 = some entry.2 := by
  induction entries generalizing table with
  | nil => cases inside
  | cons first rest ih =>
    obtain ⟨fresh, others⟩ := List.nodup_cons.mp distinct
    rw [List.foldl_cons]
    rcases List.mem_cons.mp inside with rfl | later
    · have apart : ∀ other ∈ rest, other.1 ≠ entry.1 := fun other there same =>
        fresh (List.mem_map.mpr ⟨other, there, same⟩)
      rw [lookup_foldl_raise_ne apart, lookup_raise_self higher]
    · have apart : first.1 ≠ entry.1 := fun same => fresh (List.mem_map.mpr ⟨entry, later, same.symm⟩)
      refine ih others later ?_
      rwa [rankOf, lookup_raise_ne apart, ← rankOf]

/-- An entry that is no higher than what is there is not written. -/
theorem raise_of_le (low : (rank entry.2 : WithBot Rank) ≤ rankOf rank table entry.1) : raise rank table entry = table := by
  unfold raise
  split
  · next absent => simp [rankOf, absent] at low
  · next value found => rw [if_pos (by simpa [rankOf, found] using low)]

theorem foldl_raise_of_le (low : ∀ entry ∈ entries, (rank entry.2 : WithBot Rank) ≤ rankOf rank table entry.1) :
    entries.foldl (raise rank) table = table := by
  induction entries with
  | nil => rfl
  | cons entry rest ih =>
    obtain ⟨here, later⟩ := List.forall_mem_cons.mp low
    rw [List.foldl_cons, raise_of_le here, ih later]

/-- Entries that are among those that were written change nothing. -/
theorem foldl_raise_again (again : ∀ entry ∈ entries, entry ∈ others) (table : Table Key Value) :
    entries.foldl (raise rank) (others.foldl (raise rank) table) = others.foldl (raise rank) table := by
  refine foldl_raise_of_le fun entry inside => ?_
  rw [rankOf_foldl_raise]
  exact le_sup_of_le_right (le_highest (again entry inside))

end

end EllaFi.Joins
