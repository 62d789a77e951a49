import Mathlib.Algebra.BigOperators.Group.List.Basic
import Mathlib.Data.List.AList
import Mathlib.Data.List.Induction

/-!
Tables of values by key, built in one pass over a list. Adding amounts up leaves
under each key the sum of its amounts (`total_foldl_add`), writing values leaves the
last one (`lookup_foldl_insert`), and revising each of several keys once leaves
every other alone (`lookup_foldl_revise`).
-/
namespace EllaFi.Totals
universe u v
variable {Key : Type u} {Value : Type v} [DecidableEq Key]

abbrev Table (Key : Type u) (Value : Type v) : Type (max u v) := AList fun _ : Key => Value

/-! ## Values -/

/-- Every value changed in place. -/
def mapValues (change : Key → Value → Value) (table : Table Key Value) : Table Key Value where
  entries := table.entries.map fun entry => ⟨entry.1, change entry.1 entry.2⟩
  nodupKeys := by
    have nodup := table.nodupKeys
    rw [List.NodupKeys, List.keys] at nodup ⊢
    rw [List.map_map]
    exact nodup

theorem dlookup_map (change : Key → Value → Value) (entries : List (Sigma fun _ : Key => Value)) (key : Key) :
    (entries.map fun entry => (⟨entry.1, change entry.1 entry.2⟩ : Sigma fun _ : Key => Value)).dlookup key =
      (entries.dlookup key).map (change key) := by
  induction entries with
  | nil => rfl
  | cons entry rest ih =>
    obtain ⟨found, value⟩ := entry
    by_cases here : key = found
    · subst here
      rw [List.map_cons, List.dlookup_cons_eq, List.dlookup_cons_eq, Option.map_some]
    · rw [List.map_cons, List.dlookup_cons_ne _ _ here, List.dlookup_cons_ne _ _ here, ih]

@[simp] theorem lookup_mapValues (change : Key → Value → Value) (table : Table Key Value) (key : Key) :
    (mapValues change table).lookup key = (table.lookup key).map (change key) :=
  dlookup_map change table.entries key

theorem lookup_insert_eq (table : Table Key Value) (written key : Key) (value : Value) :
    (table.insert written value).lookup key = if key = written then some value else table.lookup key := by
  by_cases here : key = written
  · subst here
    rw [if_pos rfl, AList.lookup_insert]
  · rw [if_neg here, AList.lookup_insert_ne here]

/-- The last value written under a key. -/
def lastOf (key : Key) (entries : List (Key × Value)) : Option Value :=
  ((entries.filter fun entry => entry.1 = key).getLast?).map (·.2)

theorem lastOf_append_singleton (key : Key) (entries : List (Key × Value)) (entry : Key × Value) :
    lastOf key (entries ++ [entry]) = if entry.1 = key then some entry.2 else lastOf key entries := by
  unfold lastOf
  rw [List.filter_append]
  by_cases here : entry.1 = key
  · simp [here]
  · simp [here]

theorem lastOf_mem {key : Key} {value : Value} {entries : List (Key × Value)}
    (last : lastOf key entries = some value) : (key, value) ∈ entries := by
  obtain ⟨⟨found, own⟩, inLast, rfl⟩ := Option.map_eq_some_iff.mp last
  obtain ⟨inside, same⟩ := List.mem_filter.mp (List.mem_of_getLast? inLast)
  obtain rfl : found = key := by simpa using same
  exact inside

theorem lastOf_none {key : Key} {entries : List (Key × Value)} :
    lastOf key entries = none ↔ ∀ entry ∈ entries, entry.1 ≠ key := by
  simp [lastOf]

theorem lookup_foldl_insert (entries : List (Key × Value)) (table : Table Key Value) (key : Key) :
    (entries.foldl (fun table entry => table.insert entry.1 entry.2) table).lookup key =
      (lastOf key entries).or (table.lookup key) := by
  induction entries using List.reverseRecOn with
  | nil => rfl
  | append_singleton before entry ih =>
    rw [List.foldl_append, List.foldl_cons, List.foldl_nil, lookup_insert_eq, lastOf_append_singleton, ih]
    by_cases here : key = entry.1
    · simp [here]
    · simp [here, Ne.symm here]

/-- A key is given a value that depends on the one it has. -/
def revise (value : Key → Option Value → Value) (table : Table Key Value) (key : Key) : Table Key Value :=
  table.insert key (value key (table.lookup key))

theorem lookup_foldl_revise {keys : List Key} (distinct : keys.Nodup) (value : Key → Option Value → Value)
    (table : Table Key Value) (key : Key) :
    (keys.foldl (revise value) table).lookup key =
      if key ∈ keys then some (value key (table.lookup key)) else table.lookup key := by
  induction keys generalizing table with
  | nil => simp
  | cons first rest ih =>
    obtain ⟨fresh, distinctRest⟩ := List.nodup_cons.mp distinct
    rw [List.foldl_cons, ih distinctRest, revise, lookup_insert_eq]
    by_cases here : key = first
    · subst here
      simp [fresh]
    · simp [here]

/-- Entries that each change the value of their key change it one after the other. -/
theorem lookup_foldl_change {Entry : Type*} (change : Option Value → Entry → Value) (entries : List (Key × Entry))
    (table : Table Key Value) (key : Key) :
    (entries.foldl (fun table entry => table.insert entry.1 (change (table.lookup entry.1) entry.2)) table).lookup key =
      ((entries.filter fun entry => entry.1 = key).map (·.2)).foldl (fun cur entry => some (change cur entry))
        (table.lookup key) := by
  induction entries generalizing table with
  | nil => rfl
  | cons entry rest ih =>
    rw [List.foldl_cons, ih, lookup_insert_eq]
    by_cases here : entry.1 = key
    · subst here
      simp
    · simp [here, Ne.symm here]

/-! ## Sums -/

section
variable {Amount : Type v} [AddCommMonoid Amount]

/-- The amount under a key. -/
def total (table : Table Key Amount) (key : Key) : Amount := (table.lookup key).getD 0

def add (table : Table Key Amount) (entry : Key × Amount) : Table Key Amount :=
  table.insert entry.1 (total table entry.1 + entry.2)

/-- The sum of the amounts of a key in a list. -/
def sumOf (key : Key) (entries : List (Key × Amount)) : Amount :=
  ((entries.filter fun entry => entry.1 = key).map (·.2)).sum

@[simp] theorem sumOf_nil (key : Key) : sumOf key ([] : List (Key × Amount)) = 0 := rfl

theorem sumOf_append (key : Key) (before after : List (Key × Amount)) :
    sumOf key (before ++ after) = sumOf key before + sumOf key after := by
  simp [sumOf, List.filter_append]

theorem sumOf_cons (key : Key) (entry : Key × Amount) (rest : List (Key × Amount)) :
    sumOf key (entry :: rest) = (if entry.1 = key then entry.2 else 0) + sumOf key rest := by
  by_cases here : entry.1 = key
  · simp [sumOf, here]
  · simp [sumOf, here]

@[simp] theorem total_empty (key : Key) : total (∅ : Table Key Amount) key = 0 := rfl

theorem total_add (table : Table Key Amount) (entry : Key × Amount) (key : Key) :
    total (add table entry) key = total table key + if entry.1 = key then entry.2 else 0 := by
  unfold add
  rw [total, lookup_insert_eq]
  by_cases here : key = entry.1
  · subst here
    simp
  · simp [here, Ne.symm here, total]

theorem total_foldl_add (entries : List (Key × Amount)) (table : Table Key Amount) (key : Key) :
    total (entries.foldl add table) key = total table key + sumOf key entries := by
  induction entries generalizing table with
  | nil => simp
  | cons entry rest ih => rw [List.foldl_cons, ih, total_add, sumOf_cons, add_assoc]

theorem mem_foldl_add (entries : List (Key × Amount)) (table : Table Key Amount) (key : Key) :
    key ∈ entries.foldl add table ↔ key ∈ table ∨ ∃ entry ∈ entries, entry.1 = key := by
  induction entries generalizing table with
  | nil => simp
  | cons entry rest ih =>
    rw [List.foldl_cons, ih, add, AList.mem_insert]
    constructor
    · rintro ((rfl | before) | ⟨other, inside, same⟩)
      · exact .inr ⟨entry, List.mem_cons_self, rfl⟩
      · exact .inl before
      · exact .inr ⟨other, List.mem_cons_of_mem _ inside, same⟩
    · rintro (before | ⟨other, inside, same⟩)
      · exact .inl (.inr before)
      · rcases List.mem_cons.mp inside with rfl | later
        · exact .inl (.inl same.symm)
        · exact .inr ⟨other, later, same⟩

/-- The keys that have an amount have their sum, and the others nothing. -/
theorem lookup_foldl_add (entries : List (Key × Amount)) (key : Key) :
    (entries.foldl add ∅).lookup key =
      if ∃ entry ∈ entries, entry.1 = key then some (sumOf key entries) else none := by
  have listed := mem_foldl_add entries (∅ : Table Key Amount) key
  split
  · next inside =>
    obtain ⟨sum, there⟩ := Option.isSome_iff_exists.mp (AList.lookup_isSome.mpr (listed.mpr (.inr inside)))
    have value : total (entries.foldl add ∅) key = sumOf key entries := by
      rw [total_foldl_add, total_empty, zero_add]
    rw [total, there, Option.getD_some] at value
    rw [there, value]
  · next absent =>
    refine AList.lookup_eq_none.mpr fun there => ?_
    rcases listed.mp there with before | inside
    · exact AList.notMem_empty _ before
    · exact absent inside

/-- The entries of a table add up to what it holds. -/
theorem sumOf_entries (table : Table Key Amount) (key : Key) :
    sumOf key (table.entries.map fun entry => (entry.1, entry.2)) = total table key := by
  obtain ⟨entries, nodup⟩ := table
  change sumOf key (entries.map fun entry => (entry.1, entry.2)) = (entries.dlookup key).getD 0
  induction entries with
  | nil => rfl
  | cons entry rest ih =>
    obtain ⟨found, amount⟩ := entry
    obtain ⟨fresh, nodupRest⟩ := List.nodupKeys_cons.mp nodup
    rw [List.map_cons, sumOf_cons, ih nodupRest]
    by_cases here : found = key
    · subst here
      have none_ : rest.dlookup found = none := List.dlookup_eq_none.mpr fresh
      simp [none_]
    · rw [if_neg here, List.dlookup_cons_ne _ _ (Ne.symm here), zero_add]

theorem sum_kerase (entries : List (Sigma fun _ : Key => Amount)) (key : Key) :
    ((entries.kerase key).map (·.2)).sum + (entries.dlookup key).getD 0 = (entries.map (·.2)).sum := by
  induction entries with
  | nil => simp
  | cons entry rest ih =>
    obtain ⟨found, amount⟩ := entry
    by_cases here : key = found
    · subst here
      simp [add_comm]
    · rw [List.kerase_cons_ne here, List.dlookup_cons_ne _ _ here, List.map_cons, List.map_cons, List.sum_cons, List.sum_cons,
        add_assoc, ih]

/-- What a table holds together is what was added. -/
theorem sum_foldl_add (entries : List (Key × Amount)) (table : Table Key Amount) :
    ((entries.foldl add table).entries.map (·.2)).sum = (table.entries.map (·.2)).sum + (entries.map (·.2)).sum := by
  induction entries generalizing table with
  | nil => simp
  | cons entry rest ih =>
    have here : ((add table entry).entries.map (·.2)).sum = (table.entries.map (·.2)).sum + entry.2 := by
      rw [← sum_kerase table.entries entry.1]
      rw [add, AList.entries_insert, List.map_cons, List.sum_cons, total, AList.lookup, add_comm, add_assoc]
    rw [List.foldl_cons, ih, here, List.map_cons, List.sum_cons, add_assoc]

end

end EllaFi.Totals
