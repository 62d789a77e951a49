import EllaFi.Totals
import Mathlib.Order.Lattice

/-!
Dictionaries that keep the order in which their keys came. Assigning under a key changes no
other (`get_assign`), and a list of assignments leaves the last one of each key
(`get_update`). Where several items have times and each may have a value, the latest value
is that of the item with the greatest time that has one (`latest_iff`).
-/
namespace EllaFi.Dicts
open EllaFi.Totals (lastOf lastOf_append_singleton)
universe u v w
variable {Key : Type u} {Value : Type v} [DecidableEq Key]

abbrev Dict (Key : Type u) (Value : Type v) : Type (max u v) := List (Key × Value)

def get (dict : Dict Key Value) (key : Key) : Option Value := dict.lookup key

/-- Assigns in place, or at the end. -/
def assign (key : Key) (value : Value) : Dict Key Value → Dict Key Value
  | [] => [(key, value)]
  | (k, v) :: rest => if k = key then (k, value) :: rest else (k, v) :: assign key value rest

def update (dict entries : Dict Key Value) : Dict Key Value :=
  entries.foldl (fun dict entry => assign entry.1 entry.2 dict) dict

/-- Every value changed, if each of them can be. -/
def mapValues {Other : Type v} (change : Key → Value → Option Other) (dict : Dict Key Value) : Option (Dict Key Other) :=
  dict.mapM fun entry => (change entry.1 entry.2).map fun value => (entry.1, value)

section
variable {dict entries : Dict Key Value} {key other : Key} {value : Value}

@[simp] theorem get_nil (key : Key) : get ([] : Dict Key Value) key = none := rfl

theorem get_cons (first : Key × Value) (rest : Dict Key Value) (key : Key) :
    get (first :: rest) key = if key = first.1 then some first.2 else get rest key := by
  obtain ⟨k, v⟩ := first
  rw [get, List.lookup_cons]
  by_cases same : key = k
  · simp [same]
  · simp [same, beq_false_of_ne same, get]

theorem get_assign :
    get (assign key value dict) other = if other = key then some value else get dict other := by
  induction dict with
  | nil => rw [assign, get_cons]
  | cons first rest ih =>
    rw [assign]
    split
    · next here =>
      rw [get_cons, get_cons, here]
      split <;> rfl
    · next here =>
      rw [get_cons, get_cons, ih]
      split
      · next own => rw [if_neg fun same => here (own.symm.trans same)]
      · rfl

@[simp] theorem get_assign_self : get (assign key value dict) key = some value := by
  rw [get_assign, if_pos rfl]

theorem get_assign_ne (different : other ≠ key) : get (assign key value dict) other = get dict other := by
  rw [get_assign, if_neg different]

theorem get_update (dict entries : Dict Key Value) (key : Key) :
    get (update dict entries) key = (lastOf key entries).or (get dict key) := by
  induction entries using List.reverseRecOn with
  | nil => rfl
  | append_singleton before entry ih =>
    rw [update, List.foldl_append, List.foldl_cons, List.foldl_nil, get_assign, lastOf_append_singleton]
    by_cases here : key = entry.1
    · simp [here]
    · rw [if_neg here, if_neg (Ne.symm here)]
      exact ih

theorem keys_assign (dict : Dict Key Value) (key : Key) (value : Value) :
    (assign key value dict).map (·.1) = if key ∈ dict.map (·.1) then dict.map (·.1) else dict.map (·.1) ++ [key] := by
  induction dict with
  | nil => rfl
  | cons first rest ih =>
    rw [assign]
    split
    · next here => simp [here]
    · next here =>
      rw [List.map_cons, ih]
      by_cases later : key ∈ rest.map (·.1)
      · rw [if_pos later, List.map_cons, if_pos (List.mem_cons_of_mem _ later)]
      · rw [if_neg later, List.map_cons, if_neg (by simpa [Ne.symm here] using later), List.cons_append]

theorem nodup_assign (distinct : (dict.map (·.1)).Nodup) (key : Key) (value : Value) :
    ((assign key value dict).map (·.1)).Nodup := by
  rw [keys_assign]
  split
  · exact distinct
  · next fresh => exact List.Nodup.append distinct (List.nodup_singleton key) (List.disjoint_singleton.mpr fresh)

theorem get_of_mem (distinct : (dict.map (·.1)).Nodup) {entry : Key × Value} (inside : entry ∈ dict) :
    get dict entry.1 = some entry.2 := by
  induction dict with
  | nil => cases inside
  | cons first rest ih =>
    obtain ⟨fresh, others⟩ := List.nodup_cons.mp distinct
    rw [get_cons]
    rcases List.mem_cons.mp inside with rfl | later
    · rw [if_pos rfl]
    · have different : entry.1 ≠ first.1 := fun same => fresh (List.mem_map.mpr ⟨entry, later, same⟩)
      rw [if_neg different, ih others later]

theorem mem_of_get (found : get dict key = some value) : (key, value) ∈ dict := by
  obtain ⟨before, after, rfl, -⟩ := List.lookup_eq_some_iff.mp found
  exact List.mem_append_right _ (List.mem_cons_self ..)

theorem get_mapValues {Other : Type v} {change : Key → Value → Option Other} {changed : Dict Key Other}
    (done : mapValues change dict = some changed) (key : Key) :
    get changed key = (get dict key).bind (change key) := by
  induction dict generalizing changed with
  | nil =>
    obtain rfl : [] = changed := by simpa [mapValues] using done
    rfl
  | cons first rest ih =>
    simp only [mapValues, List.mapM_cons, Option.bind_eq_bind, Option.bind_eq_some_iff, Option.map_eq_some_iff] at done
    obtain ⟨_, ⟨value, own, rfl⟩, others, later, same⟩ := done
    obtain rfl : _ :: others = changed := by simpa using same
    rw [get_cons, get_cons, ih later]
    split
    · next here => rw [here, Option.bind_some, own]
    · rfl

omit [DecidableEq Key] in
theorem keys_mapValues {Other : Type v} {change : Key → Value → Option Other} {changed : Dict Key Other}
    (done : mapValues change dict = some changed) : changed.map (·.1) = dict.map (·.1) := by
  induction dict generalizing changed with
  | nil =>
    obtain rfl : [] = changed := by simpa [mapValues] using done
    rfl
  | cons first rest ih =>
    simp only [mapValues, List.mapM_cons, Option.bind_eq_bind, Option.bind_eq_some_iff, Option.map_eq_some_iff] at done
    obtain ⟨_, ⟨value, own, rfl⟩, others, later, same⟩ := done
    obtain rfl : _ :: others = changed := by simpa using same
    rw [List.map_cons, List.map_cons, ih later]

omit [DecidableEq Key] in
/-- The keys that have a value are in their order. -/
theorem keys_some (entries : Dict Key (Option Value)) :
    List.Sublist ((entries.filterMap fun entry => entry.2.map fun value => (entry.1, value)).map (·.1))
      (entries.map (·.1)) := by
  induction entries with
  | nil => exact List.Sublist.slnil
  | cons entry rest ih =>
    obtain ⟨key, value⟩ := entry
    cases value with
    | none => simpa using ih.cons key
    | some value => simpa using ih.cons_cons key

omit [DecidableEq Key] in
theorem mapValues_total {Other : Type v} {change : Key → Value → Option Other}
    (total : ∀ entry ∈ dict, ∃ value, change entry.1 entry.2 = some value) :
    ∃ changed, mapValues change dict = some changed := by
  induction dict with
  | nil => exact ⟨[], rfl⟩
  | cons first rest ih =>
    obtain ⟨here, later⟩ := List.forall_mem_cons.mp total
    obtain ⟨value, own⟩ := here
    obtain ⟨changed, done⟩ := ih later
    refine ⟨(first.1, value) :: changed, ?_⟩
    rw [mapValues] at done ⊢
    simp [List.mapM_cons, own, done]

end

/-! ## The latest value -/

theorem lastOf_append (key : Key) (before after : Dict Key Value) :
    lastOf key (before ++ after) = (lastOf key after).or (lastOf key before) := by
  unfold lastOf
  rw [List.filter_append, List.getLast?_append]
  cases ((after.filter fun entry => entry.1 = key).getLast?) <;> rfl

section
variable {Item : Type w} {Time : Type*} {items : List Item}

/-- The value of the last item that has one. -/
def latest (view : Item → Option Value) (items : List Item) : Option Value := (items.filterMap view).getLast?

/-- The item of the greatest time that has a value has this one. -/
def IsLatest [LE Time] (time : Item → Time) (view : Item → Option Value) (items : List Item) (value : Value) : Prop :=
  ∃ item ∈ items, view item = some value ∧ ∀ other ∈ items, (view other).isSome → time other ≤ time item

theorem latest_snoc (view : Item → Option Value) (items : List Item) (item : Item) :
    latest view (items ++ [item]) = (view item).or (latest view items) := by
  unfold latest
  rw [List.filterMap_append, List.getLast?_append]
  cases shown : view item <;> simp [shown]

theorem lastOf_flatMap (entries : Item → Dict Key Value) (items : List Item) (key : Key) :
    lastOf key (items.flatMap entries) = latest (fun item => lastOf key (entries item)) items := by
  induction items using List.reverseRecOn with
  | nil => rfl
  | append_singleton before item ih =>
    rw [List.flatMap_append, List.flatMap_singleton, lastOf_append, latest_snoc, ih]

theorem latest_isSome {view : Item → Option Value} : (latest view items).isSome ↔ ∃ item ∈ items, (view item).isSome := by
  rw [latest, List.getLast?_isSome, ne_eq, List.filterMap_eq_nil_iff]
  simp [Option.isSome_iff_ne_none]

theorem latest_iff [LinearOrder Time] {time : Item → Time} {view : Item → Option Value} {value : Value}
    (ordered : items.Pairwise fun earlier later => time earlier < time later) :
    latest view items = some value ↔ IsLatest time view items value := by
  induction items using List.reverseRecOn with
  | nil => simp [latest, IsLatest]
  | append_singleton before item ih =>
    obtain ⟨soFar, -, apart⟩ := List.pairwise_append.mp ordered
    have newest : ∀ earlier ∈ before, time earlier < time item :=
      fun earlier inside => apart earlier inside item List.mem_cons_self
    rw [latest_snoc]
    cases shown : view item with
    | none =>
      rw [Option.none_or, ih soFar]
      simp only [IsLatest, List.mem_append, List.mem_singleton]
      constructor
      · rintro ⟨holder, inside, has, greatest⟩
        refine ⟨holder, .inl inside, has, ?_⟩
        rintro other (earlier | rfl) some
        · exact greatest other earlier some
        · simp [shown] at some
      · rintro ⟨holder, inside | rfl, has, greatest⟩
        · exact ⟨holder, inside, has, fun other earlier => greatest other (.inl earlier)⟩
        · simp [shown] at has
    | some own =>
      rw [Option.some_or, Option.some.injEq]
      constructor
      · rintro rfl
        refine ⟨item, by simp, shown, fun other inside _ => ?_⟩
        rcases List.mem_append.mp inside with earlier | same
        · exact (newest other earlier).le
        · rw [List.mem_singleton.mp same]
      · rintro ⟨holder, inside, has, greatest⟩
        rcases List.mem_append.mp inside with earlier | same
        · have bound := greatest item (by simp) (by simp [shown])
          exact absurd (newest holder earlier) (not_lt_of_ge bound)
        · rw [List.mem_singleton.mp same, shown] at has
          exact Option.some.inj has

end

end EllaFi.Dicts
