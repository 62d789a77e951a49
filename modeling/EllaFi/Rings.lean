import Mathlib.Data.List.Basic
import Mathlib.Data.List.Perm.Basic

/-!
A ring of a fixed number of slots, in which each new item takes the place of the
oldest. It holds the last items of everything that was ever put in (`recalls_push`).
If items come with times that do not decrease, and few enough have come since a time,
the ring still holds all that have come since then (`recalls_since`).
-/
namespace EllaFi.Rings
universe u
variable {Item : Type u} {size : Nat}

structure Ring (Item : Type u) (size : Nat) where
  slots : List Item
  next : Nat
  full : slots.length = size
  inside : next < size

def Ring.blank (item : Item) (size : Nat) (positive : 0 < size) : Ring Item size where
  slots := List.replicate size item
  next := 0
  full := List.length_replicate
  inside := positive

def Ring.push (ring : Ring Item size) (item : Item) : Ring Item size where
  slots := ring.slots.set ring.next item
  next := (ring.next + 1) % size
  full := by rw [List.length_set, ring.full]
  inside := Nat.mod_lt _ (Nat.lt_of_le_of_lt (Nat.zero_le _) ring.inside)

/-- The items from the oldest to the newest. -/
def Ring.contents (ring : Ring Item size) : List Item := ring.slots.drop ring.next ++ ring.slots.take ring.next

/-- The ring holds the last items of a log that began with blanks. -/
def Recalls (blank : Item) (ring : Ring Item size) (log : List Item) : Prop :=
  ring.contents = (List.replicate size blank ++ log).drop log.length

theorem mem_contents {ring : Ring Item size} {item : Item} : item ∈ ring.contents ↔ item ∈ ring.slots := by
  have perm : ring.contents.Perm ring.slots := by
    have split : (ring.slots.take ring.next ++ ring.slots.drop ring.next).Perm ring.contents := List.perm_append_comm
    rw [List.take_append_drop] at split
    exact split.symm
  exact perm.mem_iff

/-- The last `n` places before the next one, counted around the ring, are those of the
    last `n` items. -/
theorem contents_window (ring : Ring Item size) (blank : Item) {n : Nat} (few : n ≤ size) :
    ((List.range n).map fun i => ring.slots.getD (((ring.next + size - n) % size + i) % size) blank) =
      ring.contents.drop (size - n) := by
  obtain ⟨slots, next, rfl, inside⟩ := ring
  refine List.ext_getElem (by simp [Ring.contents]; omega) fun i short _ => ?_
  have bound : i < n := by simpa using short
  simp only [List.getElem_map, List.getElem_range, Ring.contents, List.getElem_drop, List.getD_eq_getElem?_getD]
  by_cases low : next + slots.length - n + i < slots.length
  · have place : ((next + slots.length - n) % slots.length + i) % slots.length = next + slots.length - n + i := by
      rw [Nat.mod_add_mod, Nat.mod_eq_of_lt low]
    rw [place, List.getElem_append_left (by simp; omega), List.getElem_drop, List.getElem?_eq_getElem low,
      Option.getD_some]
    congr 1
    omega
  · have place : ((next + slots.length - n) % slots.length + i) % slots.length = next + i - n := by
      rw [Nat.mod_add_mod, Nat.mod_eq_sub_mod (by omega), Nat.mod_eq_of_lt (by omega)]
      omega
    rw [place, List.getElem_append_right (by simp; omega), List.getElem_take, List.getElem?_eq_getElem (by omega),
      Option.getD_some]
    congr 1
    simp
    omega

/-- The oldest item goes and the new one comes. -/
theorem contents_push (ring : Ring Item size) (item : Item) :
    (ring.push item).contents = (ring.contents ++ [item]).tail := by
  obtain ⟨slots, next, rfl, inside⟩ := ring
  obtain ⟨before, oldest, after, rfl, rfl⟩ : ∃ before oldest after, slots = before ++ oldest :: after ∧
      before.length = next :=
    ⟨slots.take next, slots[next], slots.drop (next + 1), by simp, by simp; omega⟩
  have set : (before ++ oldest :: after).set before.length item = before ++ item :: after := by simp
  cases after with
  | nil => simp [Ring.push, Ring.contents]
  | cons second rest =>
    have more : (before.length + 1) % (before ++ oldest :: second :: rest).length = before.length + 1 := by
      refine Nat.mod_eq_of_lt ?_
      simp
    have behind : before.drop (before.length + 1) = [] := List.drop_of_length_le (by omega)
    have whole : before.take (before.length + 1) = before := List.take_of_length_le (by omega)
    simp only [Ring.push, Ring.contents, more, set]
    simp [List.drop_append, List.take_append, behind, whole]

section
variable {blank item : Item} {ring : Ring Item size} {log before after : List Item}

theorem recalls_blank (blank : Item) (positive : 0 < size) : Recalls blank (Ring.blank blank size positive) [] := by
  simp [Recalls, Ring.contents, Ring.blank]

theorem recalls_push (recalls : Recalls blank ring log) (item : Item) : Recalls blank (ring.push item) (log ++ [item]) := by
  have kept : log.length ≤ (List.replicate size blank ++ log).length := by simp
  calc (ring.push item).contents = ((List.replicate size blank ++ log).drop log.length ++ [item]).tail := by
        rw [contents_push, recalls]
    _ = (List.replicate size blank ++ (log ++ [item])).drop (log ++ [item]).length := by
        rw [← List.drop_append_of_le_length kept, List.tail_drop, List.append_assoc, List.length_append,
          List.length_singleton]

/-- Only blanks are in the ring besides what was put in. -/
theorem recalls_mem (recalls : Recalls blank ring log) (inside : item ∈ ring.slots) : item = blank ∨ item ∈ log := by
  rw [← mem_contents, recalls] at inside
  rcases List.mem_append.mp (List.mem_of_mem_drop inside) with bare | logged
  · exact .inl (List.eq_of_mem_replicate bare)
  · exact .inr logged

/-- The slots that were used hold the end of the log. -/
theorem recalls_window (recalls : Recalls blank ring log) :
    ring.contents.drop (size - min log.length size) = log.drop (log.length - size) := by
  have skipped : log.length + (size - min log.length size) = size + (log.length - size) := by omega
  rw [recalls, List.drop_drop, skipped, ← List.drop_drop, List.drop_left' List.length_replicate]

theorem recalls_recent (recalls : Recalls blank ring (before ++ item :: after)) (recent : after.length < size) :
    item ∈ ring.slots := by
  rw [← mem_contents, recalls]
  have split : List.replicate size blank ++ (before ++ item :: after) =
      (List.replicate size blank ++ before) ++ item :: after := by simp
  rw [split, List.drop_append_of_le_length (by simp; omega)]
  exact List.mem_append_right _ List.mem_cons_self

end

/-- An item is still in the ring while no more items than it has slots have come
    since the item came. -/
theorem recalls_since {blank item : Item} {ring : Ring Item size} {log : List (Item × Nat)} {time : Nat}
    (recalls : Recalls blank ring (log.map (·.1))) (ordered : log.Pairwise fun first second => first.2 ≤ second.2)
    (few : (log.filter fun entry => time ≤ entry.2).length ≤ size) (logged : (item, time) ∈ log) :
    item ∈ ring.slots := by
  obtain ⟨before, after, rfl⟩ := List.append_of_mem logged
  have later : ∀ entry ∈ after, time ≤ entry.2 :=
    (List.pairwise_cons.mp (List.pairwise_append.mp ordered).2.1).1
  have all : after.filter (fun entry => time ≤ entry.2) = after :=
    List.filter_eq_self.mpr fun entry inside => decide_eq_true (later entry inside)
  rw [List.filter_append, List.filter_cons_of_pos (by simp), all, List.length_append, List.length_cons] at few
  rw [List.map_append, List.map_cons] at recalls
  exact recalls_recent recalls (by rw [List.length_map]; omega)

end EllaFi.Rings
