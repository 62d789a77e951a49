import Mathlib.Data.List.FinRange
import Mathlib.GroupTheory.Perm.Basic
import Mathlib.Logic.Equiv.Basic

/-!
Memory whose accesses are checked, and loops over it. An access out of bounds is `none`,
and so is everything that makes one; that a run gives `some` says that all its accesses are
in bounds. A loop is followed through the states that it has after each turn (`loop_view`).
-/
namespace EllaFi.CheckedMemory
universe u v
variable {Cell : Type u} {State : Type v}

/-! ## Cells -/

def read (cells : List Cell) (i : Nat) : Option Cell := cells[i]?

def write (cells : List Cell) (i : Nat) (value : Cell) : Option (List Cell) :=
  if i < cells.length then some (cells.set i value) else none

/-- The `n` cells from `offset` on. -/
def slice (cells : List Cell) (offset n : Nat) : Option (List Cell) :=
  if offset + n ≤ cells.length then some ((cells.drop offset).take n) else none

/-- The values are written over the cells from `offset` on. -/
def blit (cells : List Cell) (offset : Nat) (values : List Cell) : Option (List Cell) :=
  if offset + values.length ≤ cells.length then
    some (cells.take offset ++ values ++ cells.drop (offset + values.length))
  else none

def swap (cells : List Cell) (i j : Nat) : Option (List Cell) := do
  let t ← read cells i
  let other ← read cells j
  let cells ← write cells i other
  write cells j t

theorem read_some {cells : List Cell} {i : Nat} (inside : i < cells.length) : read cells i = some cells[i] :=
  List.getElem?_eq_getElem inside

theorem write_some {cells : List Cell} {i : Nat} (inside : i < cells.length) (value : Cell) :
    write cells i value = some (cells.set i value) := if_pos inside

theorem slice_some {cells : List Cell} {offset n : Nat} (inside : offset + n ≤ cells.length) :
    slice cells offset n = some ((cells.drop offset).take n) := if_pos inside

theorem blit_start {values old : List Cell} (inside : values.length ≤ old.length) :
    blit old 0 values = some (values ++ old.drop values.length) := by
  rw [blit, if_pos (by omega), List.take_zero, List.nil_append, Nat.zero_add]

/-- What was written so far, with the old cells behind it, goes on. -/
theorem blit_filled {written old : List Cell} {offset : Nat} (filled : written.length = offset) (values : List Cell)
    (inside : offset + values.length ≤ old.length) :
    blit (written ++ old.drop offset) offset values = some ((written ++ values) ++ old.drop (offset + values.length)) := by
  subst filled
  rw [blit, if_pos (by simp; omega), List.take_left, List.drop_append, List.drop_of_length_le (by omega), List.drop_drop,
    List.nil_append, Nat.add_sub_cancel_left]

theorem slice_left {cells rest : List Cell} {offset n : Nat} (inside : offset + n ≤ cells.length) :
    slice (cells ++ rest) offset n = some ((cells.drop offset).take n) := by
  rw [slice_some (by simp; omega), List.drop_append_of_le_length (by omega), List.take_append_of_le_length (by simp; omega)]

/-- The next cell is filled in. -/
theorem write_next {done old : List Cell} {k : Nat} (same : old.length = done.length) (inside : k < done.length) :
    write (done.take k ++ old.drop k) k done[k] = some (done.take (k + 1) ++ old.drop (k + 1)) := by
  have filled : (done.take k).length = k := by simp; omega
  rw [write_some (by simp; omega), List.set_append_right (h := by omega), filled, Nat.sub_self,
    List.drop_eq_getElem_cons (by omega : k < old.length), List.set_cons_zero, List.take_add_one,
    List.getElem?_eq_getElem inside, List.append_assoc]
  rfl

/-! ## Loops -/

/-- The turns `0` to `n - 1`, in order. -/
def loop (body : Nat → State → Option State) (s : State) : Nat → Option State
  | 0 => some s
  | n + 1 => (loop body s n).bind (body n)

theorem loop_view {body : Nat → State → Option State} {n : Nat} (view : Nat → State)
    (turns : ∀ i < n, body i (view i) = some (view (i + 1))) : loop body (view 0) n = some (view n) := by
  induction n with
  | zero => rfl
  | succ n ih =>
    rw [loop, ih fun i inside => turns i (by omega), Option.bind_some]
    exact turns n (by omega)

/-! ## Tables of a permutation -/

section
variable {n : Nat}

/-- The cells that hold the images of a permutation, each as a value of the cells' type. -/
def table (enc : Fin n → Cell) (perm : Equiv.Perm (Fin n)) : List Cell := List.ofFn (enc ∘ perm)

@[simp] theorem length_table (enc : Fin n → Cell) (perm : Equiv.Perm (Fin n)) : (table enc perm).length = n :=
  List.length_ofFn

/-- The table of the identity. -/
theorem table_one (f : Nat → Cell) : table (fun i : Fin n => f i) 1 = (List.range n).map f :=
  List.ext_getElem (by simp) fun k _ _ => by simp [table]

theorem table_perm (enc : Fin n → Cell) (perm : Equiv.Perm (Fin n)) : (table enc perm).Perm (List.ofFn enc) :=
  Equiv.Perm.ofFn_comp_perm perm enc

@[simp] theorem read_table (enc : Fin n → Cell) (perm : Equiv.Perm (Fin n)) (i : Fin n) :
    read (table enc perm) i = some (enc (perm i)) := by
  simp [read, table]

/-- A swap of two cells swaps what the permutation takes to them. -/
@[simp] theorem swap_table (enc : Fin n → Cell) (perm : Equiv.Perm (Fin n)) (i j : Fin n) :
    swap (table enc perm) i j = some (table enc (perm * Equiv.swap i j)) := by
  have wide (cells : List Cell) (value : Cell) (k : Fin n) (length : cells.length = n) :
      write cells k value = some (cells.set k value) := write_some (by omega) value
  simp only [swap, read_table, Option.bind_eq_bind, Option.bind_some]
  rw [wide _ _ _ (length_table enc perm), Option.bind_some, wide _ _ _ (by simp)]
  congr 1
  refine List.ext_getElem (by simp) fun k inside _ => ?_
  have bound : k < n := by simpa using inside
  simp only [List.getElem_set, table, List.getElem_ofFn, Function.comp_apply, Equiv.Perm.mul_apply]
  by_cases last : (j : Nat) = k
  · obtain rfl : j = ⟨k, bound⟩ := Fin.ext last
    rw [if_pos rfl, Equiv.swap_apply_right]
  · rw [if_neg last]
    by_cases first : (i : Nat) = k
    · obtain rfl : i = ⟨k, bound⟩ := Fin.ext first
      rw [if_pos rfl, Equiv.swap_apply_left]
    · rw [if_neg first, Equiv.swap_apply_of_ne_of_ne]
      · exact fun same => first (congrArg Fin.val same).symm
      · exact fun same => last (congrArg Fin.val same).symm

end

end EllaFi.CheckedMemory
