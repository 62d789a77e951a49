import EllaFi.Totals
import Mathlib.Algebra.BigOperators.Group.Finset.Piecewise

/-!
Tables of tables, and sums of sums. A pass that adds an amount for each thing adds the sum
of the amounts (`measure_foldl`), whatever is measured of its result, and what several
indices have of every thing adds up to what all things have (`sum_lists`).
-/
namespace EllaFi.TableSums
open EllaFi.Totals
universe u v w
variable {Outer : Type w} {Key : Type u} {Amount : Type v} [DecidableEq Outer] [DecidableEq Key] [AddCommMonoid Amount]

/-- What is measured of the result of a pass. -/
theorem measure_foldl {State Thing : Type*} (measure : State → Amount) {pass : State → Thing → State}
    {amount : Thing → Amount} (adds : ∀ state thing, measure (pass state thing) = measure state + amount thing)
    (things : List Thing) (state : State) : measure (things.foldl pass state) = measure state + (things.map amount).sum := by
  induction things generalizing state with
  | nil => simp
  | cons thing rest ih => rw [List.foldl_cons, ih, adds, List.map_cons, List.sum_cons, add_assoc]

/-! ## Tables of tables -/

/-- An amount under two keys. -/
def amountIn (tables : Table Outer (Table Key Amount)) (outer : Outer) (key : Key) : Amount :=
  total ((tables.lookup outer).getD ∅) key

def addIn (tables : Table Outer (Table Key Amount)) (outer : Outer) (entry : Key × Amount) :
    Table Outer (Table Key Amount) :=
  tables.insert outer (add ((tables.lookup outer).getD ∅) entry)

section
variable {tables : Table Outer (Table Key Amount)} {outer other : Outer}

theorem amountIn_addIn (tables : Table Outer (Table Key Amount)) (outer other : Outer) (entry : Key × Amount) (key : Key) :
    amountIn (addIn tables outer entry) other key =
      amountIn tables other key + if outer = other ∧ entry.1 = key then entry.2 else 0 := by
  unfold amountIn addIn
  rw [lookup_insert_eq]
  by_cases here : other = outer
  · subst here
    rw [if_pos rfl, Option.getD_some, total_add]
    simp
  · simp [here, Ne.symm here]

theorem mem_addIn {entry : Key × Amount} : other ∈ addIn tables outer entry ↔ other = outer ∨ other ∈ tables :=
  AList.mem_insert _

end

/-! ## Sums of sums -/

theorem sum_range_list (n : Nat) (f : Nat → Amount) : ((List.range n).map f).sum = ∑ i ∈ Finset.range n, f i := by
  induction n with
  | zero => rfl
  | succ n ih => rw [List.range_succ, List.map_append, List.sum_append, ih, Finset.sum_range_succ]; simp

/-- Sums of sums in the other order. -/
theorem sum_lists {Index Thing : Type*} (indices : Finset Index) {part : Index → Thing → Amount} {whole : Thing → Amount}
    {things : List Thing} (parts : ∀ thing ∈ things, ∑ i ∈ indices, part i thing = whole thing) :
    ∑ i ∈ indices, (things.map (part i)).sum = (things.map whole).sum := by
  induction things with
  | nil => simp
  | cons thing rest ih =>
    obtain ⟨own, later⟩ := List.forall_mem_cons.mp parts
    simp only [List.map_cons, List.sum_cons, Finset.sum_add_distrib, own, ih later]

end EllaFi.TableSums
