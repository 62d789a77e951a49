import Mathlib.Data.List.Basic

/-!
A stream that arrives in pieces, with signals between them. What is taken from it does not
depend on how it is cut: as many symbols as are wanted come off the front if that many come
before the next signal (`take_full`), and a signal that is there first comes off instead
(`take_signal`). With anything taken the stream gets smaller (`take_smaller`).
-/
namespace EllaFi.Pieces
universe u v

/-- A piece has some symbols. -/
inductive Piece (Symbol : Type u) (Signal : Type v) where
  | data (first : Symbol) (rest : List Symbol)
  | signal (s : Signal)

inductive Taken (Symbol : Type u) (Signal : Type v) where
  | full (data : List Symbol)
  | ended
  | broken (s : Signal)

variable {Symbol : Type u} {Signal : Type v}

def Piece.symbols : Piece Symbol Signal → List (Symbol ⊕ Signal)
  | .data first rest => (first :: rest).map .inl
  | .signal s => [.inr s]

/-- What comes, however it is cut. -/
def symbols (pieces : List (Piece Symbol Signal)) : List (Symbol ⊕ Signal) := pieces.flatMap Piece.symbols

/-- What is left of a piece. -/
def remainder : List Symbol → List (Piece Symbol Signal) → List (Piece Symbol Signal)
  | [], pieces => pieces
  | first :: rest, pieces => .data first rest :: pieces

/-- `need` symbols more, behind those that were taken already; a piece that is too long is cut. -/
def take (need : Nat) (taken : List Symbol) : List (Piece Symbol Signal) → Taken Symbol Signal × List (Piece Symbol Signal)
  | [] => if need = 0 then (.full taken, []) else (.ended, [])
  | .signal s :: pieces => if need = 0 then (.full taken, .signal s :: pieces) else (.broken s, pieces)
  | .data first rest :: pieces =>
    if need = 0 then (.full taken, .data first rest :: pieces)
    else if (first :: rest).length ≤ need then take (need - (first :: rest).length) (taken ++ first :: rest) pieces
    else (.full (taken ++ (first :: rest).take need), remainder ((first :: rest).drop need) pieces)

@[simp] theorem symbols_nil : symbols ([] : List (Piece Symbol Signal)) = [] := rfl

@[simp] theorem symbols_cons (piece : Piece Symbol Signal) (pieces : List (Piece Symbol Signal)) :
    symbols (piece :: pieces) = piece.symbols ++ symbols pieces := rfl

@[simp] theorem symbols_append (before after : List (Piece Symbol Signal)) :
    symbols (before ++ after) = symbols before ++ symbols after := List.flatMap_append

/-- One by one. -/
theorem symbols_singles (data : List Symbol) :
    symbols (data.map fun symbol => (.data symbol [] : Piece Symbol Signal)) = data.map .inl := by
  induction data with
  | nil => rfl
  | cons symbol data ih => simp [Piece.symbols, ih]

@[simp] theorem symbols_remainder (data : List Symbol) (pieces : List (Piece Symbol Signal)) :
    symbols (remainder data pieces) = data.map .inl ++ symbols pieces := by
  cases data with
  | nil => rfl
  | cons first rest => rfl

section
variable {pieces : List (Piece Symbol Signal)} {need : Nat} {taken data : List Symbol} {rest : List (Symbol ⊕ Signal)}

theorem take_zero : take 0 taken pieces = (.full taken, pieces) := by
  cases pieces with
  | nil => simp [take]
  | cons piece pieces => cases piece <;> simp [take]

/-- The shorter of two fronts of one stream is a front of the longer one. -/
theorem front_split {short long : List Symbol} {behind after : List (Symbol ⊕ Signal)}
    (same : short.map .inl ++ behind = long.map .inl ++ after) (fits : short.length ≤ long.length) :
    ∃ more, long = short ++ more ∧ behind = more.map .inl ++ after := by
  induction short generalizing long with
  | nil => exact ⟨long, rfl, same⟩
  | cons first short ih =>
    cases long with
    | nil => simp at fits
    | cons other long =>
      obtain ⟨head, tail⟩ := List.cons.inj same
      obtain rfl := Sum.inl.inj head
      obtain ⟨more, rfl, left⟩ := ih tail (Nat.le_of_succ_le_succ fits)
      exact ⟨more, rfl, left⟩

theorem take_full (taken : List Symbol) (there : symbols pieces = data.map .inl ++ rest) :
    ∃ left, take data.length taken pieces = (.full (taken ++ data), left) ∧ symbols left = rest := by
  induction pieces generalizing taken data with
  | nil =>
    obtain ⟨none_, ended⟩ := List.append_eq_nil_iff.mp there.symm
    obtain rfl := List.map_eq_nil_iff.mp none_
    exact ⟨[], by simp [take], ended.symm⟩
  | cons piece pieces ih =>
    by_cases nothing : data = []
    · subst nothing
      exact ⟨piece :: pieces, by simp [take_zero], there⟩
    have some : data.length ≠ 0 := mt List.length_eq_zero_iff.mp nothing
    cases piece with
    | signal s =>
      cases data with
      | nil => exact absurd rfl nothing
      | cons wanted more => simp [Piece.symbols] at there
    | data first others =>
      rw [symbols_cons, Piece.symbols] at there
      by_cases whole : (first :: others).length ≤ data.length
      · obtain ⟨behind, rfl, later⟩ := front_split there whole
        obtain ⟨left, took, remains⟩ := ih (taken ++ first :: others) later
        have count : (first :: others ++ behind).length - (first :: others).length = behind.length := by
          rw [List.length_append, Nat.add_sub_cancel_left]
        exact ⟨left, by rw [take, if_neg some, if_pos whole, count, took, List.append_assoc], remains⟩
      · obtain ⟨cut, split, later⟩ := front_split there.symm (by omega)
        refine ⟨remainder cut pieces, ?_, by rw [symbols_remainder, later]⟩
        rw [take, if_neg some, if_neg whole, split, List.take_left, List.drop_left]

theorem take_signal (taken : List Symbol) {s : Signal} (positive : 0 < need) (there : symbols pieces = .inr s :: rest) :
    ∃ left, take need taken pieces = (.broken s, left) ∧ symbols left = rest := by
  have some : need ≠ 0 := by omega
  cases pieces with
  | nil => simp at there
  | cons piece pieces =>
    cases piece with
    | data first others => simp [Piece.symbols] at there
    | signal other =>
      obtain ⟨head, tail⟩ := List.cons.inj there
      obtain rfl := Sum.inr.inj head
      exact ⟨pieces, by rw [take, if_neg some], tail⟩

theorem symbols_eq_nil : symbols pieces = [] ↔ pieces = [] := by
  cases pieces with
  | nil => simp
  | cons piece pieces => cases piece <;> simp [Piece.symbols]

/-- What comes gets shorter. -/
theorem take_le (need : Nat) (taken : List Symbol) (pieces : List (Piece Symbol Signal)) :
    (symbols (take need taken pieces).2).length ≤ (symbols pieces).length := by
  fun_induction take need taken pieces <;> simp_all [Piece.symbols] <;> omega

theorem take_smaller (positive : 0 < need) (some : pieces ≠ []) :
    (symbols (take need taken pieces).2).length < (symbols pieces).length := by
  cases pieces with
  | nil => exact absurd rfl some
  | cons piece pieces =>
    cases piece with
    | signal s => simp [take, Piece.symbols, (Nat.ne_of_gt positive)]
    | data first others =>
      by_cases whole : (first :: others).length ≤ need
      · have later := take_le (need - (first :: others).length) (taken ++ first :: others) pieces
        rw [take, if_neg (Nat.ne_of_gt positive), if_pos whole]
        simp only [symbols_cons, Piece.symbols, List.length_append, List.length_map, List.length_cons] at later ⊢
        omega
      · rw [take, if_neg (Nat.ne_of_gt positive), if_neg whole]
        simp only [symbols_remainder, symbols_cons, Piece.symbols, List.length_append, List.length_map, List.length_drop,
          List.length_cons] at whole ⊢
        omega

end

end EllaFi.Pieces
