import Mathlib.Data.List.DropRight

/-!
Lines of text, read one at a time and trimmed, and written with a line end. What is
written is read back (`nonblankLines_unlines`). When a write can stop short, the lines
that are read back are those that were meant exactly when every text is whole and every
line end but the last one (`nonblankLines_cut_iff`), and they are never more than those
(`nonblankLines_cut_le`).
-/
namespace EllaFi.TextLines

abbrev Text : Type := List Char

/-- What the functions of C see of a string. -/
def cString (text : Text) : Text := text.takeWhile (· ≠ '\x00')

/-- The number that the first digits continue. -/
def digits : Nat → Text → Nat
  | number, [] => number
  | number, c :: rest => if c.isDigit then digits (10 * number + (c.toNat - '0'.toNat)) rest else number

def isSpace (c : Char) : Bool := c = ' ' || (9 ≤ c.toNat && c.toNat ≤ 13)

def trim (text : Text) : Text := (text.rdropWhile isSpace).dropWhile isSpace

/-- Up to each newline; the last line may lack it. -/
def readLines : Text → List Text
  | [] => []
  | c :: rest =>
    if c = '\n' then [] :: readLines rest
    else
      match readLines rest with
      | [] => [[c]]
      | line :: lines => (c :: line) :: lines

def nonblankLines (text : Text) : List Text := ((readLines text).map trim).filter (· ≠ [])

def lineEnd : Text := ['\r', '\n']

def unlines (lines : List Text) : Text := lines.flatMap (· ++ lineEnd)

/-- A line that is read as it was written. -/
structure Clean (line : Text) : Prop where
  trimmed : trim line = line
  nonblank : line ≠ []
  single : '\n' ∉ line

/-- A line that is written, and how many characters of its text and its end are. -/
structure Cut where
  line : Text
  text : Nat
  ending : Nat

def Cut.written (cut : Cut) : Text := cut.line.take cut.text ++ lineEnd.take cut.ending

def cutText (cuts : List Cut) : Text := cuts.flatMap Cut.written

/-- Nothing is missing that matters: all but the last line end. -/
def Whole : List Cut → Prop
  | [] => True
  | [cut] => cut.line.length ≤ cut.text
  | cut :: rest => cut.line.length ≤ cut.text ∧ 2 ≤ cut.ending ∧ Whole rest

instance decidableWhole : ∀ cuts, Decidable (Whole cuts)
  | [] => .isTrue trivial
  | [cut] => inferInstanceAs (Decidable (cut.line.length ≤ cut.text))
  | _ :: next :: rest =>
    have : Decidable (Whole (next :: rest)) := decidableWhole (next :: rest)
    inferInstanceAs (Decidable (_ ∧ _ ∧ _))

theorem whole_cons {cut next : Cut} {rest : List Cut} :
    Whole (cut :: next :: rest) ↔ cut.line.length ≤ cut.text ∧ 2 ≤ cut.ending ∧ Whole (next :: rest) := Iff.rfl

/-! ## Trimming -/

section
variable {text line : Text} {c : Char}

theorem trim_trim (text : Text) : trim (trim text) = trim text := by
  have right : (trim text).rdropWhile isSpace = trim text := by
    refine List.rdropWhile_eq_self_iff.mpr fun nonempty => ?_
    have suffix : trim text <:+ text.rdropWhile isSpace := List.dropWhile_suffix isSpace
    rw [suffix.getLast nonempty]
    exact List.rdropWhile_last_not isSpace text _
  calc trim (trim text) = (trim text).dropWhile isSpace := by rw [trim, right]
    _ = trim text := List.dropWhile_idempotent isSpace _

theorem trim_snoc (space : isSpace c) : trim (text ++ [c]) = trim text := by
  rw [trim, List.rdropWhile_concat_pos _ _ _ space, trim]

theorem trim_length_le (text : Text) : (trim text).length ≤ text.length :=
  (List.dropWhile_sublist _).length_le.trans (List.rdropWhile_prefix _ _).length_le

theorem trim_subset (text : Text) : trim text ⊆ text :=
  List.Subset.trans (List.dropWhile_sublist _).subset (List.rdropWhile_prefix _ _).subset

/-- Only a whole line is the line, with or without the rest of its end. -/
theorem trim_take_iff (clean : Clean line) {count ending : Nat} (open_ : ending ≤ 1) :
    trim (line.take count ++ lineEnd.take ending) = line ↔ line.length ≤ count := by
  have same : trim (line.take count ++ lineEnd.take ending) = trim (line.take count) := by
    rcases Nat.le_one_iff_eq_zero_or_eq_one.mp open_ with rfl | rfl
    · simp
    · exact trim_snoc rfl
  rw [same]
  constructor
  · intro whole
    have := trim_length_le (line.take count)
    rw [whole, List.length_take] at this
    omega
  · intro long
    rw [List.take_of_length_le long, clean.trimmed]

end

/-! ## Reading lines -/

section
variable {text line rest : Text}

theorem readLines_line (single : '\n' ∉ line) : readLines (line ++ '\n' :: rest) = line :: readLines rest := by
  induction line with
  | nil => simp [readLines]
  | cons c line ih =>
    obtain ⟨other, later⟩ := not_or.mp (mt List.mem_cons.mpr single)
    rw [List.cons_append, readLines, if_neg (Ne.symm other), ih later]

/-- Characters before a text belong to its first line. -/
theorem readLines_open (single : '\n' ∉ line) (some : line ≠ []) (rest : Text) :
    readLines (line ++ rest) =
      match readLines rest with
      | [] => [line]
      | first :: lines => (line ++ first) :: lines := by
  induction line with
  | nil => exact absurd rfl some
  | cons c line ih =>
    obtain ⟨other, later⟩ := not_or.mp (mt List.mem_cons.mpr single)
    rw [List.cons_append, readLines, if_neg (Ne.symm other)]
    cases line with
    | nil => rw [List.nil_append]; cases readLines rest <;> rfl
    | cons next line =>
      rw [ih later (List.cons_ne_nil _ _)]
      cases readLines rest <;> rfl

theorem not_newline_of_mem (inside : line ∈ readLines text) : '\n' ∉ line := by
  induction text generalizing line with
  | nil => cases inside
  | cons c text ih =>
    rw [readLines] at inside
    split at inside
    · rcases List.mem_cons.mp inside with rfl | later
      · exact List.not_mem_nil
      · exact ih later
    · next other =>
      cases read : readLines text with
      | nil =>
        rw [read, List.mem_singleton] at inside
        simpa [inside] using Ne.symm other
      | cons first lines =>
        rw [read] at inside ih
        rcases List.mem_cons.mp inside with rfl | later
        · exact List.not_mem_cons_of_ne_of_not_mem (Ne.symm other) (ih List.mem_cons_self)
        · exact ih (List.mem_cons_of_mem _ later)

theorem clean_of_mem (inside : line ∈ nonblankLines text) : Clean line := by
  obtain ⟨read, nonblank⟩ := List.mem_filter.mp inside
  obtain ⟨raw, there, rfl⟩ := List.mem_map.mp read
  exact ⟨trim_trim raw, by simpa using nonblank, fun newline => not_newline_of_mem there (trim_subset raw newline)⟩

end

/-! ## Writing lines -/

section
variable {cuts : List Cut}

theorem nonblankLines_length_le (text : Text) : (nonblankLines text).length ≤ (readLines text).length :=
  (List.length_filter_le _ _).trans (List.length_map _).le

theorem single_written {cut : Cut} (clean : Clean cut.line) {ending : Nat} (open_ : ending ≤ 1) :
    '\n' ∉ cut.line.take cut.text ++ lineEnd.take ending := by
  have noEnd : '\n' ∉ lineEnd.take ending := by
    rcases Nat.le_one_iff_eq_zero_or_eq_one.mp open_ with rfl | rfl <;> decide
  simp only [List.mem_append, not_or]
  exact ⟨fun inside => clean.single (List.mem_of_mem_take inside), noEnd⟩

theorem single_open {cut : Cut} (clean : Clean cut.line) (opened : ¬ 2 ≤ cut.ending) : '\n' ∉ cut.written :=
  single_written clean (Nat.le_of_lt_succ (Nat.not_le.mp opened))

theorem written_closed {cut : Cut} (closed : 2 ≤ cut.ending) (rest : Text) :
    cut.written ++ rest = (cut.line.take cut.text ++ lineEnd.take 1) ++ '\n' :: rest := by
  rw [Cut.written, List.take_of_length_le (show lineEnd.length ≤ cut.ending from closed)]
  simp [lineEnd]

theorem readLines_closed {cut : Cut} (clean : Clean cut.line) (closed : 2 ≤ cut.ending) (rest : Text) :
    readLines (cut.written ++ rest) = (cut.line.take cut.text ++ lineEnd.take 1) :: readLines rest := by
  rw [written_closed closed, readLines_line (single_written clean (Nat.le_refl 1))]

/-- No more lines are read than were written. -/
theorem readLines_cut_le (clean : ∀ cut ∈ cuts, Clean cut.line) : (readLines (cutText cuts)).length ≤ cuts.length := by
  induction cuts with
  | nil => exact Nat.le_refl 0
  | cons cut rest ih =>
    obtain ⟨here, later⟩ := List.forall_mem_cons.mp clean
    have tail := ih later
    rw [cutText, List.flatMap_cons, ← cutText]
    by_cases closed : 2 ≤ cut.ending
    · rw [readLines_closed here closed, List.length_cons, List.length_cons]
      omega
    · by_cases some : cut.written = []
      · rw [some, List.nil_append, List.length_cons]
        omega
      · rw [readLines_open (single_open here closed) some]
        cases read : readLines (cutText rest) with
        | nil => simp
        | cons first lines =>
          rw [read] at tail
          exact tail.trans (Nat.le_succ _)

/-- A line that is not closed is one with the next. -/
theorem readLines_merged_lt {cut : Cut} {rest : List Cut} (clean : ∀ other ∈ cut :: rest, Clean other.line)
    (more : rest ≠ []) (opened : ¬ 2 ≤ cut.ending) : (readLines (cutText (cut :: rest))).length < (cut :: rest).length := by
  obtain ⟨here, later⟩ := List.forall_mem_cons.mp clean
  have tail := readLines_cut_le later
  have some : 0 < rest.length := List.length_pos_of_ne_nil more
  rw [cutText, List.flatMap_cons, ← cutText, List.length_cons]
  by_cases written : cut.written = []
  · rw [written, List.nil_append]
    omega
  · rw [readLines_open (single_open here opened) written]
    cases read : readLines (cutText rest) with
    | nil => exact Nat.succ_lt_succ some
    | cons first lines =>
      rw [read] at tail
      exact Nat.lt_succ_of_le tail

theorem nonblankLines_cut_le (clean : ∀ cut ∈ cuts, Clean cut.line) :
    (nonblankLines (cutText cuts)).length ≤ cuts.length :=
  (nonblankLines_length_le _).trans (readLines_cut_le clean)

/-- The last line needs no end. -/
theorem nonblankLines_last {cut : Cut} (clean : Clean cut.line) :
    nonblankLines cut.written = [cut.line] ↔ cut.line.length ≤ cut.text := by
  have only (ending : Nat) (open_ : ending ≤ 1) (raw : Text)
      (same : readLines raw = [cut.line.take cut.text ++ lineEnd.take ending]) :
      nonblankLines raw = [cut.line] ↔ cut.line.length ≤ cut.text := by
    rw [nonblankLines, same, ← trim_take_iff clean open_, List.map_singleton, List.filter_singleton]
    by_cases blank : trim (cut.line.take cut.text ++ lineEnd.take ending) = []
    · simp [blank, Ne.symm clean.nonblank]
    · simp [blank]
  by_cases closed : 2 ≤ cut.ending
  · refine only 1 (Nat.le_refl 1) _ ?_
    simpa [readLines] using readLines_closed clean closed []
  · by_cases some : cut.written = []
    · have none : cut.line.take cut.text = [] := (List.append_eq_nil_iff.mp some).1
      rw [some]
      refine iff_of_false (by simp [nonblankLines, readLines]) fun long => ?_
      rw [List.take_of_length_le long] at none
      exact clean.nonblank none
    · refine only cut.ending (by omega) _ ?_
      simpa [readLines, Cut.written] using readLines_open (single_open clean closed) some []

/-- The lines that are read back are those that were meant exactly when all their texts
    were written, and all line ends but the last. -/
theorem nonblankLines_cut_iff (clean : ∀ cut ∈ cuts, Clean cut.line) :
    nonblankLines (cutText cuts) = cuts.map (·.line) ↔ Whole cuts := by
  induction cuts with
  | nil => exact iff_of_true rfl trivial
  | cons cut rest ih =>
    obtain ⟨here, later⟩ := List.forall_mem_cons.mp clean
    cases rest with
    | nil => simpa [cutText, Whole] using nonblankLines_last here
    | cons next rest =>
      by_cases closed : 2 ≤ cut.ending
      · have short := nonblankLines_cut_le later
        have split : nonblankLines (cutText (cut :: next :: rest)) =
            [trim (cut.line.take cut.text ++ lineEnd.take 1)].filter (· ≠ []) ++ nonblankLines (cutText (next :: rest)) := by
          rw [cutText, List.flatMap_cons, ← cutText, nonblankLines, readLines_closed here closed, List.map_cons,
            ← List.singleton_append, List.filter_append]
          rfl
        rw [split, whole_cons, ← ih later, ← trim_take_iff here (Nat.le_refl 1)]
        by_cases blank : trim (cut.line.take cut.text ++ lineEnd.take 1) = []
        · refine iff_of_false (fun same => ?_) fun whole => here.nonblank (whole.1.symm.trans blank)
          have := congrArg List.length same
          simp only [blank, ne_eq, not_true_eq_false, decide_false, Bool.false_eq_true, not_false_eq_true,
            List.filter_cons_of_neg, List.filter_nil, List.nil_append, List.length_map, List.length_cons] at this short
          omega
        · simp [blank, closed]
      · refine iff_of_false (fun same => ?_) fun whole => closed (whole_cons.mp whole).2.1
        have fewer := (nonblankLines_length_le _).trans_lt (readLines_merged_lt clean (List.cons_ne_nil _ _) closed)
        rw [same, List.length_map] at fewer
        exact Nat.lt_irrefl _ fewer

/-- Lines that are written whole are read back. -/
theorem nonblankLines_unlines {lines : List Text} (clean : ∀ line ∈ lines, Clean line) :
    nonblankLines (unlines lines) = lines := by
  induction lines with
  | nil => rfl
  | cons line rest ih =>
    obtain ⟨here, later⟩ := List.forall_mem_cons.mp clean
    have ended : line ++ lineEnd ++ unlines rest = (line ++ ['\r']) ++ '\n' :: unlines rest := by simp [lineEnd]
    have single : '\n' ∉ line ++ ['\r'] := by simp [here.single]
    rw [unlines, List.flatMap_cons, ← unlines, ended, nonblankLines, readLines_line single, List.map_cons,
      trim_snoc rfl, here.trimmed, List.filter_cons_of_pos (by simpa using here.nonblank)]
    exact congrArg (line :: ·) (ih later)

end

/-! ## Numbers -/

theorem digits_eq {s : Text} (numeric : ∀ c ∈ s, c.isDigit) (number : Nat) :
    digits number s = Nat.ofDigitChars 10 s number := by
  induction s generalizing number with
  | nil => rfl
  | cons c rest ih =>
    obtain ⟨here, later⟩ := List.forall_mem_cons.mp numeric
    rw [digits, if_pos here, ih later, Nat.ofDigitChars_cons]

theorem isDigit_toDigits {n : Nat} : ∀ c ∈ Nat.toDigits 10 n, c.isDigit :=
  fun _ => Nat.isDigit_of_mem_toDigits (by decide) (by decide)

theorem toList_toString (z : Int) :
    (toString z).toList = if 0 ≤ z then Nat.toDigits 10 z.toNat else '-' :: Nat.toDigits 10 (-z).toNat := by
  rw [Int.toString_eq_repr, Int.repr_eq_if]
  split
  · rw [Nat.toList_repr]
  · rw [String.toList_append, Nat.toList_repr]
    rfl

end EllaFi.TextLines
