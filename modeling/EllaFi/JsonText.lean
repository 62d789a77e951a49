import EllaFi.RawObject
import EllaFi.TextLines

/-!
Strings that are escaped before they are put between quotes. With quotes and backslashes
escaped, a text is read back unless it has a control character, and then nothing is
(`lex_escaped`, `lex_control`). With quotes alone escaped it is read back only when it has
neither (`lex_quoted`, `quoted_reads`). The code units of a string are read as characters
again (`decode_units`), and a whole number is written as a word (`word_toString`).
-/
namespace EllaFi.JsonText
open EllaFi.Json EllaFi.RawObject
open EllaFi.Runs (run run_append run_cons run_nil)

/-! ## Escapes -/

def escapeBackslashes (text : List Char) : List Char := text.flatMap fun c => if c = '\\' then ['\\', '\\'] else [c]

def escapeQuotes (text : List Char) : List Char := text.flatMap fun c => if c = '"' then ['\\', '"'] else [c]

/-- No control characters. -/
def Printable (text : List Char) : Prop := ∀ c ∈ text, 32 ≤ c.toNat

instance (text : List Char) : Decidable (Printable text) := List.decidableBAll (fun c : Char => 32 ≤ c.toNat) text

section
variable {text : List Char} {read : List Nat} {tokens : List Token}

theorem escapeQuotes_append (before after : List Char) :
    escapeQuotes (before ++ after) = escapeQuotes before ++ escapeQuotes after := List.flatMap_append

theorem escapeQuotes_quote (rest : List Char) : escapeQuotes ('"' :: rest) = '\\' :: '"' :: escapeQuotes rest := rfl

theorem escapeQuotes_other {c : Char} (other : c ≠ '"') (rest : List Char) :
    escapeQuotes (c :: rest) = c :: escapeQuotes rest := by
  simp [escapeQuotes, other]

/-- One character of a text with both escaped. -/
theorem escaped_cons (c : Char) (rest : List Char) :
    escapeQuotes (escapeBackslashes (c :: rest)) =
      (if c = '\\' then ['\\', '\\'] else if c = '"' then ['\\', '"'] else [c]) ++
        escapeQuotes (escapeBackslashes rest) := by
  have first : escapeBackslashes (c :: rest) = (if c = '\\' then ['\\', '\\'] else [c]) ++ escapeBackslashes rest := rfl
  rw [first, escapeQuotes_append]
  by_cases backslash : c = '\\'
  · rw [if_pos backslash, if_pos backslash]
    rfl
  · rw [if_neg backslash, if_neg backslash]
    simp [escapeQuotes]

/-- What stands for a character between the quotes is read as it. -/
theorem lex_escaped_char {c : Char} (printable : 32 ≤ c.toNat) (rest : List Char) :
    run lexStep (.text read, tokens)
        ((if c = '\\' then ['\\', '\\'] else if c = '"' then ['\\', '"'] else [c]) ++ rest) =
      run lexStep (.text (read ++ charUnits c), tokens) rest := by
  by_cases backslash : c = '\\'
  · rw [if_pos backslash, backslash]
    rfl
  · by_cases quote : c = '"'
    · rw [if_neg backslash, if_pos quote, quote]
      rfl
    · rw [if_neg backslash, if_neg quote]
      simp [run, lexStep, backslash, quote, printable]

theorem lex_escaped (printable : Printable text) (read : List Nat) :
    run lexStep (.text read, tokens) (escapeQuotes (escapeBackslashes text)) = some (.text (read ++ units text), tokens) := by
  induction text generalizing read with
  | nil => simp [escapeQuotes, escapeBackslashes, units]
  | cons c rest ih =>
    obtain ⟨own, later⟩ := List.forall_mem_cons.mp printable
    rw [escaped_cons, lex_escaped_char own, ih later]
    simp [units]

/-- A control character is not read, whatever is escaped. -/
theorem lex_control (control : ¬ Printable text) (read : List Nat) :
    run lexStep (.text read, tokens) (escapeQuotes (escapeBackslashes text)) = none := by
  induction text generalizing read with
  | nil => exact absurd (List.forall_mem_nil _) control
  | cons c rest ih =>
    rw [escaped_cons]
    by_cases own : 32 ≤ c.toNat
    · rw [lex_escaped_char own]
      exact ih (fun later => control (List.forall_mem_cons.mpr ⟨own, later⟩)) _
    · have backslash : c ≠ '\\' := by
        rintro rfl
        exact own (by decide)
      have quote : c ≠ '"' := by
        rintro rfl
        exact own (by decide)
      simp [run, lexStep, backslash, quote, own]

/-! ## Quotes alone -/

/-- Neither backslashes nor control characters. -/
def Unslashed (text : List Char) : Prop := ∀ c ∈ text, c ≠ '\\' ∧ 32 ≤ c.toNat

instance (text : List Char) : Decidable (Unslashed text) :=
  List.decidableBAll (fun c : Char => c ≠ '\\' ∧ 32 ≤ c.toNat) text

theorem unslashed_append {before after : List Char} : Unslashed (before ++ after) ↔ Unslashed before ∧ Unslashed after :=
  List.forall_mem_append

theorem unslashed_of_plain (plain : Plain text) : Unslashed text := fun c inside => (plain c inside).2

theorem lex_quoted (unslashed : Unslashed text) (read : List Nat) :
    run lexStep (.text read, tokens) (escapeQuotes text) = some (.text (read ++ units text), tokens) := by
  have same : escapeBackslashes text = text := by
    have one : ∀ c ∈ text, (if c = '\\' then ['\\', '\\'] else [c]) = [c] := fun c inside => if_neg (unslashed c inside).1
    rw [escapeBackslashes, List.flatMap_congr one]
    exact List.flatMap_singleton' text
  have read := @lex_escaped text tokens (fun c inside => (unslashed c inside).2) read
  rwa [same] at read

/-- What a stretch that began in a mode can add to the code units of a string that is
    still read at its end. A string that was closed is not opened again, since every
    quote is escaped. -/
def Adds (text : List Char) : Mode → List Nat → Prop
  | .between, _ | .word _, _ => False
  | .text read, value => value = read ++ units text ∧ Unslashed text ∨ value.length < (read ++ units text).length
  | .escaped read, value | .unicode read _, value => value.length ≤ (read ++ units text).length

theorem Adds.length_le {rest : List Char} {read value : List Nat} (adds : Adds rest (.text read) value) :
    value.length ≤ (read ++ units rest).length := by
  rcases adds with ⟨rfl, -⟩ | shorter
  · exact Nat.le_refl _
  · exact Nat.le_of_lt shorter

theorem adds_between {c : Char} {rest : List Char} {mode : Mode} {tokens next : List Token} {value : List Nat}
    (quote : c ≠ '"') (taken : lexBetween tokens c = some (mode, next)) : ¬ Adds rest mode value := by
  simp only [lexBetween, if_neg quote] at taken
  split at taken
  · cases taken
    exact id
  · split at taken
    · cases taken
      exact id
    · obtain ⟨token, -, same⟩ := Option.map_eq_some_iff.mp taken
      cases same
      exact id

/-- The step that one character is. -/
theorem adds_step {c : Char} {rest : List Char} {mode next : Mode} {tokens after : List Token} {value : List Nat}
    (quote : c ≠ '"') (taken : lexStep (mode, tokens) c = some (next, after)) (adds : Adds rest next value) :
    after = tokens ∧ Adds (c :: rest) mode value := by
  have own := charUnits_length_pos c
  have whole : (units (c :: rest)).length = (charUnits c).length + (units rest).length := by simp [units]
  cases mode with
  | between => exact absurd adds (adds_between quote taken)
  | word word =>
    simp only [lexStep] at taken
    split at taken
    · cases taken
      exact adds.elim
    · split at taken
      · exact absurd adds (adds_between quote taken)
      · cases taken
  | text read =>
    simp only [lexStep, if_neg quote] at taken
    split at taken
    · cases taken
      refine ⟨rfl, .inr ?_⟩
      simp only [Adds, List.length_append] at adds ⊢
      omega
    · next backslash =>
      split at taken
      · next printable =>
        cases taken
        refine ⟨rfl, adds.imp ?_ ?_⟩
        · rintro ⟨rfl, unslashed⟩
          exact ⟨by simp [units], List.forall_mem_cons.mpr ⟨⟨backslash, printable⟩, unslashed⟩⟩
        · intro shorter
          simp only [List.length_append] at shorter ⊢
          omega
      · cases taken
  | escaped read =>
    simp only [lexStep] at taken
    split at taken
    · cases taken
      refine ⟨rfl, ?_⟩
      simp only [Adds, List.length_append] at adds ⊢
      omega
    · obtain ⟨unit, -, same⟩ := Option.map_eq_some_iff.mp taken
      cases same
      refine ⟨rfl, ?_⟩
      have longer := adds.length_le
      simp only [Adds, List.length_append, List.length_singleton] at longer ⊢
      omega
  | unicode read digits =>
    obtain ⟨digit, -, same⟩ := Option.map_eq_some_iff.mp taken
    split at same
    · cases same
      refine ⟨rfl, ?_⟩
      simp only [Adds, List.length_append] at adds ⊢
      omega
    · cases same
      refine ⟨rfl, ?_⟩
      have longer := adds.length_le
      simp only [Adds, List.length_append, List.length_singleton] at longer ⊢
      omega

/-- An escaped quote. -/
theorem adds_quote {rest : List Char} {mode : Mode} {here : Mode × List Token} {value : List Nat}
    (ran : run lexStep (mode, tokens) ['\\', '"'] = some here) (adds : Adds rest here.1 value) :
    here.2 = tokens ∧ Adds ('"' :: rest) mode value := by
  have whole : units ('"' :: rest) = 34 :: units rest := rfl
  cases mode with
  | between => cases ran
  | word word =>
    by_cases literal : IsLiteral word
    · simp [run, lexStep, literal, lexBetween, structural, IsBlank, show ¬ IsWordChar '\\' by decide] at ran
    · simp [run, lexStep, literal, show ¬ IsWordChar '\\' by decide] at ran
  | text read =>
    have inside : some (Mode.text (read ++ [34]), tokens) = some here := ran
    cases inside
    refine ⟨rfl, adds.imp ?_ ?_⟩
    · rintro ⟨rfl, unslashed⟩
      exact ⟨by simp [whole], List.forall_mem_cons.mpr ⟨by decide, unslashed⟩⟩
    · intro shorter
      simpa [whole] using shorter
  | escaped read =>
    have closed : some (Mode.between, tokens ++ [.text (read ++ [92])]) = some here := ran
    cases closed
    exact adds.elim
  | unicode read digits => cases ran

theorem adds_run {mode : Mode} {value : List Nat} {after : List Token}
    (ran : run lexStep (mode, tokens) (escapeQuotes text) = some (.text value, after)) :
    after = tokens ∧ Adds text mode value := by
  induction text generalizing mode tokens with
  | nil =>
    cases ran
    exact ⟨rfl, .inl ⟨by simp [units], List.forall_mem_nil _⟩⟩
  | cons c rest ih =>
    by_cases quote : c = '"'
    · rw [quote, escapeQuotes_quote, show '\\' :: '"' :: escapeQuotes rest = ['\\', '"'] ++ escapeQuotes rest from rfl,
        run_append] at ran
      obtain ⟨⟨next, between⟩, first, later⟩ := Option.bind_eq_some_iff.mp ran
      obtain ⟨rfl, adds⟩ := ih later
      rw [quote]
      exact adds_quote first adds
    · rw [escapeQuotes_other quote, run_cons] at ran
      obtain ⟨⟨next, between⟩, first, later⟩ := ran
      obtain ⟨rfl, adds⟩ := ih later
      exact adds_step quote first adds

/-- A text that is read as itself with its quotes alone escaped needed no other escape. -/
theorem quoted_reads {value : List Nat} {after : List Token}
    (ran : run lexStep (.text [], tokens) (escapeQuotes text) = some (.text value, after)) :
    after = tokens ∧ (value = units text → Unslashed text) := by
  obtain ⟨rfl, adds⟩ := adds_run ran
  refine ⟨rfl, ?_⟩
  rintro rfl
  rcases adds with ⟨-, unslashed⟩ | shorter
  · exact unslashed
  · exact absurd shorter (Nat.lt_irrefl _)

end

/-! ## Reading the code units -/

def decode : List Nat → List Char
  | [] => []
  | [unit] => [Char.ofNat unit]
  | high :: low :: rest =>
    if 0xD800 ≤ high ∧ high < 0xDC00 then Char.ofNat (0x10000 + (high - 0xD800) * 0x400 + (low - 0xDC00)) :: decode rest
    else Char.ofNat high :: decode (low :: rest)

theorem decode_unit {unit : Nat} (single : ¬ (0xD800 ≤ unit ∧ unit < 0xDC00)) (rest : List Nat) :
    decode (unit :: rest) = Char.ofNat unit :: decode rest := by
  cases rest with
  | nil => rfl
  | cons next rest => rw [decode, if_neg single]

theorem decode_char (c : Char) (rest : List Nat) : decode (charUnits c ++ rest) = c :: decode rest := by
  have valid : c.toNat < 0xD800 ∨ 0xDFFF < c.toNat ∧ c.toNat < 0x110000 := c.valid
  unfold charUnits
  split
  · rw [List.singleton_append, decode_unit (by omega), Char.ofNat_toNat]
  · rw [List.cons_append, List.singleton_append, decode, if_pos (by omega)]
    have joined : 0x10000 + (0xD800 + (c.toNat - 0x10000) / 0x400 - 0xD800) * 0x400 +
        (0xDC00 + (c.toNat - 0x10000) % 0x400 - 0xDC00) = c.toNat := by omega
    rw [joined, Char.ofNat_toNat]

theorem decode_units (text : List Char) : decode (units text) = text := by
  induction text with
  | nil => rfl
  | cons c rest ih =>
    rw [show units (c :: rest) = charUnits c ++ units rest from rfl, decode_char, ih]

theorem units_inj {text other : List Char} : units text = units other ↔ text = other := by
  constructor
  · intro same
    rw [← decode_units text, same, decode_units]
  · rintro rfl
    rfl

/-! ## Whole numbers -/

theorem run_digits {word : List Char} (digits : ∀ c ∈ word, c.isDigit) :
    run numberStep .integer word = some .integer := by
  induction word with
  | nil => rfl
  | cons c rest ih =>
    obtain ⟨own, later⟩ := List.forall_mem_cons.mp digits
    rw [run, numberStep, if_pos own]
    exact ih later

/-- The digits of a positive number begin one, signed or not. -/
theorem run_toDigits {n : Nat} (positive : 0 < n) {first : NumberState} (begins : first = .start ∨ first = .minus) :
    run numberStep first (Nat.toDigits 10 n) = some .integer := by
  induction n using Nat.strong_induction_on with
  | _ n ih =>
    by_cases single : n < 10
    · rcases begins with rfl | rfl
      · interval_cases n <;> decide
      · interval_cases n <;> decide
    · rw [Nat.toDigits_of_base_le (by decide) (by omega), run_append, ih (n / 10) (by omega) (by omega), Option.bind_some]
      refine run_digits (List.forall_mem_singleton.mpr ?_)
      rw [Nat.isDigit_digitChar]
      exact decide_eq_true (Nat.mod_lt n (by decide))

/-- A whole number is a word. -/
theorem word_toString (z : Int) :
    (toString z).toList ≠ [] ∧ (∀ c ∈ (toString z).toList, IsWordChar c) ∧ IsLiteral (toString z).toList := by
  have digit {n : Nat} : ∀ c ∈ Nat.toDigits 10 n, IsWordChar c := by
    intro c inside
    exact .inl (by simp [Char.isAlphanum, TextLines.isDigit_toDigits c inside])
  rw [TextLines.toList_toString]
  split
  · refine ⟨Nat.toDigits_ne_nil, digit, .inr (.inr (.inr ?_))⟩
    rcases Nat.eq_zero_or_pos z.toNat with zero | positive
    · rw [zero]
      decide
    · exact ⟨.integer, run_toDigits positive (.inl rfl), .inr (.inl rfl)⟩
  · refine ⟨List.cons_ne_nil _ _, List.forall_mem_cons.mpr ⟨by decide, digit⟩, .inr (.inr (.inr ?_))⟩
    exact ⟨.integer, run_toDigits (by omega) (.inr rfl), .inr (.inl rfl)⟩

end EllaFi.JsonText
