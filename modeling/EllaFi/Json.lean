import EllaFi.Runs
import Mathlib

/-!
JSON texts and what they mean. A lexer reads the characters into tokens, one
character at a time, and a pushdown automaton reads the tokens into a value; the
text of a string is its sequence of UTF-16 code units, and of the members of an
object under one key the last one counts. Characters between the quotes that need
no escape stand for themselves (`lex_plain`). A string read out of a stretch of
other characters stands for itself or is shorter than they are (`region_texts`),
and every string that is a member of an object was read as a token
(`object_texts`).
-/
namespace EllaFi.Json
open EllaFi.Runs (run run_append run_cons run_nil run_history)

/-! ## Characters -/

/-- The UTF-16 code units of a character. -/
def charUnits (c : Char) : List Nat :=
  if c.toNat < 0x10000 then [c.toNat]
  else [0xD800 + (c.toNat - 0x10000) / 0x400, 0xDC00 + (c.toNat - 0x10000) % 0x400]

def units (text : List Char) : List Nat := text.flatMap charUnits

/-- A character that a string can hold without an escape. -/
def PlainChar (c : Char) : Prop := c ≠ '"' ∧ c ≠ '\\' ∧ 32 ≤ c.toNat

instance (c : Char) : Decidable (PlainChar c) := inferInstanceAs (Decidable (_ ∧ _ ∧ _))

def Plain (text : List Char) : Prop := ∀ c ∈ text, PlainChar c

instance (text : List Char) : Decidable (Plain text) := List.decidableBAll PlainChar text

def IsBlank (c : Char) : Prop := c = ' ' ∨ c = '\t' ∨ c = '\n' ∨ c = '\r'

instance (c : Char) : Decidable (IsBlank c) := inferInstanceAs (Decidable (_ ∨ _ ∨ _ ∨ _))

/-- A character of a number or of a literal name. -/
def IsWordChar (c : Char) : Prop := c.isAlphanum ∨ c = '-' ∨ c = '+' ∨ c = '.'

instance (c : Char) : Decidable (IsWordChar c) := inferInstanceAs (Decidable (_ ∨ _ ∨ _ ∨ _))

def hexValue (c : Char) : Option Nat :=
  if '0' ≤ c ∧ c ≤ '9' then some (c.toNat - '0'.toNat)
  else if 'a' ≤ c ∧ c ≤ 'f' then some (c.toNat - 'a'.toNat + 10)
  else if 'A' ≤ c ∧ c ≤ 'F' then some (c.toNat - 'A'.toNat + 10)
  else none

/-- The code unit that a character stands for after a backslash. -/
def escape : Char → Option Nat
  | '"' => some 34
  | '\\' => some 92
  | '/' => some 47
  | 'b' => some 8
  | 'f' => some 12
  | 'n' => some 10
  | 'r' => some 13
  | 't' => some 9
  | _ => none

/-! ## Numbers -/

inductive NumberState where
  | start
  | minus
  | zero
  | integer
  | point
  | fraction
  | exponent
  | sign
  | power
deriving DecidableEq

def afterInteger (c : Char) : Option NumberState :=
  if c = '.' then some .point else if c = 'e' ∨ c = 'E' then some .exponent else none

def numberStep : NumberState → Char → Option NumberState
  | .start, c =>
    if c = '-' then some .minus else if c = '0' then some .zero else if c.isDigit then some .integer else none
  | .minus, c => if c = '0' then some .zero else if c.isDigit then some .integer else none
  | .zero, c => afterInteger c
  | .integer, c => if c.isDigit then some .integer else afterInteger c
  | .point, c => if c.isDigit then some .fraction else none
  | .fraction, c =>
    if c.isDigit then some .fraction else if c = 'e' ∨ c = 'E' then some .exponent else none
  | .exponent, c => if c = '+' ∨ c = '-' then some .sign else if c.isDigit then some .power else none
  | .sign, c | .power, c => if c.isDigit then some .power else none

def IsNumber (word : List Char) : Prop :=
  ∃ last ∈ run numberStep .start word, last = .zero ∨ last = .integer ∨ last = .fraction ∨ last = .power

instance (word : List Char) : Decidable (IsNumber word) :=
  inferInstanceAs (Decidable (∃ last ∈ run numberStep .start word, _))

/-- A number, or one of the three literal names. -/
def IsLiteral (word : List Char) : Prop :=
  word = ['t', 'r', 'u', 'e'] ∨ word = ['f', 'a', 'l', 's', 'e'] ∨ word = ['n', 'u', 'l', 'l'] ∨ IsNumber word

instance (word : List Char) : Decidable (IsLiteral word) := inferInstanceAs (Decidable (_ ∨ _ ∨ _ ∨ _))

/-! ## Tokens -/

inductive Token where
  | openObject
  | closeObject
  | openArray
  | closeArray
  | colon
  | comma
  | text (units : List Nat)
  | word (read : List Char)
deriving DecidableEq, Repr

def structural : Char → Option Token
  | '\x7b' => some .openObject
  | '\x7d' => some .closeObject
  | '[' => some .openArray
  | ']' => some .closeArray
  | ':' => some .colon
  | ',' => some .comma
  | _ => none

/-- Where the lexer stands; inside a string it holds the code units read so far. -/
inductive Mode where
  | between
  | word (read : List Char)
  | text (units : List Nat)
  | escaped (units : List Nat)
  | unicode (units : List Nat) (digits : List Nat)
deriving DecidableEq, Repr

def lexBetween (tokens : List Token) (c : Char) : Option (Mode × List Token) :=
  if IsBlank c then some (.between, tokens)
  else if c = '"' then some (.text [], tokens)
  else if IsWordChar c then some (.word [c], tokens)
  else (structural c).map fun token => (.between, tokens ++ [token])

def lexStep : Mode × List Token → Char → Option (Mode × List Token)
  | (.between, tokens), c => lexBetween tokens c
  | (.word read, tokens), c =>
    if IsWordChar c then some (.word (read ++ [c]), tokens)
    else if IsLiteral read then lexBetween (tokens ++ [.word read]) c
    else none
  | (.text read, tokens), c =>
    if c = '"' then some (.between, tokens ++ [.text read])
    else if c = '\\' then some (.escaped read, tokens)
    else if 32 ≤ c.toNat then some (.text (read ++ charUnits c), tokens)
    else none
  | (.escaped read, tokens), c =>
    if c = 'u' then some (.unicode read [], tokens)
    else (escape c).map fun unit => (.text (read ++ [unit]), tokens)
  | (.unicode read digits, tokens), c =>
    (hexValue c).map fun digit =>
      if digits.length < 3 then (.unicode read (digits ++ [digit]), tokens)
      else (.text (read ++ [(digits ++ [digit]).foldl (fun value next => 16 * value + next) 0]), tokens)

/-- The tokens of a text, when all of it can be read. -/
def lex (text : List Char) : Option (List Token) :=
  match run lexStep (.between, []) text with
  | some (.between, tokens) => some tokens
  | some (.word read, tokens) => if IsLiteral read then some (tokens ++ [.word read]) else none
  | _ => none

/-! ## Values -/

inductive Value where
  | word (read : List Char)
  | text (units : List Nat)
  | array (elements : List Value)
  | object (members : List (List Nat × Value))

/-- An array or an object that is not closed yet, with the key whose value is read. -/
inductive Frame where
  | array (elements : List Value)
  | member (members : List (List Nat × Value)) (key : List Nat)

inductive State where
  | value (stack : List Frame)
  | firstElement (stack : List Frame)
  | firstKey (stack : List Frame)
  | nextKey (stack : List Frame) (members : List (List Nat × Value))
  | colon (stack : List Frame) (members : List (List Nat × Value)) (key : List Nat)
  | afterElement (stack : List Frame) (elements : List Value)
  | afterMember (stack : List Frame) (members : List (List Nat × Value))
  | finished (value : Value)

/-- A value is complete. -/
def completed : List Frame → Value → State
  | [], value => .finished value
  | .array elements :: stack, value => .afterElement stack (elements ++ [value])
  | .member members key :: stack, value => .afterMember stack (members ++ [(key, value)])

def startValue (stack : List Frame) : Token → Option State
  | .text units => some (completed stack (.text units))
  | .word read => some (completed stack (.word read))
  | .openObject => some (.firstKey stack)
  | .openArray => some (.firstElement stack)
  | _ => none

def parseStep : State → Token → Option State
  | .value stack, token => startValue stack token
  | .firstElement stack, .closeArray => some (completed stack (.array []))
  | .firstElement stack, token => startValue (.array [] :: stack) token
  | .firstKey stack, .closeObject => some (completed stack (.object []))
  | .firstKey stack, .text key => some (.colon stack [] key)
  | .nextKey stack members, .text key => some (.colon stack members key)
  | .colon stack members key, .colon => some (.value (.member members key :: stack))
  | .afterElement stack elements, .comma => some (.value (.array elements :: stack))
  | .afterElement stack elements, .closeArray => some (completed stack (.array elements))
  | .afterMember stack members, .comma => some (.nextKey stack members)
  | .afterMember stack members, .closeObject => some (completed stack (.object members))
  | _, _ => none

def parseTokens (tokens : List Token) : Option Value :=
  match run parseStep (.value []) tokens with
  | some (.finished value) => some value
  | _ => none

def parse (text : List Char) : Option Value := (lex text).bind parseTokens

namespace Value

def keys : Value → List (List Nat)
  | .object members => members.map (·.1)
  | _ => []

/-- The value under a key; of several the last. -/
def field (key : List Nat) : Value → Option Value
  | .object members => ((members.filter fun member => member.1 = key).getLast?).map (·.2)
  | _ => none

def textOf : Value → Option (List Nat)
  | .text units => some units
  | _ => none

end Value

/-! ## Reading a stretch of characters -/

theorem units_append (before after : List Char) : units (before ++ after) = units before ++ units after :=
  List.flatMap_append

theorem units_snoc (text : List Char) (c : Char) : units (text ++ [c]) = units text ++ charUnits c := by
  simp [units]

theorem charUnits_length_pos (c : Char) : 0 < (charUnits c).length := by
  unfold charUnits; split <;> simp

theorem units_length_snoc (text : List Char) (c : Char) : (units text).length < (units (text ++ [c])).length := by
  have := charUnits_length_pos c
  rw [units_snoc, List.length_append]
  omega

theorem charUnits_plain (c : Char) : (∀ unit ∈ charUnits c, unit ≠ 34 ∧ unit ≠ 92 ∧ 32 ≤ unit) ↔ PlainChar c := by
  have quote : c = '"' ↔ c.toNat = 34 := Char.toNat_inj.symm
  have backslash : c = '\\' ↔ c.toNat = 92 := Char.toNat_inj.symm
  unfold charUnits PlainChar
  split
  · simp [quote, backslash]
  · next wide =>
    simp only [List.forall_mem_cons, List.not_mem_nil, false_imp_iff, implies_true, and_true, ne_eq, quote, backslash]
    constructor
    · intro _
      omega
    · intro _
      omega

theorem units_plain (text : List Char) : (∀ unit ∈ units text, unit ≠ 34 ∧ unit ≠ 92 ∧ 32 ≤ unit) ↔ Plain text := by
  simp only [units, List.mem_flatMap, Plain, ← charUnits_plain]
  constructor
  · intro all c inside unit own
    exact all unit ⟨c, inside, own⟩
  · rintro all unit ⟨c, inside, own⟩
    exact all c inside unit own

/-- Whether a text is plain shows in its code units. -/
theorem plain_of_units {text other : List Char} (same : units text = units other) (plain : Plain other) : Plain text := by
  rw [← units_plain, same, units_plain]
  exact plain

/-- Between quotes a plain text stands for itself. -/
theorem lex_plain {text : List Char} (plain : Plain text) (read : List Nat) (tokens : List Token) :
    run lexStep (.text read, tokens) text = some (.text (read ++ units text), tokens) := by
  induction text generalizing read with
  | nil => simp [units]
  | cons c rest ih =>
    obtain ⟨⟨quote, backslash, printable⟩, plainRest⟩ := List.forall_mem_cons.mp plain
    have taken : lexStep (.text read, tokens) c = some (.text (read ++ charUnits c), tokens) := by
      simp [lexStep, quote, backslash, printable]
    rw [run, taken, Option.bind_some, ih plainRest]
    simp [units]

/-- What a string can be that was read within a stretch of characters: some of them,
    plain, or a text shorter than they are, when an escape is among them. -/
def Within (stretch : List Char) (text : List Nat) : Prop :=
  (∃ raw, raw <:+: stretch ∧ Plain raw ∧ text = units raw) ∨
    (text.length < (units stretch).length ∧ '\\' ∈ stretch)

/-- What the lexer holds within a stretch that began inside a string. -/
def Holding (stretch : List Char) : Mode → Prop
  | .text read => (∃ raw, raw <:+ stretch ∧ Plain raw ∧ read = units raw) ∨
      (read.length < (units stretch).length ∧ '\\' ∈ stretch)
  | .escaped read | .unicode read _ => read.length < (units stretch).length ∧ '\\' ∈ stretch
  | .between | .word _ => True

theorem within_snoc {stretch : List Char} {text : List Nat} (c : Char) (within : Within stretch text) :
    Within (stretch ++ [c]) text := by
  have longer := units_length_snoc stretch c
  rcases within with ⟨raw, part, plain, own⟩ | ⟨short, escape⟩
  · exact .inl ⟨raw, part.trans (List.prefix_append _ _).isInfix, plain, own⟩
  · exact .inr ⟨by omega, List.mem_append_left _ escape⟩

theorem holding_within {stretch : List Char} {read : List Nat} (holding : Holding stretch (.text read)) :
    Within stretch read := by
  rcases holding with ⟨raw, part, plain, own⟩ | short
  · exact .inl ⟨raw, part.isInfix, plain, own⟩
  · exact .inr short

theorem holding_length {stretch : List Char} {read : List Nat} (holding : Holding stretch (.text read)) :
    read.length ≤ (units stretch).length := by
  rcases holding with ⟨raw, ⟨before, rfl⟩, -, rfl⟩ | ⟨short, -⟩
  · simp [units_append]
  · omega

theorem holding_snoc {stretch : List Char} {read : List Nat} {c : Char} (plain : PlainChar c)
    (holding : Holding stretch (.text read)) : Holding (stretch ++ [c]) (.text (read ++ charUnits c)) := by
  rcases holding with ⟨raw, ⟨before, rfl⟩, plainRaw, rfl⟩ | ⟨short, escape⟩
  · refine .inl ⟨raw ++ [c], ⟨before, by simp⟩, ?_, by simp [units]⟩
    exact List.forall_mem_append.mpr ⟨plainRaw, List.forall_mem_singleton.mpr plain⟩
  · refine .inr ⟨?_, List.mem_append_left _ escape⟩
    rw [units_snoc, List.length_append, List.length_append]
    omega

/-- The texts read so far within a stretch. -/
structure Stretched (first : List Token) (stretch : List Char) (here : Mode × List Token) : Prop where
  holding : Holding stretch here.1
  texts : ∀ text, .text text ∈ here.2 → .text text ∈ first ∨ Within stretch text

theorem stretched_between {first : List Token} {stretch : List Char} {tokens : List Token} {c : Char}
    {next : Mode × List Token} (texts : ∀ text, .text text ∈ tokens → .text text ∈ first ∨ Within (stretch ++ [c]) text)
    (taken : lexBetween tokens c = some next) : Stretched first (stretch ++ [c]) next := by
  unfold lexBetween at taken
  split at taken
  · cases taken
    exact ⟨trivial, texts⟩
  · split at taken
    · cases taken
      exact ⟨.inl ⟨[], List.nil_suffix, List.forall_mem_nil _, rfl⟩, texts⟩
    · split at taken
      · cases taken
        exact ⟨trivial, texts⟩
      · obtain ⟨token, is, rfl⟩ := Option.map_eq_some_iff.mp taken
        refine ⟨trivial, fun text inside => ?_⟩
        rcases List.mem_append.mp inside with before | now
        · exact texts text before
        · cases List.mem_singleton.mp now
          unfold structural at is
          split at is <;> cases is

theorem stretched_step {first : List Token} {stretch : List Char} {here next : Mode × List Token} {c : Char}
    (stretched : Stretched first stretch here) (taken : lexStep here c = some next) :
    Stretched first (stretch ++ [c]) next := by
  obtain ⟨mode, tokens⟩ := here
  obtain ⟨holding, texts⟩ := stretched
  have later : ∀ text, .text text ∈ tokens → .text text ∈ first ∨ Within (stretch ++ [c]) text :=
    fun text inside => (texts text inside).imp_right (within_snoc c)
  have longer := units_length_snoc stretch c
  cases mode with
  | between => exact stretched_between later taken
  | word read =>
    simp only [lexStep] at taken
    split at taken
    · cases taken
      exact ⟨trivial, later⟩
    · split at taken
      · refine stretched_between (fun text inside => ?_) taken
        rcases List.mem_append.mp inside with before | now
        · exact later text before
        · cases List.mem_singleton.mp now
      · cases taken
  | text read =>
    have bound := holding_length holding
    simp only [lexStep] at taken
    split at taken
    · cases taken
      refine ⟨trivial, fun text inside => ?_⟩
      rcases List.mem_append.mp inside with before | now
      · exact later text before
      · cases List.mem_singleton.mp now
        exact .inr (within_snoc c (holding_within holding))
    · next quote =>
      split at taken
      · next backslash =>
        cases taken
        exact ⟨⟨by omega, by simp [backslash]⟩, later⟩
      · next backslash =>
        split at taken
        · next printable =>
          cases taken
          exact ⟨holding_snoc ⟨quote, backslash, printable⟩ holding, later⟩
        · cases taken
  | escaped read =>
    obtain ⟨short, escape⟩ := holding
    have escape : '\\' ∈ stretch ++ [c] := List.mem_append_left _ escape
    simp only [lexStep] at taken
    split at taken
    · cases taken
      exact ⟨⟨by omega, escape⟩, later⟩
    · obtain ⟨unit, -, rfl⟩ := Option.map_eq_some_iff.mp taken
      exact ⟨.inr ⟨by rw [List.length_append, List.length_singleton]; omega, escape⟩, later⟩
  | unicode read digits =>
    obtain ⟨short, escape⟩ := holding
    have escape : '\\' ∈ stretch ++ [c] := List.mem_append_left _ escape
    obtain ⟨digit, -, rfl⟩ := Option.map_eq_some_iff.mp taken
    split
    · exact ⟨⟨by omega, escape⟩, later⟩
    · exact ⟨.inr ⟨by rw [List.length_append, List.length_singleton]; omega, escape⟩, later⟩

/-- A stretch of characters that begins inside a string. -/
theorem region_texts {first : List Token} {stretch : List Char} {last : Mode × List Token}
    (ran : run lexStep (.text [], first) stretch = some last) : Stretched first stretch last :=
  run_history ⟨.inl ⟨[], List.nil_suffix, List.forall_mem_nil _, rfl⟩, fun _ => .inl⟩
    (fun _ _ _ _ _ stretched taken => stretched_step stretched taken) ran

/-! ## The strings of an object -/

/-- The strings among these members were read as tokens. -/
def MembersRead (tokens : List Token) (members : List (List Nat × Value)) : Prop :=
  ∀ key text, (key, .text text) ∈ members → .text text ∈ tokens

def ValueRead (tokens : List Token) : Value → Prop
  | .text text => .text text ∈ tokens
  | .object members => MembersRead tokens members
  | .word _ | .array _ => True

def FrameRead (tokens : List Token) : Frame → Prop
  | .member members _ => MembersRead tokens members
  | .array _ => True

def StateRead (tokens : List Token) : State → Prop
  | .value stack | .firstElement stack | .firstKey stack | .afterElement stack _ =>
    ∀ frame ∈ stack, FrameRead tokens frame
  | .nextKey stack members | .colon stack members _ | .afterMember stack members =>
    (∀ frame ∈ stack, FrameRead tokens frame) ∧ MembersRead tokens members
  | .finished value => ValueRead tokens value

theorem frameRead_mono {tokens longer : List Token} (part : tokens ⊆ longer) {frame : Frame}
    (read : FrameRead tokens frame) : FrameRead longer frame := by
  cases frame with
  | member members key => exact fun key text inside => part (read key text inside)
  | array elements => trivial

theorem stateRead_mono {tokens longer : List Token} (part : tokens ⊆ longer) {state : State}
    (read : StateRead tokens state) : StateRead longer state := by
  have frames {stack : List Frame} (all : ∀ frame ∈ stack, FrameRead tokens frame) :
      ∀ frame ∈ stack, FrameRead longer frame := fun frame inside => frameRead_mono part (all frame inside)
  cases state with
  | value | firstElement | firstKey | afterElement => exact frames read
  | nextKey | colon | afterMember => exact ⟨frames read.1, fun key text inside => part (read.2 key text inside)⟩
  | finished value =>
    cases value with
    | text text => exact part read
    | object members => exact fun key text inside => part (read key text inside)
    | word | array => trivial

theorem completed_read {tokens : List Token} {stack : List Frame} {value : Value}
    (frames : ∀ frame ∈ stack, FrameRead tokens frame) (read : ValueRead tokens value) :
    StateRead tokens (completed stack value) := by
  cases stack with
  | nil => exact read
  | cons frame stack =>
    obtain ⟨top, below⟩ := List.forall_mem_cons.mp frames
    cases frame with
    | array elements => exact below
    | member members key =>
      refine ⟨below, fun name text inside => ?_⟩
      rcases List.mem_append.mp inside with before | now
      · exact top name text before
      · obtain ⟨-, rfl⟩ := Prod.mk.inj (List.mem_singleton.mp now)
        exact read

theorem startValue_read {tokens : List Token} {stack : List Frame} {token : Token} {next : State}
    (frames : ∀ frame ∈ stack, FrameRead tokens frame) (known : token ∈ tokens)
    (taken : startValue stack token = some next) : StateRead tokens next := by
  cases token <;> simp only [startValue, Option.some.injEq, reduceCtorEq] at taken <;> subst taken
  · exact frames
  · exact frames
  · exact completed_read frames known
  · exact completed_read frames trivial

theorem parseStep_read {tokens : List Token} {state next : State} {token : Token} (read : StateRead tokens state)
    (known : token ∈ tokens) (taken : parseStep state token = some next) : StateRead tokens next := by
  unfold parseStep at taken
  split at taken <;> try simp only [Option.some.injEq, reduceCtorEq] at taken
  · exact startValue_read read known taken
  · exact taken ▸ completed_read read trivial
  · have inside : ∀ frame ∈ Frame.array [] :: _, FrameRead tokens frame := List.forall_mem_cons.mpr ⟨trivial, read⟩
    exact startValue_read inside known taken
  · exact taken ▸ completed_read read nofun
  · exact taken ▸ ⟨read, nofun⟩
  · exact taken ▸ read
  · exact taken ▸ List.forall_mem_cons.mpr ⟨read.2, read.1⟩
  · exact taken ▸ List.forall_mem_cons.mpr ⟨trivial, read⟩
  · exact taken ▸ completed_read read trivial
  · exact taken ▸ read
  · exact taken ▸ completed_read read.1 read.2

/-- A string under a key of an object was read as a token. -/
theorem object_texts {tokens : List Token} {value : Value} {key text : List Nat}
    (parsed : parseTokens tokens = some value) (found : value.field key = some (.text text)) : .text text ∈ tokens := by
  have reached : run parseStep (.value []) tokens = some (.finished value) := by
    unfold parseTokens at parsed
    split at parsed
    · next ran => rw [ran, Option.some.inj parsed]
    · cases parsed
  have read : StateRead tokens (.finished value) := by
    have first : StateRead [] (.value []) := List.forall_mem_nil _
    refine run_history first ?_ reached
    intro before state token next _ read taken
    exact parseStep_read (stateRead_mono (List.subset_append_left _ _) read) (by simp) taken
  cases value with
  | object members =>
    obtain ⟨member, last, same⟩ := Option.map_eq_some_iff.mp found
    obtain ⟨inside, -⟩ := List.mem_filter.mp (List.mem_of_getLast? last)
    exact read member.1 text (same ▸ inside)
  | word | text | array => cases found

/-- A key that stands once has its member's value. -/
theorem field_of_nodup {members : List (List Nat × Value)} {key : List Nat} {value : Value}
    (distinct : (members.map (·.1)).Nodup) (inside : (key, value) ∈ members) :
    (Value.object members).field key = some value := by
  have only : members.filter (fun member => member.1 = key) = [(key, value)] := by
    induction members with
    | nil => cases inside
    | cons first rest ih =>
      rw [List.map_cons, List.nodup_cons] at distinct
      rcases List.mem_cons.mp inside with rfl | later
      · have others : rest.filter (fun member => member.1 = key) = [] := by
          refine List.filter_eq_nil_iff.mpr fun other there same => distinct.1 ?_
          exact List.mem_map.mpr ⟨other, there, by simpa using same⟩
        simp [others]
      · have differs : first.1 ≠ key := fun same => distinct.1 (List.mem_map.mpr ⟨_, later, same.symm⟩)
        simp [differs, ih distinct.2 later]
  simp [Value.field, only]

end EllaFi.Json
