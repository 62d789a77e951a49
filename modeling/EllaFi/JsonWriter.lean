import EllaFi.JsonText

/-!
Written values. A value that is written carries the proof that its text is read as it, in
any place; members, arrays and objects of such values are written values again. Among such
members, a text that is put between quotes with its own quotes escaped, and nothing else,
is read as it is meant exactly when it has neither a backslash nor a control character
(`parse_around`, `read_of_parsed`).
-/
namespace EllaFi.JsonWriter
open EllaFi.Json EllaFi.RawObject EllaFi.JsonText
open EllaFi.Runs (run run_append)

/-- A text, what it is read as wherever a value can stand, and the value that this is. -/
structure Written where
  text : List Char
  tokens : List Token
  value : Value
  lexes : ∀ before c rest, ¬ IsWordChar c →
    run lexStep (.between, before) (text ++ c :: rest) = run lexStep (.between, before ++ tokens) (c :: rest)
  opens : ∃ first later, tokens = first :: later ∧ first ≠ .closeArray
  parses : ∀ stack more, run parseStep (.value stack) (tokens ++ more) = run parseStep (completed stack value) more

/-- A member of an object. -/
structure Member where
  key : List Char
  plain : Plain key
  written : Written

namespace Member

def text (m : Member) : List Char := '"' :: m.key ++ '"' :: ':' :: m.written.text

def tokens (m : Member) : List Token := .text (units m.key) :: .colon :: m.written.tokens

def value (m : Member) : List Nat × Value := (units m.key, m.written.value)

theorem lexes (m : Member) (before : List Token) {c : Char} (other : ¬ IsWordChar c) (rest : List Char) :
    run lexStep (.between, before) (m.text ++ c :: rest) = run lexStep (.between, before ++ m.tokens) (c :: rest) := by
  have split : m.text ++ c :: rest = '"' :: (m.key ++ '"' :: ':' :: (m.written.text ++ c :: rest)) := by simp [text]
  rw [split, lex_quote, lex_text m.plain, lex_colon, m.written.lexes _ _ _ other]
  simp [tokens]

theorem parses (m : Member) (stack : List Frame) (members : List (List Nat × Value)) (more : List Token) :
    run parseStep (.nextKey stack members) (m.tokens ++ more) =
      run parseStep (.afterMember stack (members ++ [m.value])) more :=
  m.written.parses (.member members (units m.key) :: stack) more

end Member

/-! ## Members behind others -/

def laterText (members : List Member) : List Char := members.flatMap fun m => ',' :: m.text

def laterTokens (members : List Member) : List Token := members.flatMap fun m => .comma :: m.tokens

/-- A member, with more of them or the end of them behind it. -/
theorem lex_behind (m : Member) (later : List Member) (before : List Token) {c : Char} (other : ¬ IsWordChar c)
    (rest : List Char) :
    run lexStep (.between, before) (m.text ++ (laterText later ++ c :: rest)) =
      run lexStep (.between, before ++ m.tokens) (laterText later ++ c :: rest) := by
  cases later with
  | nil => exact m.lexes before other rest
  | cons next later => exact m.lexes before (by decide) _

theorem lex_later (members : List Member) (before : List Token) {c : Char} (other : ¬ IsWordChar c) (rest : List Char) :
    run lexStep (.between, before) (laterText members ++ c :: rest) =
      run lexStep (.between, before ++ laterTokens members) (c :: rest) := by
  induction members generalizing before with
  | nil => simp [laterText, laterTokens]
  | cons m later ih =>
    have split : laterText (m :: later) ++ c :: rest = ',' :: (m.text ++ (laterText later ++ c :: rest)) := by
      simp [laterText]
    rw [split, lex_comma, lex_behind m later _ other, ih]
    simp [laterTokens]

theorem parse_later (later : List Member) (stack : List Frame) (members : List (List Nat × Value)) (more : List Token) :
    run parseStep (.afterMember stack members) (laterTokens later ++ more) =
      run parseStep (.afterMember stack (members ++ later.map Member.value)) more := by
  induction later generalizing members with
  | nil => simp [laterTokens]
  | cons m later ih =>
    have split : laterTokens (m :: later) ++ more = .comma :: (m.tokens ++ (laterTokens later ++ more)) := by
      simp [laterTokens]
    have comma : run parseStep (.afterMember stack members) (.comma :: (m.tokens ++ (laterTokens later ++ more))) =
        run parseStep (.nextKey stack members) (m.tokens ++ (laterTokens later ++ more)) := rfl
    rw [split, comma, m.parses, ih]
    simp

theorem lex_open (before : List Token) (rest : List Char) :
    run lexStep (.between, before) ('\x7b' :: rest) = run lexStep (.between, before ++ [.openObject]) rest := rfl

theorem parse_open (first : Member) (stack : List Frame) (more : List Token) :
    run parseStep (.value stack) (.openObject :: (first.tokens ++ more)) =
      run parseStep (.afterMember stack [first.value]) more :=
  first.written.parses (.member [] (units first.key) :: stack) more

/-! ## Values -/

namespace Written

def word (read : List Char) (nonempty : read ≠ []) (letters : ∀ c ∈ read, IsWordChar c) (literal : IsLiteral read) :
    Written where
  text := read
  tokens := [.word read]
  value := .word read
  lexes before c rest other := by
    rw [run_append, lex_between_word letters nonempty, Option.bind_some, lex_word_end literal other]
  opens := ⟨_, _, rfl, nofun⟩
  parses _ _ := rfl

def number (z : Int) : Written :=
  word (toString z).toList (word_toString z).1 (word_toString z).2.1 (word_toString z).2.2

/-- A string of a text that has only its quotes escaped. -/
def quoted (text : List Char) (unslashed : Unslashed text) : Written where
  text := '"' :: escapeQuotes text ++ ['"']
  tokens := [.text (units text)]
  value := .text (units text)
  lexes before c rest _ := by
    have split : '"' :: escapeQuotes text ++ ['"'] ++ c :: rest = '"' :: (escapeQuotes text ++ '"' :: c :: rest) := by simp
    rw [split, lex_quote, run_append, lex_quoted unslashed]
    rfl
  opens := ⟨_, _, rfl, nofun⟩
  parses _ _ := rfl

def emptyArray : Written where
  text := ['[', ']']
  tokens := [.openArray, .closeArray]
  value := .array []
  lexes before c rest _ := by
    have both : run lexStep (.between, before) (['[', ']'] ++ c :: rest) =
        run lexStep (.between, before ++ [Token.openArray] ++ [Token.closeArray]) (c :: rest) := rfl
    rw [both, List.append_assoc]
    rfl
  opens := ⟨_, _, rfl, nofun⟩
  parses _ _ := rfl

/-- An array of one element. -/
def single (element : Written) : Written where
  text := '[' :: element.text ++ [']']
  tokens := .openArray :: element.tokens ++ [Token.closeArray]
  value := .array [element.value]
  lexes before c rest _ := by
    have split : '[' :: element.text ++ [']'] ++ c :: rest = '[' :: (element.text ++ ']' :: c :: rest) := by simp
    have opening : run lexStep (.between, before) ('[' :: (element.text ++ ']' :: c :: rest)) =
        run lexStep (.between, before ++ [Token.openArray]) (element.text ++ ']' :: c :: rest) := rfl
    have closing : run lexStep (.between, before ++ [Token.openArray] ++ element.tokens) (']' :: c :: rest) =
        run lexStep (.between, before ++ [Token.openArray] ++ element.tokens ++ [Token.closeArray]) (c :: rest) := rfl
    rw [split, opening, element.lexes _ _ _ (by decide), closing]
    simp
  opens := ⟨_, _, rfl, nofun⟩
  parses stack more := by
    obtain ⟨first, later, split, opens⟩ := element.opens
    have order : .openArray :: element.tokens ++ [Token.closeArray] ++ more =
        .openArray :: (element.tokens ++ .closeArray :: more) := by simp
    have inside : run parseStep (.value stack) (.openArray :: (element.tokens ++ .closeArray :: more)) =
        run parseStep (.value (.array [] :: stack)) (element.tokens ++ .closeArray :: more) := by
      rw [split]
      cases first with
      | closeArray => exact absurd rfl opens
      | _ => rfl
    rw [order, inside, element.parses]
    rfl

def object (first : Member) (later : List Member) : Written where
  text := '\x7b' :: first.text ++ laterText later ++ ['\x7d']
  tokens := .openObject :: first.tokens ++ laterTokens later ++ [Token.closeObject]
  value := .object (first.value :: later.map Member.value)
  lexes before c rest _ := by
    have split : '\x7b' :: first.text ++ laterText later ++ ['\x7d'] ++ c :: rest =
        '\x7b' :: (first.text ++ (laterText later ++ '\x7d' :: c :: rest)) := by simp
    have closing (tokens : List Token) : run lexStep (.between, tokens) ('\x7d' :: c :: rest) =
        run lexStep (.between, tokens ++ [Token.closeObject]) (c :: rest) := rfl
    rw [split, lex_open, lex_behind _ _ _ (by decide), lex_later _ _ (by decide), closing]
    simp
  opens := ⟨_, _, rfl, nofun⟩
  parses stack more := by
    have order : .openObject :: first.tokens ++ laterTokens later ++ [Token.closeObject] ++ more =
        .openObject :: (first.tokens ++ (laterTokens later ++ .closeObject :: more)) := by simp
    rw [order, parse_open, parse_later]
    rfl

end Written

/-! ## A string that has only its quotes escaped -/

section
variable (first : Member) (before : List Member) (key name : List Char) (after : List Member)

def around : List Char :=
  '\x7b' :: first.text ++ laterText before ++ ',' :: '"' :: key ++ '"' :: ':' :: '"' :: escapeQuotes name ++
    '"' :: laterText after ++ ['\x7d']

/-- The object with a string under the key. -/
def objectAround (read : List Nat) : Value :=
  .object (first.value :: before.map Member.value ++ (units key, .text read) :: after.map Member.value)

def tokensBefore : List Token :=
  .openObject :: first.tokens ++ laterTokens before ++ [Token.comma, .text (units key), .colon]

variable {first before key name after}

theorem lex_around (plain : Plain key) :
    run lexStep (.between, []) (around first before key name after) =
      run lexStep (.text [], tokensBefore first before key)
        (escapeQuotes name ++ '"' :: (laterText after ++ ['\x7d'])) := by
  have split : around first before key name after = '\x7b' :: (first.text ++ (laterText before ++
      ',' :: '"' :: (key ++ '"' :: ':' :: '"' :: (escapeQuotes name ++ '"' :: (laterText after ++ ['\x7d']))))) := by
    simp [around]
  rw [split, lex_open, lex_behind _ _ _ (by decide), lex_later _ _ (by decide), lex_comma, lex_quote, lex_text plain,
    lex_colon, lex_quote]
  simp [tokensBefore]

/-- What follows the string. -/
theorem lex_after (read : List Nat) (tokens : List Token) :
    run lexStep (.text read, tokens) ('"' :: (laterText after ++ ['\x7d'])) =
      some (.between, tokens ++ [Token.text read] ++ laterTokens after ++ [Token.closeObject]) := by
  have quote : run lexStep (.text read, tokens) ('"' :: (laterText after ++ ['\x7d'])) =
      run lexStep (.between, tokens ++ [Token.text read]) (laterText after ++ ['\x7d']) := rfl
  rw [quote, lex_later _ _ (by decide), lex_brace]

theorem parse_tokensAround (read : List Nat) :
    parseTokens (tokensBefore first before key ++ [Token.text read] ++ laterTokens after ++ [Token.closeObject]) =
      some (objectAround first before key after read) := by
  have order : tokensBefore first before key ++ [Token.text read] ++ laterTokens after ++ [Token.closeObject] =
      .openObject :: (first.tokens ++ (laterTokens before ++
        .comma :: .text (units key) :: .colon :: .text read :: (laterTokens after ++ [Token.closeObject]))) := by
    simp [tokensBefore]
  have string (members : List (List Nat × Value)) (more : List Token) :
      run parseStep (.afterMember [] members) (.comma :: .text (units key) :: .colon :: .text read :: more) =
        run parseStep (.afterMember [] (members ++ [(units key, .text read)])) more := rfl
  have parsed : run parseStep (.value [])
      (tokensBefore first before key ++ [Token.text read] ++ laterTokens after ++ [Token.closeObject]) =
        some (.finished (objectAround first before key after read)) := by
    rw [order, parse_open, parse_later, string, parse_later]
    simp [run, parseStep, completed, objectAround]
  rw [parseTokens, parsed]

theorem parse_around (plain : Plain key) (unslashed : Unslashed name) :
    parse (around first before key name after) = some (objectAround first before key after (units name)) := by
  have lexed : lex (around first before key name after) =
      some (tokensBefore first before key ++ [Token.text (units name)] ++ laterTokens after ++ [Token.closeObject]) := by
    rw [lex, lex_around plain, run_append, lex_quoted unslashed, Option.bind_some, List.nil_append, lex_after]
  rw [parse, lexed, Option.bind_some, parse_tokensAround]

/-- Before a member with a name, the string must have been left open by the text, and
    nothing else read. -/
theorem read_of_parsed {next : Member} {value : Value} (plain : Plain key) (letters : ∀ c ∈ next.key, IsWordChar c)
    (nonempty : next.key ≠ []) (named : ¬ IsLiteral next.key)
    (parsed : parse (around first before key name (next :: after)) = some value) :
    ∃ read, (read = units name → Unslashed name) ∧ value = objectAround first before key (next :: after) read := by
  obtain ⟨tokens, lexed, parsed⟩ := Option.bind_eq_some_iff.mp parsed
  have finish {here : Mode × List Token}
      (ran : run lexStep (.between, []) (around first before key name (next :: after)) = some here) :
      ∃ read, (read = units name → Unslashed name) ∧ here =
        (.between, tokensBefore first before key ++ [Token.text read] ++ laterTokens (next :: after) ++ [Token.closeObject]) := by
    rw [lex_around plain, run_append] at ran
    obtain ⟨⟨mode, within⟩, inside, behind⟩ := Option.bind_eq_some_iff.mp ran
    have split : '"' :: (laterText (next :: after) ++ ['\x7d']) = '"' :: ',' :: '"' :: (next.key ++
        '"' :: ':' :: (next.written.text ++ laterText after ++ ['\x7d'])) := by
      simp [laterText, Member.text]
    have boundary := behind
    rw [split] at boundary
    obtain ⟨read, rfl, -⟩ := lex_boundary letters nonempty named boundary
    obtain ⟨rfl, unslashed⟩ := quoted_reads inside
    rw [lex_after] at behind
    exact ⟨read, unslashed, (Option.some.inj behind).symm⟩
  unfold lex at lexed
  split at lexed
  · next all ran =>
    cases lexed
    obtain ⟨read, unslashed, same⟩ := finish ran
    cases same
    rw [parse_tokensAround] at parsed
    exact ⟨read, unslashed, (Option.some.inj parsed).symm⟩
  · next word all ran =>
    obtain ⟨read, -, same⟩ := finish ran
    cases same
  · cases lexed

end

end EllaFi.JsonWriter
