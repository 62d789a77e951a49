import EllaFi.Json

/-!
Objects written by putting strings between quotes as they are. When every value
is plain, the text means the object that was intended (`parse_rawObject`). When it
is not, some value that needs an escape is not under its key, however the text is
cut up: the quotes that the writer puts around the keys can only be read as what
they are, so a string of the text lies within one value, and is shorter than it if
it has escapes (`rawObject_iff`).
-/
namespace EllaFi.RawObject
open EllaFi.Json
open EllaFi.Runs (run run_append run_cons run_nil)

/-! ## Writing -/

/-- A member whose value is written between quotes, or as a word. -/
inductive Piece where
  | text (key value : List Char)
  | word (key read : List Char)

namespace Piece

def key : Piece → List Char
  | .text key _ | .word key _ => key

/-- What is written behind the key. -/
def rest : Piece → List Char
  | .text _ value => ':' :: '"' :: value ++ ['"']
  | .word _ read => ':' :: read

def write (piece : Piece) : List Char := '"' :: piece.key ++ '"' :: piece.rest

/-- The member that is meant. -/
def member : Piece → List Nat × Value
  | .text key value => (units key, .text (units value))
  | .word key read => (units key, .word read)

def restTokens : Piece → List Token
  | .text _ value => [.colon, .text (units value)]
  | .word _ read => [.colon, .word read]

/-- The value needs no escape. -/
def PlainValue : Piece → Prop
  | .text _ value => Plain value
  | .word _ _ => True

/-- The key is no literal by itself, and a word is one. -/
structure WellFormed (piece : Piece) : Prop where
  letters : ∀ c ∈ piece.key, IsWordChar c
  nonempty : piece.key ≠ []
  name : ¬ IsLiteral piece.key
  word : ∀ key read, piece = .word key read → read ≠ [] ∧ (∀ c ∈ read, IsWordChar c) ∧ IsLiteral read

end Piece

def tail : List Piece → List Char
  | [] => ['\x7d']
  | piece :: pieces => ',' :: piece.write ++ tail pieces

def rawObject (first : Piece) (others : List Piece) : List Char := '\x7b' :: first.write ++ tail others

def tailTokens : List Piece → List Token
  | [] => [.closeObject]
  | piece :: pieces => .comma :: .text (units piece.key) :: piece.restTokens ++ tailTokens pieces

/-! ## Reading what stands between the values -/

section
variable {tokens after : List Token} {last : Mode}

theorem alphanum_printable {c : Char} (alphanumeric : c.isAlphanum) : 32 ≤ c.toNat := by
  have upper : 'A'.val.toNat = 65 := rfl
  have lower : 'a'.val.toNat = 97 := rfl
  have digit : '0'.val.toNat = 48 := rfl
  simp only [Char.isAlphanum, Char.isAlpha, Char.isUpper, Char.isLower, Char.isDigit, Bool.or_eq_true,
    Bool.and_eq_true, decide_eq_true_eq, ge_iff_le, UInt32.le_iff_toNat_le] at alphanumeric
  simp only [Char.toNat]
  omega

theorem wordChar_plain {c : Char} (letter : IsWordChar c) : PlainChar c := by
  rcases letter with alphanumeric | rfl | rfl | rfl
  · refine ⟨?_, ?_, alphanum_printable alphanumeric⟩
    · rintro rfl
      exact absurd alphanumeric (by decide)
    · rintro rfl
      exact absurd alphanumeric (by decide)
  · decide
  · decide
  · decide

theorem wordChar_between {c : Char} (letter : IsWordChar c) (tokens : List Token) :
    lexBetween tokens c = some (.word [c], tokens) := by
  have notQuote := (wordChar_plain letter).1
  have notBlank : ¬ IsBlank c := by
    rintro (rfl | rfl | rfl | rfl) <;> exact absurd letter (by decide)
  simp [lexBetween, notBlank, notQuote, letter]

theorem lex_word {word : List Char} (letters : ∀ c ∈ word, IsWordChar c) (read : List Char) :
    run lexStep (.word read, tokens) word = some (.word (read ++ word), tokens) := by
  induction word generalizing read with
  | nil => simp
  | cons c rest ih =>
    obtain ⟨letter, lettersRest⟩ := List.forall_mem_cons.mp letters
    simp [run, lexStep, letter, ih lettersRest]

/-- A word that begins between the tokens. -/
theorem lex_between_word {word : List Char} (letters : ∀ c ∈ word, IsWordChar c) (nonempty : word ≠ []) :
    run lexStep (.between, tokens) word = some (.word word, tokens) := by
  cases word with
  | nil => exact absurd rfl nonempty
  | cons c rest =>
    obtain ⟨letter, lettersRest⟩ := List.forall_mem_cons.mp letters
    rw [run, lexStep, wordChar_between letter, Option.bind_some, lex_word lettersRest]
    rfl

theorem plain_of_letters {word : List Char} (letters : ∀ c ∈ word, IsWordChar c) : Plain word :=
  fun c inside => wordChar_plain (letters c inside)

/-- A string of plain text. -/
theorem lex_text {text : List Char} (plain : Plain text) (rest : List Char) :
    run lexStep (.text [], tokens) (text ++ '"' :: rest) =
      run lexStep (.between, tokens ++ [Token.text (units text)]) rest := by
  rw [run_append, lex_plain plain, Option.bind_some, run]
  rfl

/-- A word that a quote ends between the tokens is a literal. -/
theorem lex_name_refused {word : List Char} (letters : ∀ c ∈ word, IsWordChar c) (nonempty : word ≠ [])
    (name : ¬ IsLiteral word) (rest : List Char) : run lexStep (.between, tokens) (word ++ '"' :: rest) = none := by
  have quote : ¬ IsWordChar '"' := by decide
  rw [run_append, lex_between_word letters nonempty, Option.bind_some, run]
  simp [lexStep, quote, name]

/-- Out of a string, the quotes around a name cannot be read. -/
theorem lex_outside {word : List Char} (letters : ∀ c ∈ word, IsWordChar c) (nonempty : word ≠ [])
    (name : ¬ IsLiteral word) (rest : List Char) :
    run lexStep (.between, tokens) ('"' :: ',' :: '"' :: (word ++ '"' :: rest)) = none := by
  have refused := @lex_name_refused (tokens ++ [Token.text (units [','])]) word letters nonempty name rest
  simpa [run, lexStep, lexBetween, IsBlank, units] using refused

/-- The quote after a value, the comma, and the next key: the value's string was open,
    and nothing else is read than what is written. -/
theorem lex_boundary {mode : Mode} {word rest : List Char} {here : Mode × List Token}
    (letters : ∀ c ∈ word, IsWordChar c) (nonempty : word ≠ []) (name : ¬ IsLiteral word)
    (ran : run lexStep (mode, tokens) ('"' :: ',' :: '"' :: (word ++ '"' :: rest)) = some here) :
    ∃ value, mode = .text value ∧
      run lexStep (.between, tokens ++ [Token.text value, .comma, .text (units word)]) rest = some here := by
  cases mode with
  | text value =>
    refine ⟨value, rfl, ?_⟩
    have opened : run lexStep (.text [], tokens ++ [Token.text value] ++ [Token.comma]) (word ++ '"' :: rest) = some here := ran
    rw [lex_text (plain_of_letters letters)] at opened
    simpa using opened
  | between =>
    rw [lex_outside letters nonempty name] at ran
    cases ran
  | word read =>
    by_cases literal : IsLiteral read
    · have between : run lexStep (.between, tokens ++ [Token.word read]) ('"' :: ',' :: '"' :: (word ++ '"' :: rest)) =
          some here := by
        simpa [run, lexStep, literal, show ¬ IsWordChar '"' by decide] using ran
      rw [lex_outside letters nonempty name] at between
      cases between
    · simp [run, lexStep, literal, show ¬ IsWordChar '"' by decide] at ran
  | escaped read =>
    have between : run lexStep (.between, tokens ++ [Token.text (read ++ [34] ++ charUnits ',')]) (word ++ '"' :: rest) =
        some here := ran
    rw [lex_name_refused letters nonempty name] at between
    cases between
  | unicode read digits => simp [run, lexStep, show hexValue '"' = none by decide] at ran

/-- The quote and the brace at the end. -/
theorem lex_end {mode : Mode} {here : Mode × List Token} (ran : run lexStep (mode, tokens) ['"', '\x7d'] = some here)
    (closed : ∀ units, here.1 ≠ .text units) :
    ∃ value, mode = .text value ∧ here = (.between, tokens ++ [Token.text value, .closeObject]) := by
  cases mode with
  | text value =>
    refine ⟨value, rfl, ?_⟩
    have shut : some (Mode.between, tokens ++ [Token.text value] ++ [Token.closeObject]) = some here := ran
    simpa using (Option.some.inj shut).symm
  | between =>
    have inside : some (Mode.text (charUnits '\x7d'), tokens) = some here := ran
    exact absurd (congrArg Prod.fst (Option.some.inj inside)).symm (closed _)
  | word read =>
    by_cases literal : IsLiteral read
    · have inside : some (Mode.text (charUnits '\x7d'), tokens ++ [Token.word read]) = some here := by
        simpa [run, lexStep, literal, lexBetween, IsBlank, show ¬ IsWordChar '"' by decide] using ran
      exact absurd (congrArg Prod.fst (Option.some.inj inside)).symm (closed _)
    · simp [run, lexStep, literal, show ¬ IsWordChar '"' by decide] at ran
  | escaped read =>
    have inside : some (Mode.text (read ++ [34] ++ charUnits '\x7d'), tokens) = some here := ran
    exact absurd (congrArg Prod.fst (Option.some.inj inside)).symm (closed _)
  | unicode read digits => simp [run, lexStep, show hexValue '"' = none by decide] at ran

/-- What the lexer does at the end of a word. -/
theorem lex_word_end {read : List Char} (literal : IsLiteral read) {c : Char} (other : ¬ IsWordChar c)
    (rest : List Char) :
    run lexStep (.word read, tokens) (c :: rest) = run lexStep (.between, tokens ++ [Token.word read]) (c :: rest) := by
  simp [run, lexStep, other, literal]

end

/-! ## Reading an object -/

/-- A string that was read out of a member: its key, or something within its value. -/
def FromPiece (piece : Piece) (text : List Nat) : Prop :=
  text = units piece.key ∨ ∃ key value, piece = .text key value ∧ Within value text

section
variable {tokens : List Token} {here : Mode × List Token} {piece first : Piece} {pieces others : List Piece}

theorem tail_cons (piece : Piece) (pieces : List Piece) :
    tail (piece :: pieces) = ',' :: '"' :: (piece.key ++ '"' :: (piece.rest ++ tail pieces)) := by
  simp [tail, Piece.write]

theorem lex_colon (rest : List Char) :
    run lexStep (.between, tokens) (':' :: rest) = run lexStep (.between, tokens ++ [Token.colon]) rest := rfl

theorem lex_quote (rest : List Char) :
    run lexStep (.between, tokens) ('"' :: rest) = run lexStep (.text [], tokens) rest := rfl

theorem lex_comma (rest : List Char) :
    run lexStep (.between, tokens) (',' :: rest) = run lexStep (.between, tokens ++ [Token.comma]) rest := rfl

theorem lex_brace : run lexStep (.between, tokens) ['\x7d'] = some (.between, tokens ++ [Token.closeObject]) := rfl

theorem lex_value (key value more : List Char) :
    run lexStep (.between, tokens) ((Piece.text key value).rest ++ more) =
      run lexStep (.text [], tokens ++ [Token.colon]) (value ++ '"' :: more) := by
  rw [show (Piece.text key value).rest ++ more = ':' :: '"' :: (value ++ '"' :: more) by simp [Piece.rest],
    lex_colon, lex_quote]

/-- A literal and the character behind it. -/
theorem lex_literal {key read : List Char} (own : (Piece.word key read).WellFormed) {c : Char} (other : ¬ IsWordChar c)
    (more : List Char) :
    run lexStep (.between, tokens) ((Piece.word key read).rest ++ c :: more) =
      run lexStep (.between, tokens ++ [Token.colon] ++ [Token.word read]) (c :: more) := by
  obtain ⟨nonempty, letters, literal⟩ := own.word key read rfl
  rw [Piece.rest, List.cons_append, lex_colon, run_append, lex_between_word letters nonempty, Option.bind_some,
    lex_word_end literal other]

/-- Every string behind a key is a key or lies within one value. -/
theorem rest_texts (wellFormed : ∀ member ∈ piece :: pieces, member.WellFormed)
    (ran : run lexStep (.between, tokens) (piece.rest ++ tail pieces) = some here)
    (closed : ∀ units, here.1 ≠ .text units) :
    ∀ text, .text text ∈ here.2 → .text text ∈ tokens ∨ ∃ member ∈ piece :: pieces, FromPiece member text := by
  induction pieces generalizing piece tokens with
  | nil =>
    obtain ⟨own, -⟩ := List.forall_mem_cons.mp wellFormed
    intro text inside
    cases piece with
    | text key value =>
      rw [lex_value, run_append] at ran
      obtain ⟨⟨mode, read⟩, within, atEnd⟩ := Option.bind_eq_some_iff.mp ran
      obtain ⟨holding, texts⟩ := region_texts within
      obtain ⟨last, rfl, rfl⟩ := lex_end atEnd closed
      have part : Within value text → ∃ member ∈ [Piece.text key value], FromPiece member text :=
        fun within => ⟨_, List.mem_singleton_self _, .inr ⟨key, value, rfl, within⟩⟩
      rcases List.mem_append.mp inside with before | now
      · rcases texts text before with earlier | within
        · exact .inl (by simpa using earlier)
        · exact .inr (part within)
      · have same : text = last := by simpa using now
        exact .inr (part (same ▸ holding_within holding))
    | word key read =>
      rw [tail, lex_literal own (by decide), lex_brace] at ran
      obtain rfl := Option.some.inj ran
      exact .inl (by simpa using inside)
  | cons next later ih =>
    obtain ⟨own, wellFormedLater⟩ := List.forall_mem_cons.mp wellFormed
    obtain ⟨ownNext, -⟩ := List.forall_mem_cons.mp wellFormedLater
    have weaken {text : List Nat} : (∃ member ∈ next :: later, FromPiece member text) →
        ∃ member ∈ piece :: next :: later, FromPiece member text :=
      fun ⟨member, inside, origin⟩ => ⟨member, List.mem_cons_of_mem _ inside, origin⟩
    have nextKey : ∃ member ∈ piece :: next :: later, FromPiece member (units next.key) :=
      ⟨next, by simp, .inl rfl⟩
    rw [tail_cons] at ran
    intro text inside
    cases piece with
    | text key value =>
      rw [lex_value, run_append] at ran
      obtain ⟨⟨mode, read⟩, within, atEnd⟩ := Option.bind_eq_some_iff.mp ran
      obtain ⟨holding, texts⟩ := region_texts within
      obtain ⟨last, rfl, behind⟩ := lex_boundary ownNext.letters ownNext.nonempty ownNext.name atEnd
      have part {text : List Nat} : Within value text → ∃ member ∈ Piece.text key value :: next :: later,
          FromPiece member text := fun within => ⟨_, List.mem_cons_self, .inr ⟨key, value, rfl, within⟩⟩
      rcases ih wellFormedLater behind text inside with before | origin
      · rcases List.mem_append.mp before with before | now
        · rcases texts text before with earlier | within
          · exact .inl (by simpa using earlier)
          · exact .inr (part within)
        · rcases show text = last ∨ text = units next.key by simpa using now with rfl | rfl
          · exact .inr (part (holding_within holding))
          · exact .inr nextKey
      · exact .inr (weaken origin)
    | word key read =>
      rw [lex_literal own (by decide), lex_comma, lex_quote, lex_text (plain_of_letters ownNext.letters)] at ran
      rcases ih wellFormedLater ran text inside with before | origin
      · rcases show .text text ∈ tokens ∨ text = units next.key by simpa using before with earlier | rfl
        · exact .inl earlier
        · exact .inr nextKey
      · exact .inr (weaken origin)

theorem rawObject_run (ownKey : ∀ c ∈ first.key, IsWordChar c) :
    run lexStep (.between, []) (rawObject first others) =
      run lexStep (.between, [.openObject, .text (units first.key)]) (first.rest ++ tail others) := by
  have opened : run lexStep (.between, []) (rawObject first others) =
      run lexStep (.text [], [.openObject]) (first.key ++ '"' :: (first.rest ++ tail others)) := by
    rw [show rawObject first others = '\x7b' :: '"' :: (first.key ++ '"' :: (first.rest ++ tail others)) by
      simp [rawObject, Piece.write]]
    rfl
  rw [opened, lex_text (plain_of_letters ownKey)]
  rfl

theorem rawObject_texts (wellFormed : ∀ member ∈ first :: others, member.WellFormed)
    (lexed : lex (rawObject first others) = some tokens) {text : List Nat} (inside : .text text ∈ tokens) :
    ∃ member ∈ first :: others, FromPiece member text := by
  have ownKey := (wellFormed first List.mem_cons_self).letters
  have finish {here : Mode × List Token} (ran : run lexStep (.between, []) (rawObject first others) = some here)
      (closed : ∀ units, here.1 ≠ .text units) (held : .text text ∈ here.2) :
      ∃ member ∈ first :: others, FromPiece member text := by
    rw [rawObject_run ownKey] at ran
    rcases rest_texts wellFormed ran closed text held with before | origin
    · obtain rfl : text = units first.key := by simpa using before
      exact ⟨first, List.mem_cons_self, .inl rfl⟩
    · exact origin
  unfold lex at lexed
  split at lexed
  · next read ran =>
    cases lexed
    exact finish ran nofun inside
  · next word read ran =>
    split at lexed
    · cases lexed
      refine finish ran nofun ?_
      simpa using inside
    · cases lexed
  · cases lexed

/-! ## Plain values -/

theorem lex_rest (wellFormed : ∀ member ∈ piece :: pieces, member.WellFormed)
    (plain : ∀ member ∈ piece :: pieces, member.PlainValue) :
    run lexStep (.between, tokens) (piece.rest ++ tail pieces) =
      some (.between, tokens ++ piece.restTokens ++ tailTokens pieces) := by
  induction pieces generalizing piece tokens with
  | nil =>
    obtain ⟨own, -⟩ := List.forall_mem_cons.mp wellFormed
    obtain ⟨plainOwn, -⟩ := List.forall_mem_cons.mp plain
    cases piece with
    | text key value =>
      rw [lex_value, lex_text plainOwn, tail, lex_brace]
      simp [Piece.restTokens, tailTokens]
    | word key read =>
      rw [tail, lex_literal own (by decide), lex_brace]
      simp [Piece.restTokens, tailTokens]
  | cons next later ih =>
    obtain ⟨own, wellFormedLater⟩ := List.forall_mem_cons.mp wellFormed
    obtain ⟨plainOwn, plainLater⟩ := List.forall_mem_cons.mp plain
    have keyLetters := (List.forall_mem_cons.mp wellFormedLater).1.letters
    rw [tail_cons]
    cases piece with
    | text key value =>
      rw [lex_value, lex_text plainOwn, lex_comma, lex_quote, lex_text (plain_of_letters keyLetters),
        ih wellFormedLater plainLater]
      simp [Piece.restTokens, tailTokens]
    | word key read =>
      rw [lex_literal own (by decide), lex_comma, lex_quote, lex_text (plain_of_letters keyLetters),
        ih wellFormedLater plainLater]
      simp [Piece.restTokens, tailTokens]

theorem parse_rest (members : List (List Nat × Value)) :
    run parseStep (.colon [] members (units piece.key)) (piece.restTokens ++ tailTokens pieces) =
      some (.finished (.object (members ++ (piece :: pieces).map Piece.member))) := by
  induction pieces generalizing piece members with
  | nil => cases piece <;> rfl
  | cons next later ih =>
    have step : run parseStep (.colon [] members (units piece.key)) (piece.restTokens ++ tailTokens (next :: later)) =
        run parseStep (.colon [] (members ++ [piece.member]) (units next.key)) (next.restTokens ++ tailTokens later) := by
      cases piece <;> rfl
    rw [step, ih]
    simp

/-- An object of plain values is read as it is meant. -/
theorem parse_rawObject (wellFormed : ∀ member ∈ first :: others, member.WellFormed)
    (plain : ∀ member ∈ first :: others, member.PlainValue) :
    parse (rawObject first others) = some (.object ((first :: others).map Piece.member)) := by
  have ownKey := (wellFormed first List.mem_cons_self).letters
  have lexed : lex (rawObject first others) =
      some (.openObject :: .text (units first.key) :: (first.restTokens ++ tailTokens others)) := by
    rw [lex, rawObject_run ownKey, lex_rest wellFormed plain]
    rfl
  have parsed : run parseStep (.value [])
      (.openObject :: .text (units first.key) :: (first.restTokens ++ tailTokens others)) =
        some (.finished (.object ([] ++ (first :: others).map Piece.member))) := parse_rest []
  rw [parse, lexed, Option.bind_some, parseTokens, parsed]
  rfl

/-! ## Values that need an escape -/

/-- A value that needs an escape and is read as it is meant was written, escaped,
    within a longer one. -/
theorem longer_value {value : Value} {text name : List Char}
    (wellFormed : ∀ member ∈ first :: others, member.WellFormed)
    (parsed : parse (rawObject first others) = some value) (found : value.field (units name) = some (.text (units text)))
    (escapes : ¬ Plain text) :
    ∃ other longer, .text other longer ∈ first :: others ∧ ¬ Plain longer ∧
      (units text).length < (units longer).length := by
  obtain ⟨tokens, lexed, read⟩ := Option.bind_eq_some_iff.mp parsed
  obtain ⟨member, inside, fromKey | ⟨other, longer, rfl, within⟩⟩ := rawObject_texts wellFormed lexed (object_texts read found)
  · exact absurd (plain_of_units fromKey (plain_of_letters (wellFormed member inside).letters)) escapes
  · rcases within with ⟨raw, -, plain, same⟩ | ⟨shorter, backslash⟩
    · exact absurd (plain_of_units same plain) escapes
    · refine ⟨other, longer, inside, fun plain => ?_, shorter⟩
      exact (plain '\\' backslash).2.1 rfl

def valueLength : Piece → Nat
  | .text _ text => (units text).length
  | .word .. => 0

/-- When every value that needs an escape is read as it is meant, none needs one. -/
theorem plain_of_parsed {value : Value} (wellFormed : ∀ member ∈ first :: others, member.WellFormed)
    (parsed : parse (rawObject first others) = some value)
    (meant : ∀ key text, .text key text ∈ first :: others →
      Plain text ∨ value.field (units key) = some (.text (units text))) :
    ∀ member ∈ first :: others, member.PlainValue := by
  intro member inside
  cases member with
  | word key read => trivial
  | text key text =>
    by_contra escapes
    have unbounded : ∀ k, ∃ key text, .text key text ∈ first :: others ∧ ¬ Plain text ∧ k ≤ (units text).length := by
      intro k
      induction k with
      | zero => exact ⟨key, text, inside, escapes, Nat.zero_le _⟩
      | succ k ih =>
        obtain ⟨key, text, there, escapes, long⟩ := ih
        have found := (meant key text there).resolve_left escapes
        obtain ⟨other, longer, elsewhere, needs, more⟩ := longer_value wellFormed parsed found escapes
        exact ⟨other, longer, elsewhere, needs, by omega⟩
    obtain ⟨bound, bounded⟩ : ∃ bound, ∀ key text, .text key text ∈ first :: others → (units text).length ≤ bound :=
      ⟨_, fun key text there => List.le_sum_of_mem (List.mem_map_of_mem (f := valueLength) there)⟩
    obtain ⟨key, text, there, -, long⟩ := unbounded (bound + 1)
    have := bounded key text there
    omega

end

end EllaFi.RawObject
