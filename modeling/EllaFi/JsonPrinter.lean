import EllaFi.JsonDoc
import EllaFi.JsonWriter

/-!
Documents as they are printed. A value whose texts have only characters that the printer
has an escape for, or that need none, is printed as a text that is read as the value, in
any place (`print_written`) and alone (`parse_print`), and has no control character
(`print_printable`).
-/
namespace EllaFi.JsonPrinter
open EllaFi.Json EllaFi.JsonDoc EllaFi.JsonWriter
open EllaFi.JsonText (Printable word_toString)
open EllaFi.RawObject (lex_quote lex_comma wordChar_plain)
open EllaFi.Runs (run run_append)
open EllaFi.TextLines (Text)

/-- The character needs no escape, or the printer has one for it. -/
def Prints (c : Char) : Prop := 32 ≤ c.toNat ∨ c.toNat ∈ [0, 8, 9, 10, 12, 13]

instance (c : Char) : Decidable (Prints c) := inferInstanceAs (Decidable (_ ∨ _))

/-- The values that are printed as themselves. -/
inductive Exact : JsonDoc.Value Empty → Prop
  | null : Exact .null
  | bool b : Exact (.bool b)
  | int z : Exact (.int z)
  | text {s} (prints : ∀ c ∈ s, Prints c) : Exact (.text s)
  | array {items} (each : ∀ item ∈ items, Exact item) : Exact (.array items)
  | object {members} (plain : ∀ member ∈ members, Plain member.1) (each : ∀ member ∈ members, Exact member.2) :
      Exact (.object members)

mutual

/-- The value that a printed document is read as. -/
def meaning : JsonDoc.Value Empty → Json.Value
  | .null => .word "null".toList
  | .bool b => .word (toString b).toList
  | .int z => .word (toString z).toList
  | .text s => .text (units s)
  | .array items => .array (meanings items)
  | .object members => .object (memberMeanings members)

def meanings : List (JsonDoc.Value Empty) → List Json.Value
  | [] => []
  | item :: rest => meaning item :: meanings rest

def memberMeanings : List (Text × JsonDoc.Value Empty) → List (List Nat × Json.Value)
  | [] => []
  | (key, value) :: rest => (units key, meaning value) :: memberMeanings rest

end

theorem meanings_eq (items : List (JsonDoc.Value Empty)) : meanings items = items.map meaning := by
  induction items with
  | nil => rfl
  | cons item rest ih => rw [meanings, ih, List.map_cons]

theorem memberMeanings_eq (members : List (Text × JsonDoc.Value Empty)) :
    memberMeanings members = members.map fun member => (units member.1, meaning member.2) := by
  induction members with
  | nil => rfl
  | cons member rest ih => rw [memberMeanings, ih, List.map_cons]

/-! ## Characters -/

section
variable {c : Char} {read : List Nat} {tokens : List Token}

/-- A character without an escape is no control character. -/
theorem Prints.unescaped (prints : Prints c) (newline : c ≠ '\n') (return_ : c ≠ '\r') (tab : c ≠ '\t')
    (back : c.toNat ≠ 8) (form : c.toNat ≠ 12) (zero : c.toNat ≠ 0) : 32 ≤ c.toNat := by
  have ten : c.toNat ≠ 10 := fun own => newline (Char.toNat_inj.mp own)
  have thirteen : c.toNat ≠ 13 := fun own => return_ (Char.toNat_inj.mp own)
  have nine : c.toNat ≠ 9 := fun own => tab (Char.toNat_inj.mp own)
  rcases prints with printable | escaped
  · exact printable
  · simp only [List.mem_cons, List.not_mem_nil, or_false] at escaped
    omega

theorem charUnits_below (below : c.toNat < 0x10000) : charUnits c = [c.toNat] := if_pos below

/-- What stands for a character is read as it. -/
theorem lex_printChar (prints : Prints c) (rest : List Char) :
    run lexStep (.text read, tokens) (printChar c ++ rest) = run lexStep (.text (read ++ charUnits c), tokens) rest := by
  unfold printChar
  split
  · next slashed =>
    rcases slashed with rfl | rfl <;> rfl
  · next other =>
    obtain ⟨quote, backslash⟩ := not_or.mp other
    have short (n : Nat) (small : n < 0x10000) (own : c.toNat = n) : charUnits c = [n] := by
      rw [charUnits_below (own ▸ small), own]
    split_ifs with newline return_ tab back form zero
    · rw [newline]; rfl
    · rw [return_]; rfl
    · rw [tab]; rfl
    · rw [short 8 (by decide) back]; rfl
    · rw [short 12 (by decide) form]; rfl
    · rw [short 0 (by decide) zero]; rfl
    · have printable := prints.unescaped newline return_ tab back form zero
      simp [run, lexStep, quote, backslash, printable]

theorem lex_printed {s : Text} (prints : ∀ c ∈ s, Prints c) (rest : List Char) :
    run lexStep (.text read, tokens) (s.flatMap printChar ++ rest) = run lexStep (.text (read ++ units s), tokens) rest := by
  induction s generalizing read with
  | nil => simp [units]
  | cons c s ih =>
    obtain ⟨own, later⟩ := List.forall_mem_cons.mp prints
    rw [List.flatMap_cons, List.append_assoc, lex_printChar own, ih later]
    simp [units]

theorem printChar_plain (plain : PlainChar c) : printChar c = [c] := by
  obtain ⟨quote, backslash, printable⟩ := plain
  have control {d : Char} (low : d.toNat < 32) : c ≠ d := by
    rintro rfl
    omega
  rw [printChar, if_neg (not_or.mpr ⟨quote, backslash⟩), if_neg (control (by decide)), if_neg (control (by decide)),
    if_neg (control (by decide)), if_neg (by omega), if_neg (by omega), if_neg (by omega)]

theorem printText_plain {s : Text} (plain : Plain s) : printText s = '"' :: s ++ ['"'] := by
  rw [printText, List.flatMap_congr fun c inside => printChar_plain (plain c inside), List.flatMap_singleton']

end

/-! ## Arrays -/

def laterItemsText (items : List Written) : List Char := items.flatMap fun item => ',' :: item.text

def laterItemsTokens (items : List Written) : List Token := items.flatMap fun item => .comma :: item.tokens

theorem lex_laterItems (items : List Written) (item : Written) (before : List Token) {c : Char} (other : ¬ IsWordChar c)
    (rest : List Char) :
    run lexStep (.between, before) (item.text ++ (laterItemsText items ++ c :: rest)) =
      run lexStep (.between, before ++ item.tokens ++ laterItemsTokens items) (c :: rest) := by
  induction items generalizing item before with
  | nil => simpa [laterItemsText, laterItemsTokens] using item.lexes before c rest other
  | cons next items ih =>
    have split : item.text ++ (laterItemsText (next :: items) ++ c :: rest) =
        item.text ++ ',' :: (next.text ++ (laterItemsText items ++ c :: rest)) := by simp [laterItemsText]
    rw [split, item.lexes _ _ _ (by decide), lex_comma, ih]
    simp [laterItemsTokens]

theorem parse_laterItems (items : List Written) (stack : List Frame) (elements : List Json.Value) (more : List Token) :
    run parseStep (.afterElement stack elements) (laterItemsTokens items ++ more) =
      run parseStep (.afterElement stack (elements ++ items.map Written.value)) more := by
  induction items generalizing elements with
  | nil => simp [laterItemsTokens]
  | cons item items ih =>
    have split : laterItemsTokens (item :: items) ++ more = .comma :: (item.tokens ++ (laterItemsTokens items ++ more)) := by
      simp [laterItemsTokens]
    have comma : run parseStep (.afterElement stack elements) (.comma :: (item.tokens ++ (laterItemsTokens items ++ more))) =
        run parseStep (.value (.array elements :: stack)) (item.tokens ++ (laterItemsTokens items ++ more)) := rfl
    rw [split, comma, item.parses]
    show run parseStep (.afterElement stack (elements ++ [item.value])) _ = _
    rw [ih]
    simp

/-- An array begins with its first element. -/
theorem parse_first (item : Written) (stack : List Frame) (more : List Token) :
    run parseStep (.value stack) (.openArray :: (item.tokens ++ more)) =
      run parseStep (.afterElement stack [item.value]) more := by
  obtain ⟨first, later, split, opens⟩ := item.opens
  have inside : run parseStep (.value stack) (.openArray :: (item.tokens ++ more)) =
      run parseStep (.value (.array [] :: stack)) (item.tokens ++ more) := by
    rw [split]
    cases first with
    | closeArray => exact absurd rfl opens
    | _ => rfl
  rw [inside, item.parses]
  rfl

def arrayText (first : Written) (later : List Written) : List Char := '[' :: first.text ++ laterItemsText later ++ [']']

def arrayTokens (first : Written) (later : List Written) : List Token :=
  .openArray :: first.tokens ++ laterItemsTokens later ++ [Token.closeArray]

theorem lex_array (first : Written) (later : List Written) (before : List Token) (rest : List Char) :
    run lexStep (.between, before) (arrayText first later ++ rest) =
      run lexStep (.between, before ++ arrayTokens first later) rest := by
  have split : arrayText first later ++ rest = '[' :: (first.text ++ (laterItemsText later ++ ']' :: rest)) := by
    simp [arrayText]
  have opening (more : List Char) : run lexStep (.between, before) ('[' :: more) =
      run lexStep (.between, before ++ [Token.openArray]) more := rfl
  have closing (tokens : List Token) : run lexStep (.between, tokens) (']' :: rest) =
      run lexStep (.between, tokens ++ [Token.closeArray]) rest := rfl
  rw [split, opening, lex_laterItems _ _ _ (by decide), closing]
  simp [arrayTokens]

theorem parse_arrayTokens (first : Written) (later : List Written) (stack : List Frame) (more : List Token) :
    run parseStep (.value stack) (arrayTokens first later ++ more) =
      run parseStep (completed stack (.array (first.value :: later.map Written.value))) more := by
  have order : arrayTokens first later ++ more =
      .openArray :: (first.tokens ++ (laterItemsTokens later ++ .closeArray :: more)) := by simp [arrayTokens]
  rw [order, parse_first, parse_laterItems]
  rfl

def array (first : Written) (later : List Written) : Written where
  text := arrayText first later
  tokens := arrayTokens first later
  value := .array (first.value :: later.map Written.value)
  lexes before c rest _ := lex_array first later before (c :: rest)
  opens := ⟨_, _, rfl, nofun⟩
  parses := parse_arrayTokens first later

/-! ## Documents -/

/-- A text that is printed. -/
def string (s : Text) (prints : ∀ c ∈ s, Prints c) : Written where
  text := printText s
  tokens := [.text (units s)]
  value := .text (units s)
  lexes before c rest _ := by
    have split : printText s ++ c :: rest = '"' :: (s.flatMap printChar ++ '"' :: c :: rest) := by simp [printText]
    rw [split, lex_quote, lex_printed prints]
    rfl
  opens := ⟨_, _, rfl, nofun⟩
  parses _ _ := rfl

def emptyObject : Written where
  text := ['\x7b', '\x7d']
  tokens := [.openObject, .closeObject]
  value := .object []
  lexes before c rest _ := by
    have both : run lexStep (.between, before) (['\x7b', '\x7d'] ++ c :: rest) =
        run lexStep (.between, before ++ [Token.openObject] ++ [Token.closeObject]) (c :: rest) := rfl
    rw [both, List.append_assoc]
    rfl
  opens := ⟨_, _, rfl, nofun⟩
  parses _ _ := rfl

/-- The value is printed as a text that is read as it. -/
def Faithful (v : JsonDoc.Value Empty) : Prop := ∃ w : Written, w.text = print v ∧ w.value = meaning v

theorem print_items (item : JsonDoc.Value Empty) (rest : List (JsonDoc.Value Empty)) :
    printItems (item :: rest) = print item ++ (rest.map print).flatMap (',' :: ·) := by
  induction rest generalizing item with
  | nil => simp [printItems]
  | cons next rest ih =>
    rw [printItems, ih]
    · simp
    · nofun

def printMember (member : Text × JsonDoc.Value Empty) : Text := printText member.1 ++ ':' :: print member.2

theorem print_members (member : Text × JsonDoc.Value Empty) (rest : List (Text × JsonDoc.Value Empty)) :
    printMembers (member :: rest) = printMember member ++ (rest.map printMember).flatMap (',' :: ·) := by
  induction rest generalizing member with
  | nil => simp [printMembers, printMember]
  | cons next rest ih =>
    rw [printMembers, ih]
    · simp [printMember]
    · nofun

theorem items_written {items : List (JsonDoc.Value Empty)} (each : ∀ item ∈ items, Faithful item) :
    ∃ written : List Written, written.map Written.text = items.map print ∧ written.map Written.value = items.map meaning := by
  induction items with
  | nil => exact ⟨[], rfl, rfl⟩
  | cons item rest ih =>
    obtain ⟨⟨w, text, value⟩, later⟩ := List.forall_mem_cons.mp each
    obtain ⟨ws, texts, values⟩ := ih later
    exact ⟨w :: ws, by simp [text, texts], by simp [value, values]⟩

theorem members_written {members : List (Text × JsonDoc.Value Empty)} (plain : ∀ member ∈ members, Plain member.1)
    (each : ∀ member ∈ members, Faithful member.2) :
    ∃ written : List Member, written.map Member.text = members.map printMember ∧
      written.map Member.value = members.map fun member => (units member.1, meaning member.2) := by
  induction members with
  | nil => exact ⟨[], rfl, rfl⟩
  | cons member rest ih =>
    obtain ⟨own, plainLater⟩ := List.forall_mem_cons.mp plain
    obtain ⟨⟨w, text, value⟩, later⟩ := List.forall_mem_cons.mp each
    obtain ⟨ms, texts, values⟩ := ih plainLater later
    refine ⟨{ key := member.1, plain := own, written := w } :: ms, ?_, ?_⟩
    · simp [texts, Member.text, printMember, printText_plain own, text]
    · simp [values, Member.value, value]

theorem faithful_array {items : List (JsonDoc.Value Empty)} (each : ∀ item ∈ items, Faithful item) :
    Faithful (.array items) := by
  cases items with
  | nil => exact ⟨.emptyArray, rfl, rfl⟩
  | cons item rest =>
    obtain ⟨⟨w, text, value⟩, later⟩ := List.forall_mem_cons.mp each
    obtain ⟨ws, texts, values⟩ := items_written later
    refine ⟨array w ws, ?_, ?_⟩
    · have commas : laterItemsText ws = (rest.map print).flatMap (',' :: ·) := by
        rw [laterItemsText, ← texts, List.flatMap_map]
      rw [print, print_items, ← text, ← commas]
      simp [array, arrayText]
    · rw [meaning, meanings_eq, List.map_cons, ← value, ← values]
      rfl

theorem faithful_object {members : List (Text × JsonDoc.Value Empty)} (plain : ∀ member ∈ members, Plain member.1)
    (each : ∀ member ∈ members, Faithful member.2) : Faithful (.object members) := by
  cases members with
  | nil => exact ⟨emptyObject, rfl, rfl⟩
  | cons member rest =>
    obtain ⟨written, texts, values⟩ := members_written plain each
    cases written with
    | nil => cases texts
    | cons m ms =>
      obtain ⟨text, texts⟩ := List.cons.inj texts
      refine ⟨.object m ms, ?_, ?_⟩
      · have commas : laterText ms = (rest.map printMember).flatMap (',' :: ·) := by
          rw [laterText, ← texts, List.flatMap_map]
        rw [print, print_members, ← text, ← commas]
        simp [Written.object]
      · rw [meaning, memberMeanings_eq, ← values]
        rfl

/-- What is printed is read as the value. -/
theorem print_written {v : JsonDoc.Value Empty} (exact_ : Exact v) : Faithful v := by
  induction exact_ with
  | null => exact ⟨.word "null".toList (by simp) (by simp [IsWordChar]) (by simp [IsLiteral]), rfl, rfl⟩
  | bool b =>
    cases b with
    | false => exact ⟨.word "false".toList (by simp) (by simp [IsWordChar]) (by simp [IsLiteral]), rfl, rfl⟩
    | true => exact ⟨.word "true".toList (by simp) (by simp [IsWordChar]) (by simp [IsLiteral]), rfl, rfl⟩
  | int z => exact ⟨.number z, rfl, rfl⟩
  | text prints => exact ⟨string _ prints, rfl, rfl⟩
  | array each ih => exact faithful_array ih
  | object plain each ih => exact faithful_object plain ih

/-! ## Whole texts -/

/-- A text is read alone as it is before a blank. -/
theorem lex_alone {text : List Char} {tokens : List Token}
    (ran : run lexStep (.between, []) (text ++ [' ']) = some (.between, tokens)) : lex text = some tokens := by
  rw [run_append] at ran
  obtain ⟨⟨mode, before⟩, inside, last⟩ := Option.bind_eq_some_iff.mp ran
  rw [lex, inside]
  cases mode with
  | between =>
    have same : some (Mode.between, before) = some (Mode.between, tokens) := last
    rw [(Prod.mk.inj (Option.some.inj same)).2]
  | word read =>
    have word : ¬ IsWordChar ' ' := by decide
    simp only [run, lexStep, if_neg word] at last
    split at last
    · next literal =>
      have same : some (Mode.between, before ++ [Token.word read]) = some (Mode.between, tokens) := last
      rw [← (Prod.mk.inj (Option.some.inj same)).2]
      exact if_pos literal
    · cases last
  | text read => cases last
  | escaped read => cases last
  | unicode read digits => cases last

theorem parse_written (w : Written) : parse w.text = some w.value := by
  have lexed : lex w.text = some w.tokens := lex_alone (w.lexes [] ' ' [] (by decide))
  have parsed := w.parses [] []
  rw [List.append_nil] at parsed
  rw [parse, lexed, Option.bind_some, parseTokens, parsed]
  rfl

theorem parse_print {v : JsonDoc.Value Empty} (exact_ : Exact v) : parse (print v) = some (meaning v) := by
  obtain ⟨w, text, value⟩ := print_written exact_
  rw [← text, ← value]
  exact parse_written w

/-! ## Printed characters -/

theorem printChar_printable {c : Char} (prints : Prints c) : Printable (printChar c) := by
  unfold printChar
  split
  · next slashed =>
    rcases slashed with rfl | rfl <;> decide
  · split_ifs with newline return_ tab back form zero
    iterate 6 decide
    exact List.forall_mem_singleton.mpr (prints.unescaped newline return_ tab back form zero)

theorem printText_printable {s : Text} (prints : ∀ c ∈ s, Prints c) : Printable (printText s) := by
  intro c inside
  simp only [printText, List.cons_append, List.mem_cons, List.mem_append, List.mem_flatMap, List.not_mem_nil,
    or_false] at inside
  rcases inside with rfl | ⟨d, there, own⟩ | rfl
  · decide
  · exact printChar_printable (prints d there) c own
  · decide

theorem printable_between {first last : Char} {text : List Char} (opens : 32 ≤ first.toNat) (closes : 32 ≤ last.toNat)
    (inside : Printable text) : Printable (first :: text ++ [last]) :=
  List.forall_mem_append.mpr ⟨List.forall_mem_cons.mpr ⟨opens, inside⟩, List.forall_mem_singleton.mpr closes⟩

theorem commas_printable {texts : List Text} (each : ∀ text ∈ texts, Printable text) : Printable (texts.flatMap (',' :: ·)) := by
  intro c inside
  obtain ⟨text, there, own⟩ := List.mem_flatMap.mp inside
  rcases List.mem_cons.mp own with rfl | within
  · decide
  · exact each text there c within

/-- No control character is printed. -/
theorem print_printable {v : JsonDoc.Value Empty} (exact_ : Exact v) : Printable (print v) := by
  induction exact_ with
  | null => decide
  | bool b => cases b <;> decide
  | int z => exact fun c inside => (wordChar_plain ((word_toString z).2.1 c inside)).2.2
  | text prints => exact printText_printable prints
  | @array items each ih =>
    refine printable_between (by decide) (by decide) ?_
    cases items with
    | nil => exact List.forall_mem_nil _
    | cons item rest =>
      obtain ⟨own, later⟩ := List.forall_mem_cons.mp ih
      rw [print_items]
      exact List.forall_mem_append.mpr ⟨own, commas_printable (List.forall_mem_map.mpr later)⟩
  | @object members plain each ih =>
    have member : ∀ m ∈ members, Printable (printMember m) := by
      intro m inside
      have key : Printable (printText m.1) := printText_printable fun c own => .inl (plain m inside c own).2.2
      exact List.forall_mem_append.mpr ⟨key, List.forall_mem_cons.mpr ⟨by decide, ih m inside⟩⟩
    refine printable_between (by decide) (by decide) ?_
    cases members with
    | nil => exact List.forall_mem_nil _
    | cons m rest =>
      obtain ⟨own, later⟩ := List.forall_mem_cons.mp member
      rw [print_members]
      exact List.forall_mem_append.mpr ⟨own, commas_printable (List.forall_mem_map.mpr later)⟩

end EllaFi.JsonPrinter
