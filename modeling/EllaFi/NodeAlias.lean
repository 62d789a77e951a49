import EllaFi.JsonText

/-!
A node's nickname and commission, kept as one name on the controller. The name is put
into the request between quotes, with quotes and backslashes escaped, and taken apart
again at its first bar. What was saved is read back exactly when the nickname has neither
a bar nor a control character (`alias_round_trip_iff`).
-/
namespace EllaFi.NodeAlias
open EllaFi.TextLines (Text digits digits_eq isDigit_toDigits isSpace toList_toString)
open EllaFi.Json EllaFi.RawObject EllaFi.JsonText
open EllaFi.Runs (run run_append)

/-! ## Saving -/

/-- The key that a node has, whatever its address is written with. -/
def macColonUpper (m : Text) : Text := (m.map fun c => if c = '-' then ':' else c).map Char.toUpper

def aliasOf (nickname : Text) (commission : Int) : Text := nickname ++ '|' :: (toString commission).toList

def patchBody (name : Text) : Text :=
  "\x7b\"name\":\"".toList ++ escapeQuotes (escapeBackslashes name) ++ "\"\x7d".toList

/-- The name that a body has, if it is read. -/
def namedIn (body : Text) : Option Text := (((parse body).bind (·.field (units "name".toList))).bind (·.textOf)).map decode

structure Node where
  mac : Text
  nickname : Text
  commission : Int

structure Names where
  /-- What the controller calls its clients, by their keys. -/
  clients : Text → Option Text
  /-- What is held in RAM. -/
  nodeAlias : Text → Option Text

/-- The controller changes the name of a client it knows, if it can read the request. -/
def setClientName (clients : Text → Option Text) (mac name : Text) : Text → Option Text :=
  Function.update clients (macColonUpper mac)
    ((clients (macColonUpper mac)).map fun old => (namedIn (patchBody name)).getD old)

def saveNode (names : Names) (n : Node) : Names :=
  if n.mac = [] then names
  else
    { clients := setClientName names.clients n.mac (aliasOf n.nickname n.commission)
      nodeAlias := Function.update names.nodeAlias (macColonUpper n.mac) (some (aliasOf n.nickname n.commission)) }

def handleAdminSellers (nodes : List Node) (names : Names) : Names := nodes.foldl saveNode names

/-! ## Reading -/

/-- `toInt()`, of a number that fits. -/
def toInt (text : Text) : Int :=
  match text.dropWhile isSpace with
  | '-' :: rest => -(digits 0 rest)
  | '+' :: rest => digits 0 rest
  | rest => digits 0 rest

def syncNode (clients nodeAlias : Text → Option Text) (mac : Text) : Text → Option Text :=
  match clients (macColonUpper mac) with
  | some name => if '|' ∈ name then Function.update nodeAlias (macColonUpper mac) (some name) else nodeAlias
  | none => nodeAlias

/-- Nothing is changed by a slave, within a minute of the last time, or without an
    answer. -/
def syncNodeAliases (answered : Bool) (macs : List Text) (names : Names) : Names :=
  if answered then { names with nodeAlias := macs.foldl (syncNode names.clients) names.nodeAlias } else names

/-- Without a bar, both are read from the whole. -/
def shown (name : Text) : Text × Int :=
  if '|' ∈ name then (name.takeWhile (· ≠ '|'), toInt ((name.dropWhile (· ≠ '|')).drop 1)) else (name, toInt name)

/-- The nickname and commission that are listed for a key. -/
def handleAdminNodes (names : Names) (key : Text) : Option (Text × Int) := (names.nodeAlias key).map shown

/-- After a node was saved, and others before it and after it, what is listed for it is
    what was saved, with or without a sync. -/
def RoundTrip (nickname : Text) (commission : Int) : Prop :=
  ∀ (names : Names) (before later : List Node) (mac : Text) (answered : Bool) (macs : List Text), mac ≠ [] →
    (∀ n ∈ later, macColonUpper n.mac ≠ macColonUpper mac) →
    handleAdminNodes
        (syncNodeAliases answered macs (handleAdminSellers (before ++ { mac, nickname, commission } :: later) names))
        (macColonUpper mac) = some (nickname, commission)

/-! ## The request -/

section
variable {name nickname : Text} {commission : Int}

def namePiece (name : Text) : Piece := .text "name".toList (escapeQuotes (escapeBackslashes name))

theorem name_chars : "name".toList = ['n', 'a', 'm', 'e'] := String.toList_ofList

theorem patchBody_eq (name : Text) : patchBody name = rawObject (namePiece name) [] := by
  have opening : "\x7b\"name\":\"".toList = ['\x7b', '"', 'n', 'a', 'm', 'e', '"', ':', '"'] := String.toList_ofList
  have closing : "\"\x7d".toList = ['"', '\x7d'] := String.toList_ofList
  unfold patchBody namePiece
  rw [opening, closing, name_chars]
  simp [rawObject, tail, Piece.write, Piece.rest, Piece.key]

theorem lex_patchBody (name : Text) :
    run lexStep (.between, []) (patchBody name) =
      run lexStep (.text [], [.openObject, .text (units "name".toList)] ++ [.colon])
        (escapeQuotes (escapeBackslashes name) ++ '"' :: tail []) := by
  have letters : ∀ c ∈ (namePiece name).key, IsWordChar c := by
    have all : ['n', 'a', 'm', 'e'].all (IsWordChar ·) = true := by decide
    rw [show (namePiece name).key = ['n', 'a', 'm', 'e'] from name_chars]
    exact fun c inside => of_decide_eq_true (List.all_eq_true.mp all c inside)
  rw [patchBody_eq, rawObject_run letters, namePiece, lex_value]
  rfl

theorem namedIn_patchBody (printable : Printable name) : namedIn (patchBody name) = some name := by
  have lexed : lex (patchBody name) =
      some [.openObject, .text (units "name".toList), .colon, .text (units name), .closeObject] := by
    rw [lex, lex_patchBody, run_append, lex_escaped printable]
    rfl
  have parsed : parse (patchBody name) = some (.object [(units "name".toList, .text (units name))]) := by
    rw [parse, lexed]
    rfl
  have found : (Value.object [(units "name".toList, .text (units name))]).field (units "name".toList) =
      some (.text (units name)) := by
    refine field_of_nodup ?_ (List.mem_singleton.mpr rfl)
    exact List.nodup_singleton _
  rw [namedIn, parsed, Option.bind_some, found]
  exact congrArg some (decode_units name)

/-- A name with a control character is not stored. -/
theorem namedIn_control (control : ¬ Printable name) : namedIn (patchBody name) = none := by
  have lexed : lex (patchBody name) = none := by
    rw [lex, lex_patchBody, run_append, lex_control control]
    rfl
  rw [namedIn, parse, lexed]
  rfl

theorem printable_alias : Printable (aliasOf nickname commission) ↔ Printable nickname := by
  have number : Printable ('|' :: (toString commission).toList) := by
    refine List.forall_mem_cons.mpr ⟨by decide, fun c inside => ?_⟩
    exact (wordChar_plain ((word_toString commission).2.1 c inside)).2.2
  exact List.forall_mem_append.trans (and_iff_left number)

/-! ## Taking a name apart -/

theorem toInt_toString (z : Int) : toInt (toString z).toList = z := by
  have number (n : Nat) : digits 0 (Nat.toDigits 10 n) = n := by
    rw [digits_eq isDigit_toDigits, Nat.ofDigitChars_ten_toDigits]
  rw [toList_toString]
  split
  · obtain ⟨c, rest, split⟩ := List.exists_cons_of_ne_nil (@Nat.toDigits_ne_nil z.toNat 10)
    have digit := isDigit_toDigits c (split ▸ List.mem_cons_self)
    have space : isSpace c = false := by
      by_contra space
      have zero : '0'.val.toNat = 48 := rfl
      simp only [isSpace, Bool.not_eq_false, Bool.or_eq_true, Bool.and_eq_true, decide_eq_true_eq] at space
      simp only [Char.isDigit, Bool.and_eq_true, decide_eq_true_eq, ge_iff_le, UInt32.le_iff_toNat_le] at digit
      rcases space with rfl | ⟨-, low⟩
      · exact absurd digit (by decide)
      · simp only [Char.toNat] at low
        omega
    have value := number z.toNat
    rw [split] at value
    unfold toInt
    rw [split, List.dropWhile_cons, space, if_neg Bool.false_ne_true]
    split
    · next same => exact absurd ((List.cons.inj same).1 ▸ digit) (by decide)
    · next same => exact absurd ((List.cons.inj same).1 ▸ digit) (by decide)
    · rw [value]
      omega
  · have value := number (-z).toNat
    have sign : toInt ('-' :: Nat.toDigits 10 (-z).toNat) = -(digits 0 (Nat.toDigits 10 (-z).toNat)) := rfl
    rw [sign, value]
    omega

/-- The nickname is what stands before the first bar. -/
theorem shown_alias : shown (aliasOf nickname commission) = (nickname, commission) ↔ '|' ∉ nickname := by
  have barred : '|' ∈ aliasOf nickname commission := List.mem_append_right _ List.mem_cons_self
  rw [shown, if_pos barred]
  constructor
  · intro same inside
    rw [← (Prod.mk.inj same).1] at inside
    exact absurd (List.mem_takeWhile_imp inside) (by decide)
  · intro absent
    have before : ∀ c ∈ nickname, decide (c ≠ '|') = true := fun c inside => decide_eq_true fun bar => absent (bar ▸ inside)
    rw [aliasOf, List.takeWhile_append_of_pos before, List.dropWhile_append_of_pos before]
    exact Prod.ext (List.append_nil nickname) (toInt_toString commission)

/-! ## Saving and reading back -/

theorem save_other {key : Text} {later : List Node} (others : ∀ n ∈ later, macColonUpper n.mac ≠ key) (names : Names) :
    (handleAdminSellers later names).clients key = names.clients key ∧
      (handleAdminSellers later names).nodeAlias key = names.nodeAlias key := by
  induction later generalizing names with
  | nil => exact ⟨rfl, rfl⟩
  | cons n rest ih =>
    obtain ⟨own, others⟩ := List.forall_mem_cons.mp others
    have kept : (saveNode names n).clients key = names.clients key ∧ (saveNode names n).nodeAlias key = names.nodeAlias key := by
      unfold saveNode
      split
      · exact ⟨rfl, rfl⟩
      · exact ⟨Function.update_of_ne own.symm _ _, Function.update_of_ne own.symm _ _⟩
    obtain ⟨clients, aliases⟩ := ih others (saveNode names n)
    exact ⟨clients.trans kept.1, aliases.trans kept.2⟩

theorem syncNode_known {clients nodeAlias : Text → Option Text} {mac other : Text}
    (known : clients (macColonUpper mac) = some other) (barred : '|' ∈ other) :
    syncNode clients nodeAlias mac = Function.update nodeAlias (macColonUpper mac) (some other) := by
  rw [syncNode, known]
  exact if_pos barred

/-- A sync keeps the alias of a node that the controller calls so, or does not know. -/
theorem sync_keeps {clients nodeAlias : Text → Option Text} {key : Text} (macs : List Text)
    (agrees : ∀ other, clients key = some other → other = name) (held : nodeAlias key = some name) :
    macs.foldl (syncNode clients) nodeAlias key = some name := by
  induction macs generalizing nodeAlias with
  | nil => exact held
  | cons mac rest ih =>
    refine ih ?_
    cases known : clients (macColonUpper mac) with
    | none =>
      rw [syncNode, known]
      exact held
    | some other =>
      by_cases barred : '|' ∈ other
      · rw [syncNode_known known barred]
        by_cases own : key = macColonUpper mac
        · rw [own, Function.update_self, agrees other (own ▸ known)]
        · rw [Function.update_of_ne own, held]
      · rw [syncNode, known]
        exact (congrFun (if_neg barred) key).trans held

/-- A node of the form, the last of its address. -/
theorem saved_alias {mac : Text} (address : mac ≠ []) {before later : List Node}
    (others : ∀ n ∈ later, macColonUpper n.mac ≠ macColonUpper mac) (names : Names) :
    (handleAdminSellers (before ++ { mac, nickname, commission } :: later) names).nodeAlias (macColonUpper mac) =
        some (aliasOf nickname commission) ∧
      (handleAdminSellers (before ++ { mac, nickname, commission } :: later) names).clients (macColonUpper mac) =
        ((handleAdminSellers before names).clients (macColonUpper mac)).map fun old =>
          (namedIn (patchBody (aliasOf nickname commission))).getD old := by
  have order : handleAdminSellers (before ++ { mac, nickname, commission } :: later) names =
      handleAdminSellers later (saveNode (handleAdminSellers before names) { mac, nickname, commission }) := by
    simp [handleAdminSellers]
  obtain ⟨clients, aliases⟩ := save_other others (saveNode (handleAdminSellers before names) { mac, nickname, commission })
  rw [order, clients, aliases, saveNode, if_neg address]
  exact ⟨Function.update_self _ _ _, Function.update_self _ _ _⟩

/-- Without a sync what was saved is only taken apart. -/
theorem RoundTrip.shown (roundTrip : RoundTrip nickname commission) :
    NodeAlias.shown (aliasOf nickname commission) = (nickname, commission) := by
  have held := roundTrip { clients := fun _ => none, nodeAlias := fun _ => none } [] [] ['A'] false [] (by decide)
    (List.forall_mem_nil _)
  exact Option.some.inj held

theorem alias_round_trip_iff (nickname : Text) (commission : Int) :
    RoundTrip nickname commission ↔ '|' ∉ nickname ∧ Printable nickname := by
  constructor
  · intro roundTrip
    refine ⟨shown_alias.mp roundTrip.shown, ?_⟩
    by_contra control
    -- the controller keeps the old name, and the sync prefers it
    obtain ⟨old, isOld⟩ : ∃ old, old = aliasOf [] (commission + 1) := ⟨_, rfl⟩
    have barred : '|' ∈ old := isOld ▸ List.mem_cons_self
    have refused : namedIn (patchBody (aliasOf nickname commission)) = none :=
      namedIn_control (mt printable_alias.mp control)
    have kept := (@saved_alias nickname commission ['A'] (by decide) [] [] (List.forall_mem_nil _)
      { clients := fun _ => some old, nodeAlias := fun _ => none }).2
    rw [refused] at kept
    have synced := roundTrip { clients := fun _ => some old, nodeAlias := fun _ => none } [] [] ['A'] true [['A']]
      (by decide) (List.forall_mem_nil _)
    rw [handleAdminNodes, syncNodeAliases, if_pos rfl, List.foldl_cons, List.foldl_nil, syncNode_known kept barred] at synced
    have listed : shown old = (nickname, commission) := by simpa using synced
    rw [isOld, shown_alias.mpr List.not_mem_nil] at listed
    have same := (Prod.mk.inj listed).2
    omega
  · rintro ⟨absent, printable⟩ names before later mac answered macs address others
    obtain ⟨held, stored⟩ := @saved_alias nickname commission mac address before later others names
    rw [namedIn_patchBody (printable_alias.mpr printable)] at stored
    have kept : (syncNodeAliases answered macs
        (handleAdminSellers (before ++ { mac, nickname, commission } :: later) names)).nodeAlias (macColonUpper mac) =
          some (aliasOf nickname commission) := by
      unfold syncNodeAliases
      split
      · refine sync_keeps macs ?_ held
        intro other found
        rw [stored] at found
        obtain ⟨old, -, rfl⟩ := Option.map_eq_some_iff.mp found
        rfl
      · exact held
    rw [handleAdminNodes, kept]
    exact congrArg some (shown_alias.mpr absent)

end

/-- A nickname that has a bar is cut off at it. -/
theorem barred_nickname_cut : ¬ RoundTrip ['A', '|', 'B'] 5 := by
  intro roundTrip
  exact shown_alias.mp roundTrip.shown (by decide)

end EllaFi.NodeAlias
