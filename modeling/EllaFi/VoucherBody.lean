import EllaFi.Attribution
import EllaFi.JsonWriter

/-!
The request for a new voucher group. Its name ends with the seller, and is put between
quotes with only its own quotes escaped. The body has the name and the description that
are meant, and the seller and the price are read back from them, exactly when the seller
has neither a backslash nor a control character (`voucher_group_iff`).
-/
namespace EllaFi.VoucherBody
open EllaFi.TextLines (Text)
open EllaFi.Json EllaFi.RawObject EllaFi.JsonText EllaFi.JsonWriter
open EllaFi.Attribution

/-! ## The request -/

/-- A form that is not refused. -/
structure Order where
  pages : Int
  durationMin : Int
  price : Int
  seller : Text
  pages_pos : 1 ≤ pages
  duration_pos : 1 ≤ durationMin
  price_pos : 1 ≤ price
  price_fits : price < 2147483648
  named : seller ≠ []

/-- The low 24 bits of the time, in hexadecimal digits. -/
def tagOf (now : Nat) : Text := Nat.toDigits 16 (now % 0x1000000)

namespace Order
variable (order : Order)

/-- A product of more than 32 bits wraps around. -/
def qty : Int := Int.bmod (order.pages * 130) 0x100000000

def priceTag (now : Nat) : Text :=
  (toString order.price).toList ++ 'P' :: (toString (order.durationMin / 60)).toList ++ 'H' :: '-' :: tagOf now

def name (now : Nat) : Text := "AUTOGEN: ".toList ++ order.priceTag now ++ ' ' :: order.seller

def description : Text := "\x7b\"price\":".toList ++ (toString order.price).toList ++ "\x7d".toList

end Order

def voucherBody (name : Text) (durationMin totalCount : Int) (description : Text) : Text :=
  "\x7b\"codeLength\":8,\"codeForm\":[0],\"amount\":".toList ++ (toString totalCount).toList ++
  ",\"name\":\"".toList ++ escapeQuotes name ++ "\",\"type\":0,\"logout\":true".toList ++
  ",\"downLimitUnit\":0,\"upLimitUnit\":0,\"trafficLimitEnable\":false,\"trafficLimit\":null,\"trafficLimitUnit\":0".toList ++
  ",\"voucherValidityEnable\":false,\"upTimeLimitEnable\":true".toList ++
  ",\"durationType\":1,\"duration\":".toList ++ (toString durationMin).toList ++
  ",\"description\":\"".toList ++ escapeQuotes description ++ "\"".toList ++
  ",\"maxUsers\":1,\"trafficLimitFrequency\":1,\"portalIds\":[],\"applyToAllPortals\":true".toList ++
  ",\"validityType\":0,\"startTime\":\"00:00\",\"endTime\":\"23:59\",\"scheduleTime\":0".toList ++
  ",\"weeklyEnableDays\":\x7b\"1\":true,\"2\":true,\"3\":true,\"4\":true,\"5\":true,\"6\":true,\"7\":true\x7d".toList ++
  ",\"pattern\":\x7b\"patternType\":0,\"position\":0,\"ssidNetworkEnable\":false,\"durationEnable\":false".toList ++
  ",\"limitEnable\":false,\"logoPictureId\":null,\"logoSize\":62\x7d\x7d".toList

def groupBody (now : Nat) (order : Order) : Text :=
  voucherBody (order.name now) order.durationMin order.qty order.description

/-! ## The body as an object -/

/-- A key without escapes, and a literal. -/
def Flag (key word : String) : Prop :=
  Plain key.toList ∧ word.toList ≠ [] ∧ word.toList.all (IsWordChar ·) = true ∧ IsLiteral word.toList

instance (key word : String) : Decidable (Flag key word) := inferInstanceAs (Decidable (_ ∧ _ ∧ _ ∧ _))

def flag (key word : String) (own : Flag key word) : Member where
  key := key.toList
  plain := own.1
  written := .word word.toList own.2.1 (fun c inside => of_decide_eq_true (List.all_eq_true.mp own.2.2.1 c inside)) own.2.2.2

def text (key value : String) (plain : Plain key.toList) (unslashed : Unslashed value.toList) : Member where
  key := key.toList
  plain := plain
  written := .quoted value.toList unslashed

def codeLength : Member := flag "codeLength" "8" (by decide)

def codeForm : Member where
  key := "codeForm".toList
  plain := by decide
  written := .single (flag "codeForm" "0" (by decide)).written

def amount (totalCount : Int) : Member where
  key := "amount".toList
  plain := by decide
  written := .number totalCount

def kindFlags : List Member := [flag "type" "0" (by decide), flag "logout" "true" (by decide)]

def trafficFlags : List Member :=
  [flag "downLimitUnit" "0" (by decide), flag "upLimitUnit" "0" (by decide), flag "trafficLimitEnable" "false" (by decide),
    flag "trafficLimit" "null" (by decide), flag "trafficLimitUnit" "0" (by decide)]

def validityFlags : List Member := [flag "voucherValidityEnable" "false" (by decide), flag "upTimeLimitEnable" "true" (by decide)]

def durationType : Member := flag "durationType" "1" (by decide)

def duration (durationMin : Int) : Member where
  key := "duration".toList
  plain := by decide
  written := .number durationMin

def descriptionMember (description : Text) (unslashed : Unslashed description) : Member where
  key := "description".toList
  plain := by decide
  written := .quoted description unslashed

def portalIds : Member where
  key := "portalIds".toList
  plain := by decide
  written := .emptyArray

def userMembers : List Member :=
  [flag "maxUsers" "1" (by decide), flag "trafficLimitFrequency" "1" (by decide), portalIds,
    flag "applyToAllPortals" "true" (by decide)]

def timeMembers : List Member :=
  [flag "validityType" "0" (by decide), text "startTime" "00:00" (by decide) (by decide),
    text "endTime" "23:59" (by decide) (by decide), flag "scheduleTime" "0" (by decide)]

def weeklyEnableDays : Member where
  key := "weeklyEnableDays".toList
  plain := by decide
  written := .object (flag "1" "true" (by decide))
    [flag "2" "true" (by decide), flag "3" "true" (by decide), flag "4" "true" (by decide), flag "5" "true" (by decide),
      flag "6" "true" (by decide), flag "7" "true" (by decide)]

def patternType : Member := flag "patternType" "0" (by decide)

def networkFlags : List Member :=
  [flag "position" "0" (by decide), flag "ssidNetworkEnable" "false" (by decide), flag "durationEnable" "false" (by decide)]

def logoFlags : List Member :=
  [flag "limitEnable" "false" (by decide), flag "logoPictureId" "null" (by decide), flag "logoSize" "62" (by decide)]

def pattern : Member where
  key := "pattern".toList
  plain := by decide
  written := .object patternType (networkFlags ++ logoFlags)

/-- The members behind the kind. -/
def laterMembers (durationMin : Int) (description : Text) (unslashed : Unslashed description) : List Member :=
  trafficFlags ++ validityFlags ++ [durationType, duration durationMin, descriptionMember description unslashed] ++
    userMembers ++ timeMembers ++ [weeklyEnableDays, pattern]

theorem laterText_append (members others : List Member) :
    laterText (members ++ others) = laterText members ++ laterText others := List.flatMap_append

theorem laterText_single (m : Member) : laterText [m] = ',' :: '"' :: m.key ++ '"' :: ':' :: m.written.text := by
  simp [laterText, Member.text]

section
set_option maxRecDepth 10000

theorem codeLength_text :
    "\x7b\"codeLength\":8,\"codeForm\":[0],\"amount\":".toList =
      '\x7b' :: codeLength.text ++ laterText [codeForm] ++ ',' :: '"' :: "amount".toList ++ ['"', ':'] := String.toList_ofList

theorem kindFlags_text : "\",\"type\":0,\"logout\":true".toList = '"' :: laterText kindFlags := String.toList_ofList

theorem trafficFlags_text :
    ",\"downLimitUnit\":0,\"upLimitUnit\":0,\"trafficLimitEnable\":false,\"trafficLimit\":null,\"trafficLimitUnit\":0".toList =
      laterText trafficFlags := String.toList_ofList

theorem validityFlags_text :
    ",\"voucherValidityEnable\":false,\"upTimeLimitEnable\":true".toList = laterText validityFlags := String.toList_ofList

theorem durationType_text :
    ",\"durationType\":1,\"duration\":".toList =
      laterText [durationType] ++ ',' :: '"' :: "duration".toList ++ ['"', ':'] := String.toList_ofList

theorem userMembers_text :
    ",\"maxUsers\":1,\"trafficLimitFrequency\":1,\"portalIds\":[],\"applyToAllPortals\":true".toList =
      laterText userMembers := String.toList_ofList

theorem timeMembers_text :
    ",\"validityType\":0,\"startTime\":\"00:00\",\"endTime\":\"23:59\",\"scheduleTime\":0".toList =
      laterText timeMembers := String.toList_ofList

theorem weeklyEnableDays_text :
    ",\"weeklyEnableDays\":\x7b\"1\":true,\"2\":true,\"3\":true,\"4\":true,\"5\":true,\"6\":true,\"7\":true\x7d".toList =
      laterText [weeklyEnableDays] := String.toList_ofList

theorem pattern_text :
    ",\"pattern\":\x7b\"patternType\":0,\"position\":0,\"ssidNetworkEnable\":false,\"durationEnable\":false".toList =
      ',' :: '"' :: "pattern".toList ++ '"' :: ':' :: '\x7b' :: patternType.text ++ laterText networkFlags :=
  String.toList_ofList

theorem logoFlags_text :
    ",\"limitEnable\":false,\"logoPictureId\":null,\"logoSize\":62\x7d\x7d".toList =
      laterText logoFlags ++ ['\x7d', '\x7d'] := String.toList_ofList

end

theorem voucherBody_eq (name : Text) (durationMin totalCount : Int) (description : Text) (unslashed : Unslashed description) :
    voucherBody name durationMin totalCount description =
      around codeLength [codeForm, amount totalCount] "name".toList name
        (kindFlags ++ laterMembers durationMin description unslashed) := by
  have nameKey : ",\"name\":\"".toList = ',' :: '"' :: "name".toList ++ ['"', ':', '"'] := String.toList_ofList
  have descriptionKey : ",\"description\":\"".toList = ',' :: '"' :: "description".toList ++ ['"', ':', '"'] :=
    String.toList_ofList
  have quote : "\"".toList = ['"'] := String.toList_ofList
  unfold voucherBody
  rw [codeLength_text, kindFlags_text, trafficFlags_text, validityFlags_text, durationType_text, userMembers_text,
    timeMembers_text, weeklyEnableDays_text, pattern_text, logoFlags_text, nameKey, descriptionKey, quote]
  rw [around, show [codeForm, amount totalCount] = [codeForm] ++ [amount totalCount] from rfl, laterText_append,
    laterText_append, laterMembers, laterText_append, laterText_append, laterText_append, laterText_append, laterText_append,
    show [durationType, duration durationMin, descriptionMember description unslashed] =
      [durationType] ++ [duration durationMin] ++ [descriptionMember description unslashed] from rfl,
    laterText_append, laterText_append, show [weeklyEnableDays, pattern] = [weeklyEnableDays] ++ [pattern] from rfl,
    laterText_append, laterText_single (amount totalCount), laterText_single (duration durationMin),
    laterText_single (descriptionMember description unslashed), laterText_single pattern]
  have patternText : pattern.written.text =
      '\x7b' :: patternType.text ++ (laterText networkFlags ++ laterText logoFlags) ++ ['\x7d'] := by
    rw [← laterText_append]
    rfl
  have descriptionText : (descriptionMember description unslashed).written.text =
      '"' :: escapeQuotes description ++ ['"'] := rfl
  rw [patternText, descriptionText, show (amount totalCount).key = "amount".toList from rfl,
    show (duration durationMin).key = "duration".toList from rfl, show pattern.key = "pattern".toList from rfl,
    show (descriptionMember description unslashed).key = "description".toList from rfl,
    show (amount totalCount).written.text = (toString totalCount).toList from rfl,
    show (duration durationMin).written.text = (toString durationMin).toList from rfl]
  generalize "amount".toList = amountKey, "duration".toList = durationKey, "pattern".toList = patternKey,
    "description".toList = descriptionKey, "name".toList = nameKey
  simp only [List.append_assoc, List.cons_append, List.nil_append]

/-! ## What the body means -/

/-- The value has this text under a key. -/
def Says (value : Value) (key : String) (text : Text) : Prop := value.field (units key.toList) = some (.text (units text))

/-- The text under a key, as the controller keeps it. -/
def readText (value : Value) (key : String) : Option Text := ((value.field (units key.toList)).bind (·.textOf)).map decode

section
variable {F : Type} (lib : JsonDoc.Library F) (pricePerCoin : Int) (now : Nat) (order : Order)

/-- The group of a value, as the sales page takes it. -/
def readBack (value : Value) : Option (String × Int) :=
  (readText value "name").bind fun name =>
    (readText value "description").bind fun description =>
      autogenSellerPrice lib pricePerCoin (String.ofList name) description

structure Means (value : Value) : Prop where
  name : Says value "name" (order.name now)
  description : Says value "description" order.description
  back : readBack lib pricePerCoin value = some (String.ofList order.seller, order.price)

/-- The body is one value, and it means what was ordered. -/
def Faithful : Prop := ∃ value, parse (groupBody now order) = some value ∧ Means lib pricePerCoin now order value

end

section
variable {F : Type} {lib : JsonDoc.Library F} {pricePerCoin : Int} {now : Nat} {order : Order}

theorem readText_of_says {value : Value} {key : String} {text : Text} (meant : Says value key text) :
    readText value key = some text := by
  rw [readText, meant]
  exact congrArg some (decode_units text)

/-! ## Which characters the strings have -/

theorem hex_letters (n : Nat) : ∀ c ∈ Nat.toDigits 16 n, IsWordChar c := by
  have digit : ∀ d < 16, IsWordChar (Nat.digitChar d) := by decide
  induction n using Nat.strong_induction_on with
  | _ n ih =>
    by_cases single : n < 16
    · rw [Nat.toDigits_of_lt_base single]
      exact List.forall_mem_singleton.mpr (digit n single)
    · rw [Nat.toDigits_of_base_le (by decide) (by omega)]
      refine List.forall_mem_append.mpr ⟨ih (n / 16) (by omega), ?_⟩
      exact List.forall_mem_singleton.mpr (digit (n % 16) (Nat.mod_lt n (by decide)))

theorem priceTag_letters (order : Order) (now : Nat) : ∀ c ∈ order.priceTag now, IsWordChar c := by
  have price := (word_toString order.price).2.1
  have hours := (word_toString (order.durationMin / 60)).2.1
  refine List.forall_mem_append.mpr ⟨List.forall_mem_append.mpr ⟨price, ?_⟩, ?_⟩
  · exact List.forall_mem_cons.mpr ⟨by decide, hours⟩
  · exact List.forall_mem_cons.mpr ⟨by decide, List.forall_mem_cons.mpr ⟨by decide, hex_letters _⟩⟩

theorem unslashed_of_letters {word : Text} (letters : ∀ c ∈ word, IsWordChar c) : Unslashed word :=
  unslashed_of_plain (plain_of_letters letters)

theorem unslashed_name : Unslashed (order.name now) ↔ Unslashed order.seller := by
  have front : Unslashed ("AUTOGEN: ".toList ++ order.priceTag now) :=
    unslashed_append.mpr ⟨by decide, unslashed_of_letters (priceTag_letters order now)⟩
  constructor
  · intro whole
    exact fun c inside => whole c (List.mem_append_right _ (List.mem_cons_of_mem _ inside))
  · intro seller
    exact unslashed_append.mpr ⟨front, List.forall_mem_cons.mpr ⟨by decide, seller⟩⟩

theorem unslashed_description (order : Order) : Unslashed order.description := by
  have price := unslashed_of_letters (word_toString order.price).2.1
  exact unslashed_append.mpr ⟨unslashed_append.mpr ⟨by decide, price⟩, by decide⟩

/-! ## The seller and the price -/

/-- The seller is what follows the first space behind the prefix. -/
theorem autogen_seller : sellerIn id (restOf (String.ofList (order.name now))) = order.seller := by
  have rest : restOf (String.ofList (order.name now)) = order.priceTag now ++ ' ' :: order.seller := by
    have nine : "AUTOGEN: ".toList = ['A', 'U', 'T', 'O', 'G', 'E', 'N', ':', ' '] := String.toList_ofList
    unfold restOf Order.name
    rw [String.toList_ofList, nine, List.append_assoc]
    rfl
  have spaced : ' ' ∈ order.priceTag now ++ ' ' :: order.seller := List.mem_append_right _ List.mem_cons_self
  have tag : ∀ c ∈ order.priceTag now, decide (c ≠ ' ') = true := by
    intro c inside
    refine decide_eq_true fun space => ?_
    exact absurd (space ▸ priceTag_letters order now c inside) (by decide)
  rw [rest, sellerIn, if_pos spaced, List.dropWhile_append_of_pos tag]
  rfl

theorem price_read (reads : lib.deserialize order.description = some (.object [("price".toList, .int order.price)])) :
    priceIn lib (ConfigFile.orInt pricePerCoin) pricePerCoin order.description = order.price := by
  have member : (JsonDoc.Value.object [("price".toList, .int order.price)] : JsonDoc.Value F).member "price".toList =
      .int order.price := by
    unfold JsonDoc.Value.member JsonDoc.Value.members
    rw [JsonDoc.Value.lookup_member, if_pos rfl]
    rfl
  have positive := order.price_pos
  have fits := order.price_fits
  unfold priceIn
  rw [reads]
  exact (congrArg (ConfigFile.orInt pricePerCoin) member).trans (if_pos ⟨by omega, by omega⟩)

theorem autogen_read (reads : lib.deserialize order.description = some (.object [("price".toList, .int order.price)])) :
    autogenSellerPrice lib pricePerCoin (String.ofList (order.name now)) order.description =
      some (String.ofList order.seller, order.price) := by
  have autogen : MoneyStore.IsAutogen (String.ofList (order.name now)) := by
    unfold MoneyStore.IsAutogen Order.name
    rw [String.toList_ofList, List.append_assoc]
    exact List.prefix_append _ _
  unfold autogenSellerPrice attribution
  rw [if_pos autogen, autogen_seller, price_read reads]

/-! ## When the body means what was ordered -/

def keys : List String :=
  ["codeLength", "codeForm", "amount", "name", "type", "logout", "downLimitUnit", "upLimitUnit", "trafficLimitEnable",
    "trafficLimit", "trafficLimitUnit", "voucherValidityEnable", "upTimeLimitEnable", "durationType", "duration",
    "description", "maxUsers", "trafficLimitFrequency", "portalIds", "applyToAllPortals", "validityType", "startTime",
    "endTime", "scheduleTime", "weeklyEnableDays", "pattern"]

theorem keys_distinct : (keys.map fun key => units key.toList).Nodup := by
  refine List.Nodup.map ?_ (by decide)
  intro one other same
  exact String.toList_inj.mp (units_inj.mp same)

/-- The object that the body is, with what is read for the name. -/
def groupObject (order : Order) (read : List Nat) : Value :=
  objectAround codeLength [codeForm, amount order.qty] "name".toList
    (kindFlags ++ laterMembers order.durationMin order.description (unslashed_description order)) read

theorem field_name (order : Order) (read : List Nat) :
    (groupObject order read).field (units "name".toList) = some (.text read) := by
  refine field_of_nodup keys_distinct (List.mem_cons_of_mem _ ?_)
  exact List.mem_append_right _ List.mem_cons_self

theorem field_description (order : Order) (read : List Nat) :
    (groupObject order read).field (units "description".toList) = some (.text (units order.description)) := by
  refine field_of_nodup keys_distinct (List.mem_cons_of_mem _ ?_)
  have listed : descriptionMember order.description (unslashed_description order) ∈
      kindFlags ++ laterMembers order.durationMin order.description (unslashed_description order) := by
    simp [laterMembers]
  exact List.mem_append_right _ (List.mem_cons_of_mem _ (List.mem_map_of_mem listed))

theorem groupBody_eq (now : Nat) (order : Order) :
    groupBody now order = around codeLength [codeForm, amount order.qty] "name".toList (order.name now)
      (kindFlags ++ laterMembers order.durationMin order.description (unslashed_description order)) :=
  voucherBody_eq _ _ _ _ _

theorem name_plain : Plain "name".toList := by decide

theorem faithful_of_unslashed (reads : lib.deserialize order.description =
    some (.object [("price".toList, .int order.price)])) (unslashed : Unslashed order.seller) :
    Faithful lib pricePerCoin now order := by
  have parsed : parse (groupBody now order) = some (groupObject order (units (order.name now))) := by
    rw [groupBody_eq]
    exact parse_around name_plain (unslashed_name.mpr unslashed)
  have name : Says (groupObject order (units (order.name now))) "name" (order.name now) := field_name order _
  have description : Says (groupObject order (units (order.name now))) "description" order.description :=
    field_description order _
  refine ⟨_, parsed, name, description, ?_⟩
  rw [readBack, readText_of_says name, Option.bind_some, readText_of_says description, Option.bind_some]
  exact autogen_read reads

/-- A name that is read as it is meant needed no other escape. -/
theorem unslashed_of_faithful (faithful : Faithful lib pricePerCoin now order) : Unslashed order.seller := by
  obtain ⟨value, parsed, means⟩ := faithful
  have kind : (flag "type" "0" (by decide)).key.all (IsWordChar ·) = true ∧
      (flag "type" "0" (by decide)).key ≠ [] ∧ ¬ IsLiteral (flag "type" "0" (by decide)).key := by decide
  rw [groupBody_eq] at parsed
  obtain ⟨read, unslashed, rfl⟩ := read_of_parsed name_plain
    (fun c inside => of_decide_eq_true (List.all_eq_true.mp kind.1 c inside)) kind.2.1 kind.2.2 parsed
  have found := (field_name order read).symm.trans means.name
  cases found
  exact unslashed_name.mp (unslashed rfl)

theorem voucher_group_iff (lib : JsonDoc.Library F) (pricePerCoin : Int) (now : Nat) (order : Order)
    (reads : lib.deserialize order.description = some (.object [("price".toList, .int order.price)])) :
    Faithful lib pricePerCoin now order ↔ Unslashed order.seller := by
  constructor
  · exact unslashed_of_faithful
  · exact faithful_of_unslashed reads

end

/-- A page of codes for 2 hours. -/
def orderOf (seller : Text) (named : seller ≠ []) : Order where
  pages := 1
  durationMin := 120
  price := 5
  seller := seller
  pages_pos := by decide
  duration_pos := by decide
  price_pos := by decide
  price_fits := by decide
  named := named

theorem voucher_group_kano :
    Faithful fiveLibrary 1 0 (orderOf ['K', 'A', 'N', 'O'] (by decide)) ↔ Unslashed ['K', 'A', 'N', 'O'] :=
  voucher_group_iff fiveLibrary 1 0 (orderOf ['K', 'A', 'N', 'O'] (by decide)) (by rfl)

/-- A seller with a backslash. -/
theorem slashed_seller_lost : ¬ Faithful fiveLibrary 1 0 (orderOf ['A', '\\', 'B'] (by decide)) := by
  intro faithful
  exact absurd (unslashed_of_faithful faithful) (by decide)

end EllaFi.VoucherBody
