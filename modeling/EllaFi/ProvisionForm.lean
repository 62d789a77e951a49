import EllaFi.MaskedConfig

/-!
The form of the setup page: each member of the masked configuration that is no object and
no array is an input with its value printed, and what comes back for it is saved as a
text. A secret, a text and a number of digits survive this, but null, a boolean, a
floating-point number and a negative number come back as texts (`retyped`), and a text
with a quote in it ends at the quote, for nothing on the page is escaped. So a form that
is sent unchanged leaves what is loaded when the save is refused, or is written whole and
no setting is read from such a value, and only then on a page that keeps its inputs
(`form_unchanged`).
-/
namespace EllaFi.ProvisionForm
open EllaFi.TextLines (Text cString digits digits_eq isDigit_toDigits toList_toString)
open EllaFi.JsonDoc (Value Library)
open EllaFi.ConfigFile EllaFi.MaskedConfig

/-! ## The page -/

def formHead : Text :=
  "<!DOCTYPE html><html><head><meta charset='utf-8'>".toList ++
    "<meta name=viewport content='width=device-width,initial-scale=1'>".toList ++
    "<title>EllaFi Setup</title></head>".toList ++
    "<body style='font-family:sans-serif;max-width:480px;margin:auto;padding:1em'>".toList ++
    "<h2>EllaFi Node Setup</h2><p>Update the fields that changed, then Save.</p>".toList ++
    "<form method=POST action=/save>".toList

def formTail : Text :=
  "<button style='width:100%;padding:.8em;font-size:1em'>Save &amp; Reboot</button></form></body></html>".toList

def quoted (text : Text) : Text := '"' :: text ++ ['"']

def formInput (field : Text × Text) : Text :=
  "<label>".toList ++ field.1 ++ "</label><br><input name=".toList ++ quoted field.1 ++ " value=".toList ++
    quoted field.2 ++ " style='width:100%;margin-bottom:.7em'><br>".toList

def formHtml (fields : List (Text × Text)) : Text := formHead ++ fields.flatMap formInput ++ formTail

section
variable {F : Type} (lib : Library F)

/-- A text as it is, another value as it is printed. -/
def asString : Value F → Text
  | .text s => cString s
  | value => lib.serialize value

/-- What an input shows; an object and an array have none. -/
def inputValue : Value F → Option Text
  | .object _ | .array _ => none
  | value => some (asString lib value)

def formFields (config : Value F) : List (Text × Text) :=
  config.members.filterMap fun member => (inputValue lib member.2).map fun shown => (cString member.1, shown)

/-- Null where the configuration cannot be read. -/
def maskedConfig (file : Option Text) : Value F := (lib.deserialize (maskedConfigJson lib file)).getD .null

def provisionFormHtml (file : Option Text) : Text := formHtml (formFields lib (maskedConfig lib file))

/-! ## Saving -/

def postMember (params : List (Text × Text)) (doc : Value F) (member : Text × Value F) : Value F :=
  match params.lookup (cString member.1) with
  | some value => doc.setMember (cString member.1) (.text value)
  | none => doc

/-- What was sent for the keys of the configuration. -/
def postedConfig (config : Value F) (params : List (Text × Text)) : Value F :=
  config.members.foldl (postMember params) .null

structure Answer where
  status : Nat
  html : String
  restarts : Bool
deriving DecidableEq, Repr

def handleProvisionSave (outcome : WriteOutcome) (file : Option Text) (params : List (Text × Text)) :
    Answer × Option Text :=
  match mergeAndSaveConfig lib outcome file (lib.serialize (postedConfig (maskedConfig lib file) params)) with
  | (none, saved) =>
    ({ status := 200
       html := "<html><body style='font-family:sans-serif'><h3>Saved. Rebooting&hellip;</h3></body></html>"
       restarts := true }, saved)
  | (some err, saved) =>
    ({ status := 400
       html := "<html><body style='font-family:sans-serif'><h3>Error: " ++ err ++ "</h3><a href=/>Back</a></body></html>"
       restarts := false }, saved)

end

/-! ## Browsers -/

/-- A value ends at its first quote. -/
def beforeQuote (text : Text) : Text := text.takeWhile (· ≠ '"')

/-- What follows that quote stands in the tag. -/
def afterQuote (text : Text) : Text := (text.dropWhile (· ≠ '"')).tail

/-- What separates the attributes of a tag. -/
def isGap (c : Char) : Bool := c = ' ' || c = '\t' || c = '\n' || c = '\x0c' || c = '\r' || c = '/'

/-- The attributes that it makes there. Its last word has the closing quote at its end,
    and is the name of none. -/
def strays (text : Text) : List Text := ((afterQuote text).splitOnP isGap).dropLast

/-- The attributes by which an input, or the form, may not be sent. -/
def withholding : List Text := ["disabled", "form", "pattern", "required"].map String.toList

/-- The name does not end early, no label is taken for a tag, and the tag is an input's
    with nothing that keeps it from being sent. -/
structure Contained (field : Text × Text) : Prop where
  name : '"' ∉ field.1
  label : '<' ∉ field.1
  equals : '=' ∉ afterQuote field.2
  close : '>' ∉ afterQuote field.2
  words : ∀ word ∈ strays field.2, ∀ name ∈ withholding, word.map Char.toLower ≠ name

instance (field : Text × Text) : Decidable (Contained field) :=
  decidable_of_iff
    ('"' ∉ field.1 ∧ '<' ∉ field.1 ∧ '=' ∉ afterQuote field.2 ∧ '>' ∉ afterQuote field.2 ∧
      ∀ word ∈ strays field.2, ∀ name ∈ withholding, word.map Char.toLower ≠ name)
    ⟨fun ⟨name, label, equals, close, words⟩ => ⟨name, label, equals, close, words⟩,
      fun ⟨name, label, equals, close, words⟩ => ⟨name, label, equals, close, words⟩⟩

/-- No character reference and no line end. -/
structure Plain (text : Text) : Prop where
  ampersand : '&' ∉ text
  carriage : '\r' ∉ text
  newline : '\n' ∉ text

/-- How the form comes back from a browser, over the web server, when nothing was changed
    in it. An input without a name is not sent. -/
structure Browser where
  submit : Text → List (Text × Text)
  /-- What is sent for the text of a name. -/
  name : Text → Text
  /-- What is sent for the text of a value. -/
  value : Text → Text
  submits : ∀ fields, (∀ field ∈ fields, Contained field) →
    submit (formHtml fields) =
      (fields.map fun field => (name field.1, value (beforeQuote field.2))).filter (·.1 ≠ [])
  name_plain : ∀ {text}, Plain text → name text = text
  value_plain : ∀ {text}, Plain text → value text = text

/-! ## What comes back -/

def textSettings : List String :=
  ["wifi_ssid", "wifi_password", "omada_url", "omada_controller_id", "omada_username", "omada_password", "master_mac",
    "healthchecks_url", "static_ip", "static_gateway", "static_subnet", "static_dns"]

/-- With what is read where there is no such number. -/
def numberSettings : List (String × Int) :=
  [("minutes_per_coin", 24), ("price_per_coin", 1), ("fallback_price_per_voucher", 5)]

def settingKeys : List String := textSettings ++ numberSettings.map (·.1) ++ ["network_key", "omada_device_enable"]

def configKeys : List String := settingKeys ++ ["active_env", "environments"]

section
variable {F : Type} (lib : Library F) (browser : Browser)

def returnedConfig (file : Option Text) : Value F :=
  postedConfig (maskedConfig lib file) (browser.submit (provisionFormHtml lib file))

/-- What the input of a member shows. -/
def shownValue (key : Text) (v : Value F) : Option Text :=
  if Secret key then some mask else inputValue lib (lib.rereading v)

/-- What a value is stored as when it comes back. -/
def retyped : Value F → Value F
  | .object members => .object members
  | .array items => .array items
  | v => mergeValue v (.text (browser.value (beforeQuote (asString lib (lib.rereading v)))))

/-- What is stored under a key of the configuration then. A secret comes back as its mask. -/
def resubmitted (doc : Value F) (key : Text) : Value F :=
  if Secret key then doc.member key else ((doc.members.lookup key).map (retyped lib browser)).getD .null

def IsWord : Value F → Prop
  | .null | .bool _ | .int _ | .float _ => True
  | .text _ | .array _ | .object _ => False

def isWordChar (c : Char) : Bool := c.isAlphanum || c = '+' || c = '-' || c = '.'

/-- How the library prints what is no text and has no parts. -/
structure Prints : Prop where
  int : ∀ z, lib.serialize (.int z) = (toString z).toList
  nonempty : ∀ {v}, IsWord v → lib.serialize v ≠ []
  word : ∀ {v}, IsWord v → (lib.serialize v).all isWordChar

/-- A value that reads as the same text when it comes back. -/
def SameText : Value F → Prop
  | .text s =>
    cString (browser.value (beforeQuote (cString s))) = cString s ∨
      cString (browser.value (beforeQuote (cString s))) = mask
  | .int z => 0 ≤ z ∧ z < 2 ^ 64
  | .array _ | .object _ => True
  | .null | .bool _ | .float _ => False

instance : ∀ v : Value F, Decidable (SameText browser v)
  | .text _ => inferInstanceAs (Decidable (_ ∨ _))
  | .int _ => inferInstanceAs (Decidable (_ ∧ _))
  | .array _ | .object _ => .isTrue trivial
  | .null | .bool _ | .float _ => .isFalse id

/-- The page keeps its inputs, and sends none of another member under a name that the
    configuration is read by. -/
structure Intact (doc : Value F) : Prop where
  contained : ∀ member ∈ doc.members, ∀ shown ∈ shownValue lib member.1 member.2, Contained (cString member.1, shown)
  own : ∀ member ∈ doc.members, (shownValue lib member.1 member.2).isSome → ∀ key ∈ configKeys,
    browser.name (cString member.1) = key.toList → member.1 = key.toList

/-- What the chosen environment has in the place of a setting. -/
def override (doc : Value F) (key : String) : Value F := (environment doc.member).member key.toList

/-- The environment that is chosen stays the one, and no number in it that is written as
    null gives way to another value. -/
structure SameEnv (doc : Value F) : Prop where
  chosen : ∀ v, doc.members.lookup "active_env".toList = some v → SameText browser v
  overrides : ∀ key ∈ settingKeys, (lib.rereading (override doc key)).isNull →
    (override doc key).isNull ∨ doc.members.lookup key.toList = none

/-- A setting that is no secret is read from a member with this value. -/
structure Shown (doc : Value F) (key : String) (v : Value F) : Prop where
  base : (override doc key).isNull
  bare : ¬ Secret key.toList
  there : doc.members.lookup key.toList = some v

/-- No text is read from what is none, no number from a negative one, and the flag is not
    set; and no number of the environment is read as another. -/
structure FormKept (doc : Value F) : Prop where
  texts : ∀ key ∈ textSettings, ∀ v, Shown doc key v → SameText browser v
  numbers : ∀ setting ∈ numberSettings, ∀ v, Shown doc setting.1 v → 0 ≤ orInt 0 v
  deviceEnable : ∀ v, Shown doc "omada_device_enable" v → orFalse v = false
  overrides : ∀ setting ∈ numberSettings,
    orInt setting.2 (lib.rereading (override doc setting.1)) = orInt setting.2 (override doc setting.1)

end

/-! ## What is sent -/

section
variable {F : Type} {lib : Library F} {browser : Browser} {members : List (Text × Value F)} {key : Text}

theorem cString_eq_self {text : Text} (whole : '\x00' ∉ text) : cString text = text :=
  List.takeWhile_eq_self_iff.mpr fun _ inside => decide_eq_true fun nul => whole (nul ▸ inside)

theorem beforeQuote_eq_self {text : Text} (unquoted : '"' ∉ text) : beforeQuote text = text :=
  List.takeWhile_eq_self_iff.mpr fun _ inside => decide_eq_true fun quote => unquoted (quote ▸ inside)

theorem setting_configKey {key : String} (inside : key ∈ settingKeys) : key ∈ configKeys := List.mem_append_left _ inside

theorem text_setting {key : String} (inside : key ∈ textSettings) : key ∈ settingKeys :=
  List.mem_append_left _ (List.mem_append_left _ inside)

theorem number_setting {setting : String × Int} (inside : setting ∈ numberSettings) : setting.1 ∈ settingKeys :=
  List.mem_append_left _ (List.mem_append_right _ (List.mem_map_of_mem inside))

theorem networkKey_setting : "network_key" ∈ settingKeys := List.mem_append_right _ List.mem_cons_self

theorem deviceEnable_setting : "omada_device_enable" ∈ settingKeys :=
  List.mem_append_right _ (List.mem_cons_of_mem _ List.mem_cons_self)

theorem activeEnv_configKey : "active_env" ∈ configKeys := List.mem_append_right _ List.mem_cons_self

theorem environments_configKey : "environments" ∈ configKeys :=
  List.mem_append_right _ (List.mem_cons_of_mem _ List.mem_cons_self)

theorem required_setting : ∀ key ∈ requiredFields, key ∈ settingKeys := by simp [requiredFields, settingKeys, textSettings]

/-- The keys that the configuration is read by are sent as they are. -/
theorem configKeys_plain : ∀ key ∈ configKeys, key.toList ≠ [] ∧ '\x00' ∉ key.toList ∧ '&' ∉ key.toList ∧
    '\r' ∉ key.toList ∧ '\n' ∉ key.toList := by
  decide +kernel

theorem bare_keys :
    ¬ Secret "active_env".toList ∧ ¬ Secret "environments".toList ∧ Secret "network_key".toList ∧
      ∀ setting ∈ numberSettings, ¬ Secret setting.1.toList := by
  decide +kernel

theorem cString_configKey {key : String} (inside : key ∈ configKeys) : cString key.toList = key.toList :=
  cString_eq_self (configKeys_plain key inside).2.1

theorem name_configKey {key : String} (inside : key ∈ configKeys) : browser.name (cString key.toList) = key.toList := by
  obtain ⟨-, -, ampersand, carriage, newline⟩ := configKeys_plain key inside
  rw [cString_configKey inside, browser.name_plain ⟨ampersand, carriage, newline⟩]

def fieldsOf (lib : Library F) (members : List (Text × Value F)) : List (Text × Text) :=
  members.filterMap fun member => (shownValue lib member.1 member.2).map fun shown => (cString member.1, shown)

def sent (lib : Library F) (browser : Browser) (members : List (Text × Value F)) : List (Text × Text) :=
  ((fieldsOf lib members).map fun field => (browser.name field.1, browser.value (beforeQuote field.2))).filter (·.1 ≠ [])

/-- A member is sent under its own key, if no other one is. -/
theorem lookup_sent (named : key ≠ []) (itself : browser.name (cString key) = key)
    (own : ∀ member ∈ members, (shownValue lib member.1 member.2).isSome → browser.name (cString member.1) = key →
      member.1 = key)
    (distinct : (members.map (·.1)).Nodup) :
    (sent lib browser members).lookup key =
      ((members.lookup key).bind (shownValue lib key)).map fun shown => browser.value (beforeQuote shown) := by
  induction members with
  | nil => rfl
  | cons first rest ih =>
    obtain ⟨ownFirst, ownRest⟩ := List.forall_mem_cons.mp own
    rw [List.map_cons, List.nodup_cons] at distinct
    have later := ih ownRest distinct.2
    rw [Value.lookup_member, sent, fieldsOf, List.filterMap_cons]
    cases shows : shownValue lib first.1 first.2 with
    | none =>
      rw [Option.map_none, ← fieldsOf, ← sent, later]
      split
      · next here => rw [here, Value.lookup_fresh distinct.1, Option.bind_some, shows, Option.bind_none]
      · rfl
    | some shown =>
      rw [Option.map_some, List.map_cons]
      by_cases hit : browser.name (cString first.1) = key
      · have here : first.1 = key := ownFirst (by rw [shows]; rfl) hit
        rw [if_pos here.symm, List.filter_cons_of_pos (by simpa [hit] using named), Value.lookup_member, if_pos hit.symm,
          Option.bind_some, ← here, shows, Option.map_some]
      · have other : ¬ key = first.1 := fun same => hit (same ▸ itself)
        rw [if_neg other, ← later, sent, fieldsOf, List.filter_cons]
        split
        · rw [Value.lookup_member, if_neg (Ne.symm hit)]
        · rfl

/-! ## What is posted -/

section
variable {params : List (Text × Text)} {doc : Value F}

theorem postMember_lookup (empty : doc.isNull ∨ doc.IsObject) (member : Text × Value F) (key : Text) :
    (postMember params doc member).members.lookup key =
      if key = cString member.1 then ((params.lookup key).map .text).or (doc.members.lookup key)
      else doc.members.lookup key := by
  unfold postMember
  cases given : params.lookup (cString member.1) with
  | none =>
    by_cases own : key = cString member.1
    · rw [if_pos own, own, given, Option.map_none, Option.none_or]
    · rw [if_neg own]
  | some value =>
    have put : (doc.setMember (cString member.1) (.text value)).members.lookup key =
        if key = cString member.1 then some (.text value) else doc.members.lookup key := by
      cases doc with
      | null => exact Value.lookup_member _ _
      | object members => exact Value.lookup_assign
      | _ => simp [Value.isNull, Value.IsObject] at empty
    by_cases own : key = cString member.1
    · rw [put, if_pos own, if_pos own, own, given, Option.map_some, Option.some_or]
    · rw [put, if_neg own, if_neg own]

theorem postMember_empty (empty : doc.isNull ∨ doc.IsObject) (member : Text × Value F) :
    (postMember params doc member).isNull ∨ (postMember params doc member).IsObject := by
  unfold postMember
  split
  · cases doc with
    | null => exact .inr trivial
    | object members => exact .inr trivial
    | _ => simp [Value.isNull, Value.IsObject] at empty
  · exact empty

theorem lookup_foldl_postMember (empty : doc.isNull ∨ doc.IsObject) (key : Text) :
    (members.foldl (postMember params) doc).members.lookup key =
      if key ∈ members.map (cString ·.1) then ((params.lookup key).map .text).or (doc.members.lookup key)
      else doc.members.lookup key := by
  induction members generalizing doc with
  | nil => rfl
  | cons first rest ih =>
    rw [List.foldl_cons, ih (postMember_empty empty first), postMember_lookup empty]
    simp only [List.map_cons, List.mem_cons]
    by_cases own : key = cString first.1 <;> by_cases later : key ∈ rest.map (cString ·.1) <;>
      cases params.lookup key <;> simp [own, later]

end

/-! ## The form, sent back -/

section
variable {text : Text} {v : Value F}

theorem plain_mask : Plain mask where
  ampersand := by decide
  carriage := by decide
  newline := by decide

theorem whole_mask : cString mask = mask := cString_eq_self (by decide)

theorem mergeValue_mask (v : Value F) : mergeValue v (.text mask) = v := by
  rw [mergeValue, if_pos whole_mask]

/-- Masking changes only what has parts, and that has no input. -/
theorem inputValue_masked (v : Value F) : inputValue lib (lib.rereading (maskSecrets v)) = inputValue lib (lib.rereading v) := by
  cases v with
  | object members =>
    rw [maskSecrets, Library.rereading, Library.rereading, Value.mapFloats_object, Value.mapFloats_object]
    rfl
  | array items =>
    rw [maskSecrets, Library.rereading, Library.rereading, Value.mapFloats_array, Value.mapFloats_array]
    rfl
  | _ => rfl

theorem inputValue_maskedMember (key : Text) (v : Value F) :
    inputValue lib (lib.rereading (if Secret key then .text mask else maskSecrets v)) = shownValue lib key v := by
  unfold shownValue
  split
  · exact congrArg some whole_mask
  · exact inputValue_masked v

theorem members_maskedConfig (read : lib.deserialize text = some (.object members))
    (keepsMasked : lib.Keeps (maskSecrets (.object members))) :
    (maskedConfig lib (some text)).members = members.map fun member =>
      (member.1, lib.rereading (if Secret member.1 then .text mask else maskSecrets member.2)) := by
  rw [maskedConfig, maskedConfigJson, Option.bind_some, read, keepsMasked.whole, Option.getD_some, members_masked]

theorem formFields_maskedConfig (read : lib.deserialize text = some (.object members))
    (keepsMasked : lib.Keeps (maskSecrets (.object members))) :
    formFields lib (maskedConfig lib (some text)) = fieldsOf lib members := by
  rw [formFields, members_maskedConfig read keepsMasked, List.filterMap_map]
  refine List.filterMap_congr fun member inside => ?_
  rw [Function.comp_apply, inputValue_maskedMember]

/-- On a page that keeps its inputs, what is shown under a key of the configuration is
    posted under it. -/
theorem lookup_returned (read : lib.deserialize text = some (.object members))
    (keepsMasked : lib.Keeps (maskSecrets (.object members))) (intact : Intact lib browser (.object members))
    {key : String} (inside : key ∈ configKeys) :
    (returnedConfig lib browser (some text)).members.lookup key.toList =
      ((members.lookup key.toList).bind (shownValue lib key.toList)).map fun shown =>
        .text (browser.value (beforeQuote shown)) := by
  have contained : ∀ field ∈ fieldsOf lib members, Contained field := by
    intro field there
    obtain ⟨member, own, made⟩ := List.mem_filterMap.mp there
    obtain ⟨shown, shows, rfl⟩ := Option.map_eq_some_iff.mp made
    exact intact.contained member own shown shows
  have submitted : browser.submit (provisionFormHtml lib (some text)) = sent lib browser members := by
    rw [provisionFormHtml, formFields_maskedConfig read keepsMasked, browser.submits _ contained, sent]
  have keys : (maskedConfig lib (some text)).members.map (cString ·.1) = members.map (cString ·.1) := by
    rw [members_maskedConfig read keepsMasked, List.map_map]
    rfl
  have own : ∀ member ∈ members, (shownValue lib member.1 member.2).isSome →
      browser.name (cString member.1) = key.toList → member.1 = key.toList :=
    fun member there shows => intact.own member there shows key inside
  rw [returnedConfig, postedConfig, lookup_foldl_postMember (.inl rfl), submitted, keys,
    lookup_sent (configKeys_plain key inside).1 (name_configKey inside) own (lib.distinct read)]
  cases found : members.lookup key.toList with
  | none => simp [Value.members]
  | some v =>
    have there : key.toList ∈ members.map (cString ·.1) :=
      List.mem_map.mpr ⟨_, Value.mem_of_lookup found, cString_configKey inside⟩
    rw [if_pos there, Option.map_map]
    exact Option.or_none

/-- The merge leaves there what comes back. -/
theorem member_resubmitted (read : lib.deserialize text = some (.object members))
    (keepsMasked : lib.Keeps (maskSecrets (.object members))) (intact : Intact lib browser (.object members))
    {key : String} (inside : key ∈ configKeys) :
    mergedMember (.object members) (lib.rereading (returnedConfig lib browser (some text))) key.toList =
      resubmitted lib browser (.object members) key.toList := by
  rw [mergedMember, lib.lookup_rereading, lookup_returned read keepsMasked intact inside, resubmitted]
  have here : (Value.object members).member key.toList = (members.lookup key.toList).getD .null := rfl
  rw [here, Value.members]
  cases found : members.lookup key.toList with
  | none => simp
  | some v =>
    by_cases secret : Secret key.toList
    · have shown : shownValue lib key.toList v = some mask := if_pos secret
      rw [if_pos secret, Option.bind_some, shown, Option.map_some, Option.map_some, beforeQuote_eq_self (by decide),
        browser.value_plain plain_mask]
      exact mergeValue_mask v
    · have shown : shownValue lib key.toList v = inputValue lib (lib.rereading v) := if_neg secret
      rw [if_neg secret, Option.bind_some, shown]
      cases v with
      | float x =>
        have printed : inputValue lib (lib.rereading (.float x)) = some (asString lib (lib.rereading (.float x))) := by
          rw [Library.rereading, Value.mapFloats]
          cases lib.reread x <;> rfl
        rw [printed]
        rfl
      | _ => rfl

end

/-! ## Values, typed again -/

theorem isNumeric_toString {z : Int} : IsNumeric (toString z).toList ↔ 0 ≤ z := by
  rw [toList_toString]
  split
  · next positive =>
    exact iff_of_true ⟨Nat.toDigits_ne_nil, List.all_eq_true.mpr isDigit_toDigits⟩ positive
  · next negative =>
    refine iff_of_false (fun numeric => ?_) negative
    exact absurd (List.all_eq_true.mp numeric.2 _ List.mem_cons_self) (by decide)

theorem strtoull_toString {z : Int} (positive : 0 ≤ z) (bounded : z < 2 ^ 64) : strtoull (toString z).toList = z := by
  have numeric := List.all_eq_true.mp (isNumeric_toString.mpr positive).2
  rw [toList_toString, if_pos positive] at numeric ⊢
  rw [strtoull, digits_eq numeric, Nat.ofDigitChars_ten_toDigits]
  omega

theorem rereading_word {v : Value F} (word : IsWord v) : IsWord (lib.rereading v) := by
  cases v with
  | float x =>
    rw [Library.rereading, Value.mapFloats]
    cases lib.reread x <;> trivial
  | text s => cases word
  | array items => cases word
  | object members => cases word
  | _ => trivial

section
variable {v : Value F} (prints : Prints lib)
include prints

theorem not_mem_word (word : IsWord v) {c : Char} (other : isWordChar c = false) : c ∉ lib.serialize v :=
  fun inside => Bool.noConfusion ((List.all_eq_true.mp (prints.word word) c inside).symm.trans other)

theorem cString_word (word : IsWord v) : cString (lib.serialize v) = lib.serialize v :=
  cString_eq_self (not_mem_word prints word rfl)

theorem word_ne_mask (word : IsWord v) : lib.serialize v ≠ mask := by
  intro same
  exact not_mem_word prints word (c := '•') rfl (same ▸ by decide)

/-- A word comes back as it is printed. -/
theorem value_word (word : IsWord v) :
    browser.value (beforeQuote (asString lib (lib.rereading v))) = lib.serialize (lib.rereading v) := by
  have again : IsWord (lib.rereading v) := rereading_word word
  have shown : asString lib (lib.rereading v) = lib.serialize (lib.rereading v) := by
    cases same : lib.rereading v with
    | text s => rw [same] at again; cases again
    | _ => rfl
  rw [shown, beforeQuote_eq_self (not_mem_word prints again rfl)]
  exact browser.value_plain
    ⟨not_mem_word prints again rfl, not_mem_word prints again rfl, not_mem_word prints again rfl⟩

theorem mergeValue_word (word : IsWord v) (noNumber : ¬ (IsInteger v ∧ IsNumeric (lib.serialize (lib.rereading v)))) :
    mergeValue v (.text (browser.value (beforeQuote (asString lib (lib.rereading v))))) =
      .text (lib.serialize (lib.rereading v)) := by
  have again : IsWord (lib.rereading v) := rereading_word word
  rw [value_word prints word, mergeValue, cString_word prints again, if_neg (word_ne_mask prints again), if_neg noNumber]

/-- Only a number of digits is a number again. -/
theorem retyped_int (z : Int) :
    retyped lib browser (.int z) = if 0 ≤ z ∧ z < 2 ^ 64 then .int z else .text (lib.serialize (.int z)) := by
  have word : IsWord (.int z : Value F) := trivial
  have fixed : lib.rereading (.int z) = .int z := rfl
  show mergeValue (.int z) (.text (browser.value (beforeQuote (asString lib (lib.rereading (.int z)))))) = _
  split
  · next digits =>
    have numeric : IsNumeric (toString z).toList := isNumeric_toString.mpr digits.1
    have integer : IsInteger (.int z : Value F) := ⟨Int.le_trans (by decide) digits.1, digits.2⟩
    rw [value_word prints word, fixed, mergeValue, cString_word prints word, if_neg (word_ne_mask prints word), prints.int,
      if_pos ⟨integer, numeric⟩, strtoull_toString digits.1 digits.2]
  · next noDigits =>
    refine mergeValue_word prints word fun both => noDigits ⟨?_, both.1.2⟩
    exact isNumeric_toString.mp (prints.int z ▸ both.2)

theorem retyped_noNumber (v : Value F) (word : IsWord v) (noNumber : ¬ IsInteger v) :
    retyped lib browser v = .text (lib.serialize (lib.rereading v)) := by
  have scalar : retyped lib browser v =
      mergeValue v (.text (browser.value (beforeQuote (asString lib (lib.rereading v))))) := by
    cases v with
    | array items => cases word
    | object members => cases word
    | _ => rfl
  rw [scalar, mergeValue_word prints word fun both => noNumber both.1]

theorem orEmpty_word (word : IsWord v) : orEmpty (.text (lib.serialize v) : Value F) ≠ [] := by
  show cString (lib.serialize v) ≠ []
  rw [cString_word prints word]
  exact prints.nonempty word

theorem orEmpty_retyped_ne (v : Value F) (word : IsWord v) (noNumber : ¬ IsInteger v) :
    orEmpty (retyped lib browser v) ≠ [] := by
  rw [retyped_noNumber prints v word noNumber]
  exact orEmpty_word prints (rereading_word word)

theorem orEmpty_retyped_iff (v : Value F) : orEmpty (retyped lib browser v) = orEmpty v ↔ SameText browser v := by
  cases v with
  | null => exact iff_of_false (orEmpty_retyped_ne prints .null trivial id) id
  | bool b => exact iff_of_false (orEmpty_retyped_ne prints (.bool b) trivial id) id
  | float x => exact iff_of_false (orEmpty_retyped_ne prints (.float x) trivial id) id
  | int z =>
    rw [retyped_int prints]
    by_cases digits : 0 ≤ z ∧ z < 2 ^ 64
    · rw [if_pos digits]
      exact iff_of_true rfl digits
    · rw [if_neg digits]
      exact iff_of_false (orEmpty_word prints trivial) digits
  | text s =>
    show orEmpty (mergeValue (.text s) (.text (browser.value (beforeQuote (cString s))))) = cString s ↔ _
    by_cases masked : cString (browser.value (beforeQuote (cString s))) = mask
    · rw [mergeValue, if_pos masked]
      exact iff_of_true rfl (.inr masked)
    · rw [mergeValue, if_neg masked, if_neg fun both => both.1]
      exact (or_iff_left masked).symm
  | _ => exact iff_of_true rfl trivial

omit prints in
theorem retyped_text (lib : Library F) (browser : Browser) (s : Text) : ∃ t, retyped lib browser (.text s) = .text t := by
  show ∃ t, mergeValue (.text s) (.text (browser.value (beforeQuote (cString s)))) = .text t
  rw [mergeValue]
  split
  · exact ⟨s, rfl⟩
  · rw [if_neg fun both => both.1]
    exact ⟨_, rfl⟩

theorem orInt_retyped_iff {otherwise : Int} (positive : 0 ≤ otherwise) (v : Value F) :
    orInt otherwise (lib.rereading (retyped lib browser v)) = orInt otherwise v ↔ 0 ≤ orInt 0 v := by
  cases v with
  | null => exact iff_of_true (by rw [retyped_noNumber prints .null trivial id]; rfl) (Int.le_refl 0)
  | bool b => exact iff_of_true (by rw [retyped_noNumber prints (.bool b) trivial id]; rfl) (Int.le_refl 0)
  | float x => exact iff_of_true (by rw [retyped_noNumber prints (.float x) trivial id]; rfl) (Int.le_refl 0)
  | text s =>
    obtain ⟨t, typed⟩ := retyped_text lib browser s
    exact iff_of_true (by rw [typed]; rfl) (Int.le_refl 0)
  | int z =>
    rw [retyped_int prints]
    by_cases digits : 0 ≤ z ∧ z < 2 ^ 64
    · rw [if_pos digits]
      refine iff_of_true rfl ?_
      simp only [orInt]
      split <;> omega
    · rw [if_neg digits]
      simp only [Library.rereading, Value.mapFloats, orInt]
      split <;> omega
  | _ => exact iff_of_true rfl (Int.le_refl 0)

theorem orFalse_retyped_iff (v : Value F) : orFalse (retyped lib browser v) = orFalse v ↔ orFalse v = false := by
  cases v with
  | null => exact iff_of_true (by rw [retyped_noNumber prints .null trivial id]; rfl) rfl
  | bool b =>
    rw [retyped_noNumber prints (.bool b) trivial id]
    exact eq_comm
  | float x => exact iff_of_true (by rw [retyped_noNumber prints (.float x) trivial id]; rfl) rfl
  | text s =>
    obtain ⟨t, typed⟩ := retyped_text lib browser s
    exact iff_of_true (by rw [typed]; rfl) rfl
  | int z =>
    rw [retyped_int prints]
    split <;> exact iff_of_true rfl rfl
  | _ => exact iff_of_true rfl rfl

end

theorem orEmpty_rereading (v : Value F) : orEmpty (lib.rereading v) = orEmpty v := by
  rw [orEmpty, chars_rereading]
  rfl

theorem orFalse_rereading (v : Value F) : orFalse (lib.rereading v) = orFalse v := by
  cases v with
  | float x =>
    rw [Library.rereading, Value.mapFloats]
    cases lib.reread x <;> rfl
  | _ => rfl

theorem eq_null {v : Value F} (null : v.isNull) : v = .null := by
  cases v with
  | null => rfl
  | _ => cases null

/-! ## Settings, read again -/

section
variable {one other : Text → Value F} (same : ∀ key ∈ configKeys, one key.toList = other key.toList)
include same

theorem environment_congr : environment one = environment other := by
  have chosen : activeEnv one = activeEnv other := by rw [activeEnv, activeEnv, same "active_env" activeEnv_configKey]
  rw [environment, environment, chosen, same "environments" environments_configKey]

theorem envMissing_congr : EnvMissing one ↔ EnvMissing other := by
  rw [EnvMissing, EnvMissing, environment_congr same, activeEnv, activeEnv, same "active_env" activeEnv_configKey]

theorem cfg_congr {key : String} (inside : key ∈ configKeys) : cfg one key = cfg other key := by
  rw [cfg, cfg, environment_congr same, same key inside]

theorem accepted_congr : Accepted one ↔ Accepted other := by
  rw [Accepted, Accepted, envMissing_congr same]
  refine and_congr_right fun _ => forall₂_congr fun key required => ?_
  rw [cfg_congr same (setting_configKey (required_setting key required))]

end

section
variable {doc v : Value F}

theorem settings_eq_iff {one other : String → Value F} :
    settings one = settings other ↔
      (∀ key ∈ textSettings, orEmpty (one key) = orEmpty (other key)) ∧
        orZero (one "network_key") = orZero (other "network_key") ∧
        (∀ setting ∈ numberSettings, orInt setting.2 (one setting.1) = orInt setting.2 (other setting.1)) ∧
        orFalse (one "omada_device_enable") = orFalse (other "omada_device_enable") := by
  simp only [settings, Settings.mk.injEq, textSettings, numberSettings, List.forall_mem_cons, List.not_mem_nil,
    false_implies, implies_true, and_true]
  tauto

theorem settings_congr {one other : Text → Value F} (same : ∀ key ∈ configKeys, one key.toList = other key.toList) :
    settings (cfg one) = settings (cfg other) := by
  refine settings_eq_iff.mpr ⟨fun key inside => ?_, ?_, fun setting inside => ?_, ?_⟩
  · rw [cfg_congr same (setting_configKey (text_setting inside))]
  · rw [cfg_congr same (setting_configKey networkKey_setting)]
  · rw [cfg_congr same (setting_configKey (number_setting inside))]
  · rw [cfg_congr same (setting_configKey deviceEnable_setting)]

/-- What is read once the file is written. -/
def reloaded (lib : Library F) (browser : Browser) (doc : Value F) (key : Text) : Value F :=
  lib.rereading (resubmitted lib browser doc key)

theorem resubmitted_bare {key : Text} (bare : ¬ Secret key) :
    resubmitted lib browser doc key = ((doc.members.lookup key).map (retyped lib browser)).getD .null := if_neg bare

theorem resubmitted_absent {key : Text} (absent : doc.members.lookup key = none) :
    resubmitted lib browser doc key = .null := by
  rw [resubmitted, Value.member, absent]
  split <;> rfl

theorem retyped_object (object : v.IsObject) : retyped lib browser v = v := by
  cases v with
  | object members => rfl
  | _ => cases object

theorem activeEnv_resubmitted (prints : Prints lib) (same : SameEnv lib browser doc) :
    activeEnv (resubmitted lib browser doc) = activeEnv doc.member := by
  rw [activeEnv, resubmitted_bare bare_keys.1, activeEnv, Value.member]
  cases found : doc.members.lookup "active_env".toList with
  | none => rfl
  | some v => exact (orEmpty_retyped_iff prints v).mpr (same.chosen v found)

/-- The environments are an object, and that is not sent. -/
theorem environment_resubmitted (prints : Prints lib) (same : SameEnv lib browser doc)
    (there : ¬ EnvMissing doc.member) : environment (resubmitted lib browser doc) = environment doc.member := by
  unfold environment
  rw [activeEnv_resubmitted prints same]
  split
  · rfl
  · next chosen =>
    have found : (environment doc.member).isNull = false := by
      simpa using fun none => there ⟨chosen, none⟩
    rw [environment, if_neg chosen] at found
    have object : (doc.member "environments".toList).IsObject := by
      by_contra other
      have nothing : (doc.member "environments".toList).member (activeEnv doc.member) = .null :=
        not_not.mp (mt Value.isObject_of_member other)
      rw [nothing] at found
      cases found
    have kept : resubmitted lib browser doc "environments".toList = doc.member "environments".toList := by
      rw [resubmitted_bare bare_keys.2.1]
      rw [Value.member] at object ⊢
      cases found : doc.members.lookup "environments".toList with
      | none => rfl
      | some v =>
        rw [found, Option.getD_some] at object
        exact retyped_object object
    rw [kept]

theorem override_reloaded (prints : Prints lib) (same : SameEnv lib browser doc) (there : ¬ EnvMissing doc.member)
    (key : String) :
    (environment (reloaded lib browser doc)).member key.toList = lib.rereading (override doc key) := by
  have env : environment (reloaded lib browser doc) = lib.rereading (environment doc.member) := by
    rw [← environment_resubmitted prints same there, ← environment_rereading]
    rfl
  rw [env, lib.member_rereading, override]

/-- What is read of a setting is read of it again when the value it is read from comes
    back so, be it the configuration's or the environment's. -/
theorem read_reloaded_iff (prints : Prints lib) (same : SameEnv lib browser doc) (there : ¬ EnvMissing doc.member)
    {α : Type} (reads : Value F → α) {key : String} (inside : key ∈ settingKeys)
    (secret : Secret key.toList → (override doc key).isNull →
      reads (lib.rereading (doc.member key.toList)) = reads (doc.member key.toList)) :
    reads (cfg (reloaded lib browser doc) key) = reads (cfg doc.member key) ↔
      (∀ v, Shown doc key v → reads (lib.rereading (retyped lib browser v)) = reads v) ∧
        reads (lib.rereading (override doc key)) = reads (override doc key) := by
  rw [cfg, cfg, override_reloaded prints same there, ← override]
  by_cases base : (override doc key).isNull
  · have null := eq_null base
    have nothing : lib.rereading (override doc key) = .null := by rw [null]; rfl
    rw [if_pos base, nothing, null, and_iff_left rfl, if_pos (show (Value.null : Value F).isNull = true from rfl), reloaded]
    by_cases hidden : Secret key.toList
    · rw [resubmitted, if_pos hidden]
      exact iff_of_true (secret hidden base) fun v shown => absurd hidden shown.bare
    · rw [resubmitted_bare hidden, Value.member]
      cases found : doc.members.lookup key.toList with
      | none => exact iff_of_true rfl fun v shown => by cases found.symm.trans shown.there
      | some v =>
        constructor
        · intro again other shown
          obtain rfl := Option.some.inj (found.symm.trans shown.there)
          exact again
        · exact fun again => again v ⟨base, hidden, found⟩
  · have unshown : ∀ v, Shown doc key v → reads (lib.rereading (retyped lib browser v)) = reads v :=
      fun v shown => absurd shown.base base
    rw [if_neg base, and_iff_right unshown]
    by_cases lost : (lib.rereading (override doc key)).isNull
    · rw [if_pos lost, reloaded, resubmitted_absent ((same.overrides key inside lost).resolve_left base), eq_null lost]
      rfl
    · rw [if_neg lost]

theorem text_reloaded_iff (prints : Prints lib) (same : SameEnv lib browser doc) (there : ¬ EnvMissing doc.member)
    {key : String} (inside : key ∈ textSettings) :
    orEmpty (cfg (reloaded lib browser doc) key) = orEmpty (cfg doc.member key) ↔
      ∀ v, Shown doc key v → SameText browser v := by
  rw [read_reloaded_iff prints same there orEmpty (text_setting inside) fun _ _ => orEmpty_rereading _,
    and_iff_left (orEmpty_rereading _)]
  exact forall₂_congr fun v _ => by rw [orEmpty_rereading, orEmpty_retyped_iff prints]

theorem number_reloaded_iff (prints : Prints lib) (same : SameEnv lib browser doc) (there : ¬ EnvMissing doc.member)
    {setting : String × Int} (inside : setting ∈ numberSettings) :
    orInt setting.2 (cfg (reloaded lib browser doc) setting.1) = orInt setting.2 (cfg doc.member setting.1) ↔
      (∀ v, Shown doc setting.1 v → 0 ≤ orInt 0 v) ∧
        orInt setting.2 (lib.rereading (override doc setting.1)) = orInt setting.2 (override doc setting.1) := by
  have positive : 0 ≤ setting.2 := by
    simp only [numberSettings, List.mem_cons, List.not_mem_nil, or_false] at inside
    rcases inside with rfl | rfl | rfl <;> decide
  rw [read_reloaded_iff prints same there (orInt setting.2) (number_setting inside) fun secret =>
    absurd secret (bare_keys.2.2.2 setting inside)]
  exact and_congr_left fun _ => forall₂_congr fun v _ => orInt_retyped_iff prints positive v

theorem networkKey_reloaded (prints : Prints lib) (same : SameEnv lib browser doc) (there : ¬ EnvMissing doc.member)
    (loadable : Loadable (cfg doc.member)) :
    orZero (cfg (reloaded lib browser doc) "network_key") = orZero (cfg doc.member "network_key") := by
  obtain ⟨z, number, -⟩ := loadable.networkKey
  rw [cfg, ← override] at number
  refine (read_reloaded_iff prints same there orZero networkKey_setting fun _ base => ?_).mpr
    ⟨fun v shown => absurd bare_keys.2.2.1 shown.bare, ?_⟩
  · rw [if_pos base] at number
    rw [number]
    rfl
  · by_cases base : (override doc "network_key").isNull
    · rw [eq_null base]
      rfl
    · rw [if_neg base] at number
      rw [number]
      rfl

theorem flag_reloaded_iff (prints : Prints lib) (same : SameEnv lib browser doc) (there : ¬ EnvMissing doc.member) :
    orFalse (cfg (reloaded lib browser doc) "omada_device_enable") = orFalse (cfg doc.member "omada_device_enable") ↔
      ∀ v, Shown doc "omada_device_enable" v → orFalse v = false := by
  rw [read_reloaded_iff prints same there orFalse deviceEnable_setting fun _ _ => orFalse_rereading _,
    and_iff_left (orFalse_rereading _)]
  exact forall₂_congr fun v _ => by rw [orFalse_rereading, orFalse_retyped_iff prints]

theorem settings_reloaded_iff (prints : Prints lib) (same : SameEnv lib browser doc) (there : ¬ EnvMissing doc.member)
    (loadable : Loadable (cfg doc.member)) :
    settings (cfg (reloaded lib browser doc)) = settings (cfg doc.member) ↔ FormKept lib browser doc := by
  rw [settings_eq_iff, flag_reloaded_iff prints same there]
  constructor
  · rintro ⟨texts, -, numbers, deviceEnable⟩
    exact
      { texts := fun key inside => (text_reloaded_iff prints same there inside).mp (texts key inside)
        numbers := fun setting inside => ((number_reloaded_iff prints same there inside).mp (numbers setting inside)).1
        deviceEnable
        overrides := fun setting inside => ((number_reloaded_iff prints same there inside).mp (numbers setting inside)).2 }
  · rintro ⟨texts, numbers, deviceEnable, overrides⟩
    refine ⟨fun key inside => (text_reloaded_iff prints same there inside).mpr (texts key inside),
      networkKey_reloaded prints same there loadable, fun setting inside => ?_, deviceEnable⟩
    exact (number_reloaded_iff prints same there inside).mpr ⟨numbers setting inside, overrides setting inside⟩

end

/-! ## The round trip -/

section
variable {text : Text} {doc : Value F} (outcome : WriteOutcome)

theorem handleProvisionSave_file (lib : Library F) (file : Option Text) (params : List (Text × Text)) :
    (handleProvisionSave lib outcome file params).2 =
      (mergeAndSaveConfig lib outcome file (lib.serialize (postedConfig (maskedConfig lib file) params))).2 := by
  unfold handleProvisionSave
  split
  · next same => rw [same]
  · next same => rw [same]

theorem loaded (read : lib.deserialize text = some doc) (loads : (loadConfig lib (some text)).isSome) :
    loadConfig lib (some text) = some (settings (cfg doc.member)) := by
  rw [loadConfig_eq read] at loads ⊢
  split_ifs at loads ⊢ with missing complete
  · cases loads
  · rfl
  · cases loads

/-- The document that a save of the form writes. -/
def mergedForm (lib : Library F) (browser : Browser) (text : Text) (doc : Value F) : Value F :=
  merge doc (lib.rereading (returnedConfig lib browser (some text)))

theorem member_mergedForm (read : lib.deserialize text = some doc) (object : doc.IsObject)
    (keepsMasked : lib.Keeps (maskSecrets doc)) (keepsPosted : lib.Keeps (returnedConfig lib browser (some text)))
    (intact : Intact lib browser doc) :
    ∀ key ∈ configKeys, (mergedForm lib browser text doc).member key.toList = resubmitted lib browser doc key.toList := by
  intro key inside
  cases doc with
  | object members => rw [mergedForm, member_merge object keepsPosted.whole, member_resubmitted read keepsMasked intact inside]
  | _ => cases object

/-- On a page that keeps its inputs, nothing changes exactly when nothing is written, or
    all of it is and the settings are read again from it. -/
theorem unchanged_iff_settings (read : lib.deserialize text = some doc) (loads : (loadConfig lib (some text)).isSome)
    (keepsMasked : lib.Keeps (maskSecrets doc)) (keepsPosted : lib.Keeps (returnedConfig lib browser (some text)))
    (keepsMerged : lib.Keeps (mergedForm lib browser text doc)) (intact : Intact lib browser doc) :
    loadConfig lib (handleProvisionSave lib outcome (some text) (browser.submit (provisionFormHtml lib (some text)))).2 =
        loadConfig lib (some text) ↔
      (Accepted (resubmitted lib browser doc) → outcome.opens = true →
        outcome.Whole (lib.serialize (mergedForm lib browser text doc)) ∧
          settings (cfg (reloaded lib browser doc)) = settings (cfg doc.member)) := by
  have object := object_of_loads read loads
  have complete : Complete (settings (cfg doc.member)) := complete_iff.mpr ((loads_iff read).mp loads).2
  have merged := member_mergedForm read object keepsMasked keepsPosted intact
  rw [handleProvisionSave_file, ← returnedConfig, loaded read loads, ← accepted_congr merged]
  rcases mergeAndSaveConfig_cases outcome read keepsPosted.whole with ⟨accepted, opens, done⟩ | ⟨refused, err, done⟩
  · have kept := read_written outcome keepsMerged (merge_object object)
    rw [← mergedForm] at accepted done
    simp only [done, accepted, opens, forall_const]
    by_cases whole : outcome.Whole (lib.serialize (mergedForm lib browser text doc))
    · have again : settings (cfg fun key => lib.rereading ((mergedForm lib browser text doc).member key)) =
          settings (cfg (reloaded lib browser doc)) :=
        settings_congr fun key inside => congrArg lib.rereading (merged key inside)
      have there : ¬ EnvMissing fun key => lib.rereading ((mergedForm lib browser text doc).member key) :=
        mt (envMissing_rereading lib _).mp accepted.1
      rw [if_pos whole] at kept
      rw [loadConfig_eq kept, rereading_member, if_neg there, and_iff_right whole, again]
      by_cases sound : Complete (settings (cfg (reloaded lib browser doc)))
      · rw [if_pos sound]
        exact Option.some_inj
      · rw [if_neg sound]
        refine iff_of_false (by simp) fun same => sound ?_
        rw [same]
        exact complete
    · rw [if_neg whole] at kept
      simp [whole, loadConfig, kept]
  · rw [← mergedForm] at refused
    rw [done, loaded read loads]
    exact iff_of_true rfl fun accepted opens => absurd ⟨accepted, opens⟩ refused

/-- Sending the form back unchanged leaves what is loaded when the page keeps its inputs
    and the save is refused, or the file cannot be opened, or is written whole, with the
    environment that it had, and no setting is read from a value that comes back as another.
    On a page that keeps its inputs, where the environment stays the one, it does so only
    then. -/
theorem form_unchanged (prints : Prints lib) (read : lib.deserialize text = some doc)
    (loads : (loadConfig lib (some text)).isSome) (keepsMasked : lib.Keeps (maskSecrets doc))
    (keepsPosted : lib.Keeps (returnedConfig lib browser (some text)))
    (keepsMerged : lib.Keeps (mergedForm lib browser text doc)) :
    let saved := (handleProvisionSave lib outcome (some text) (browser.submit (provisionFormHtml lib (some text)))).2
    let whole := outcome.Whole (lib.serialize (mergedForm lib browser text doc))
    (Intact lib browser doc →
        (Accepted (resubmitted lib browser doc) → outcome.opens = true →
          whole ∧ SameEnv lib browser doc ∧ FormKept lib browser doc) →
        loadConfig lib saved = loadConfig lib (some text)) ∧
      (Intact lib browser doc → SameEnv lib browser doc → loadConfig lib saved = loadConfig lib (some text) →
        Accepted (resubmitted lib browser doc) → outcome.opens = true → whole ∧ FormKept lib browser doc) := by
  intro saved whole
  obtain ⟨there, loadable⟩ := (loads_iff read).mp loads
  have unchanged (intact : Intact lib browser doc) :=
    unchanged_iff_settings outcome read loads keepsMasked keepsPosted keepsMerged intact
  refine ⟨fun intact kept => (unchanged intact).mpr fun accepted opens => ?_,
    fun intact same again accepted opens => ?_⟩
  · obtain ⟨all, same, kept⟩ := kept accepted opens
    exact ⟨all, (settings_reloaded_iff prints same there loadable).mpr kept⟩
  · obtain ⟨all, settings⟩ := (unchanged intact).mp again accepted opens
    exact ⟨all, (settings_reloaded_iff prints same there loadable).mp settings⟩

end

end

/-! ## A form, filled in -/

/-- Where a page is read: in its text, in a name or a value, between the two, and in the
    rest of a tag. -/
inductive Place where
  | page
  | name (begun : Text)
  | between (name : Text)
  | value (name begun : Text)
  | tag

/-- The names and the values of the inputs of a page, where each is in quotes. -/
def inputs : Place → Text → List (Text × Text)
  | _, [] => []
  | .page, c :: rest => if c = '"' then inputs (.name []) rest else inputs .page rest
  | .name begun, c :: rest => if c = '"' then inputs (.between begun) rest else inputs (.name (begun ++ [c])) rest
  | .between name, c :: rest => if c = '"' then inputs (.value name []) rest else inputs (.between name) rest
  | .value name begun, c :: rest =>
    if c = '"' then (name, begun) :: inputs .tag rest else inputs (.value name (begun ++ [c])) rest
  | .tag, c :: rest => if c = '>' then inputs .page rest else inputs .tag rest

section
variable {text : Text} {rest : Text}

theorem inputs_page (unquoted : '"' ∉ text) : inputs .page (text ++ rest) = inputs .page rest := by
  induction text with
  | nil => rfl
  | cons c text ih =>
    obtain ⟨here, later⟩ := not_or.mp (mt List.mem_cons.mpr unquoted)
    rw [List.cons_append, inputs, if_neg (Ne.symm here), ih later]

theorem inputs_name (unquoted : '"' ∉ text) (begun : Text) :
    inputs (.name begun) (text ++ '"' :: rest) = inputs (.between (begun ++ text)) rest := by
  induction text generalizing begun with
  | nil => rw [List.nil_append, inputs, if_pos rfl, List.append_nil]
  | cons c text ih =>
    obtain ⟨here, later⟩ := not_or.mp (mt List.mem_cons.mpr unquoted)
    rw [List.cons_append, inputs, if_neg (Ne.symm here), ih later, List.append_assoc, List.singleton_append]

theorem inputs_between (unquoted : '"' ∉ text) (name : Text) :
    inputs (.between name) (text ++ '"' :: rest) = inputs (.value name []) rest := by
  induction text with
  | nil => rw [List.nil_append, inputs, if_pos rfl]
  | cons c text ih =>
    obtain ⟨here, later⟩ := not_or.mp (mt List.mem_cons.mpr unquoted)
    rw [List.cons_append, inputs, if_neg (Ne.symm here), ih later]

theorem inputs_value (unquoted : '"' ∉ text) (name begun : Text) :
    inputs (.value name begun) (text ++ '"' :: rest) = (name, begun ++ text) :: inputs .tag rest := by
  induction text generalizing begun with
  | nil => rw [List.nil_append, inputs, if_pos rfl, List.append_nil]
  | cons c text ih =>
    obtain ⟨here, later⟩ := not_or.mp (mt List.mem_cons.mpr unquoted)
    rw [List.cons_append, inputs, if_neg (Ne.symm here), ih later, List.append_assoc, List.singleton_append]

theorem inputs_tag (unclosed : '>' ∉ text) : inputs .tag (text ++ '>' :: rest) = inputs .page rest := by
  induction text with
  | nil => rw [List.nil_append, inputs, if_pos rfl]
  | cons c text ih =>
    obtain ⟨here, later⟩ := not_or.mp (mt List.mem_cons.mpr unclosed)
    rw [List.cons_append, inputs, if_neg (Ne.symm here), ih later]

end

/-- A value in quotes ends at its own first quote, or at the closing one. -/
theorem closed_value (text rest : Text) : ∃ skipped, (∀ c ∈ skipped, c = '"' ∨ c ∈ afterQuote text) ∧
    text ++ '"' :: rest = beforeQuote text ++ '"' :: (skipped ++ rest) := by
  induction text with
  | nil => exact ⟨[], List.forall_mem_nil _, rfl⟩
  | cons c text ih =>
    by_cases quote : c = '"'
    · subst quote
      refine ⟨text ++ ['"'], fun c inside => ?_, ?_⟩
      · exact (List.mem_append.mp inside).symm.imp List.mem_singleton.mp id
      · rw [List.append_assoc]
        rfl
    · obtain ⟨skipped, within, ends⟩ := ih
      have before : beforeQuote (c :: text) = c :: beforeQuote text := List.takeWhile_cons_of_pos (by simpa using quote)
      have after : afterQuote (c :: text) = afterQuote text :=
        congrArg List.tail (List.dropWhile_cons_of_pos (by simpa using quote))
      refine ⟨skipped, after ▸ within, ?_⟩
      rw [before, List.cons_append, ends, List.cons_append]

theorem inputs_fields {label name value style gap after : Text}
    (texts : ∀ text ∈ [label, name, value, gap, after], '"' ∉ text) (unclosed : '>' ∉ style)
    {fields : List (Text × Text)} (contained : ∀ field ∈ fields, Contained field) {before : Text} (head : '"' ∉ before) :
    inputs .page
        (before ++
            fields.flatMap (fun field =>
              label ++ field.1 ++ name ++ quoted field.1 ++ value ++ quoted field.2 ++ (style ++ '>' :: gap)) ++
          after) =
      fields.map fun field => (field.1, beforeQuote field.2) := by
  simp only [List.forall_mem_cons] at texts
  obtain ⟨inLabel, inName, inValue, inGap, inAfter, -⟩ := texts
  induction fields generalizing before with
  | nil =>
    rw [List.flatMap_nil, List.append_nil, inputs_page head, ← List.append_nil after, inputs_page inAfter]
    rfl
  | cons field rest ih =>
    obtain ⟨here, later⟩ := List.forall_mem_cons.mp contained
    have opening : '"' ∉ before ++ (label ++ (field.1 ++ name)) := by simp [head, inLabel, inName, here.name]
    have opened (page : Text) :
        inputs .page (before ++ (label ++ (field.1 ++ (name ++ '"' :: page)))) = inputs (.name []) page := by
      have read := @inputs_page _ ('"' :: page) opening
      rw [inputs, if_pos rfl] at read
      simpa only [List.append_assoc] using read
    have closed (page : Text) : inputs (.value field.1 []) (field.2 ++ '"' :: (style ++ '>' :: page)) =
        (field.1, beforeQuote field.2) :: inputs .page page := by
      obtain ⟨skipped, within, ends⟩ := closed_value field.2 (style ++ '>' :: page)
      have inTag : '>' ∉ skipped ++ style := by
        refine List.not_mem_append (fun inside => ?_) unclosed
        exact (within _ inside).elim (by decide) here.close
      have unquoted : '"' ∉ beforeQuote field.2 := fun inside => by simpa using List.mem_takeWhile_imp inside
      rw [ends, inputs_value unquoted, List.nil_append, ← List.append_assoc, inputs_tag inTag]
    simp only [List.flatMap_cons, quoted, List.append_assoc, List.cons_append, List.nil_append] at ih ⊢
    rw [opened, inputs_name here.name, List.nil_append, inputs_between inValue, closed, ih later inGap, List.map_cons]

theorem inputs_form {fields : List (Text × Text)} (contained : ∀ field ∈ fields, Contained field) :
    inputs .page (formHtml fields) = fields.map fun field => (field.1, beforeQuote field.2) := by
  have head : '"' ∉ formHead := by decide +kernel
  unfold formHtml formInput
  exact @inputs_fields _ _ _ " style='width:100%;margin-bottom:.7em'".toList "<br>".toList _ (by decide +kernel)
    (by decide +kernel) _ contained _ head

/-- A browser on pages whose inputs are apart, and have no character references. -/
def quoteBrowser : Browser where
  submit html := (inputs .page html).filter (·.1 ≠ [])
  name := id
  value := id
  submits _ contained := by
    rw [inputs_form contained]
    rfl
  name_plain _ := rfl
  value_plain _ := rfl

theorem word_toString (z : Int) : (toString z).toList ≠ [] ∧ (toString z).toList.all isWordChar := by
  have digit (number : Nat) : (Nat.toDigits 10 number).all isWordChar := by
    refine List.all_eq_true.mpr fun c inside => ?_
    simp [isWordChar, Char.isAlphanum, isDigit_toDigits c inside]
  rw [toList_toString]
  split
  · exact ⟨Nat.toDigits_ne_nil, digit _⟩
  · exact ⟨List.cons_ne_nil _ _, by rw [List.all_cons, digit]; rfl⟩

theorem word_print {v : Value Empty} (word : IsWord v) : JsonDoc.print v ≠ [] ∧ (JsonDoc.print v).all isWordChar := by
  cases v with
  | null => decide +kernel
  | bool b => cases b <;> decide +kernel
  | int z => exact word_toString z
  | float x => cases x
  | _ => cases word

theorem prints_printing {docs : List (Value Empty)} {distinct : ∀ doc ∈ docs, (doc.members.map (·.1)).Nodup} :
    Prints (JsonDoc.printing docs distinct) where
  int _ := rfl
  nonempty word := (word_print word).1
  word word := (word_print word).2

/-- The configuration with more members. -/
def extended (more : List (Text × Value Empty)) : Value Empty := .object (setUp.members ++ more)

/-- Its inputs, and what the others show. -/
def extendedFields (shown : List (Text × Text)) : List (Text × Text) :=
  [("wifi_ssid".toList, "EllaFi".toList), ("wifi_password".toList, mask), ("omada_url".toList, "https://10.0.0.2".toList),
    ("omada_controller_id".toList, "c1".toList), ("omada_username".toList, "admin".toList),
    ("omada_password".toList, mask), ("network_key".toList, mask)] ++ shown

def extendedSent (shown : List (Text × Text)) : List (Text × Text) :=
  (extendedFields shown).map fun field => (field.1, beforeQuote field.2)

def extendedPosted (more : List (Text × Value Empty)) (shown : List (Text × Text)) : Value Empty :=
  postedConfig (maskSecrets (extended more)) (extendedSent shown)

def extendedDocs (more : List (Text × Value Empty)) (shown : List (Text × Text)) : List (Value Empty) :=
  [extended more, maskSecrets (extended more), extendedPosted more shown,
    merge (extended more) (extendedPosted more shown)]

theorem submit_extended {lib : Library Empty} {file : Option Text} {more : List (Text × Value Empty)}
    {shown : List (Text × Text)} (config : maskedConfig lib file = maskSecrets (extended more))
    (fields : formFields lib (maskSecrets (extended more)) = extendedFields shown)
    (contained : ∀ field ∈ extendedFields shown, Contained field) (named : ∀ field ∈ extendedSent shown, field.1 ≠ []) :
    quoteBrowser.submit (provisionFormHtml lib file) = extendedSent shown := by
  rw [provisionFormHtml, config, fields, quoteBrowser.submits _ contained]
  exact List.filter_eq_self.mpr fun field inside => decide_eq_true (named field inside)

/-- A note with quotes in it, and a member that is not shown. -/
def shopMembers : List (Text × Value Empty) :=
  [("note".toList, .text "the \"big\" shop".toList), ("a&b".toList, .object [("c".toList, .int 1)])]

def shopShown : List (Text × Text) := [("note".toList, "the \"big\" shop".toList)]

def shopLibrary : Library Empty := JsonDoc.printing (extendedDocs shopMembers shopShown) (by decide +kernel)

def shopFile : Text := JsonDoc.print (extended shopMembers)

theorem keeps_shop {doc : Value Empty} (inside : doc ∈ extendedDocs shopMembers shopShown) : shopLibrary.Keeps doc := by
  have apart : ((extendedDocs shopMembers shopShown).map JsonDoc.print).Nodup ∧
      ∀ doc ∈ extendedDocs shopMembers shopShown, ∀ other ∈ extendedDocs shopMembers shopShown,
        JsonDoc.print other <+: JsonDoc.print doc → JsonDoc.print other = JsonDoc.print doc := by
    decide +kernel
  exact JsonDoc.keeps_of_mem apart.1 apart.2 inside

theorem read_shop : shopLibrary.deserialize shopFile = some (extended shopMembers) :=
  JsonDoc.read_printing [] (List.forall_mem_nil _)

theorem masked_shop : shopLibrary.Keeps (maskSecrets (extended shopMembers)) := keeps_shop (by simp [extendedDocs])

theorem returned_shop :
    returnedConfig shopLibrary quoteBrowser (some shopFile) = extendedPosted shopMembers shopShown := by
  have config : maskedConfig shopLibrary (some shopFile) = maskSecrets (extended shopMembers) := by
    rw [maskedConfig, maskedConfigJson, Option.bind_some, read_shop, masked_shop.whole, Option.getD_some]
    exact JsonDoc.rereading_printing _
  have sent : quoteBrowser.submit (provisionFormHtml shopLibrary (some shopFile)) = extendedSent shopShown :=
    submit_extended config (by decide +kernel) (by decide +kernel) (by decide +kernel)
  rw [returnedConfig, sent, config, extendedPosted]

theorem intact_shop : Intact shopLibrary quoteBrowser (extended shopMembers) where
  contained := by decide +kernel
  own := by decide +kernel

/-- The configuration overrides nothing, and has texts and no more where settings are read. -/
theorem settings_shop :
    (∀ key ∈ settingKeys, (override (extended shopMembers) key).isNull) ∧
      (∀ v ∈ (extended shopMembers).members.lookup "active_env".toList, SameText quoteBrowser v) ∧
      (∀ key ∈ textSettings, ∀ v ∈ (extended shopMembers).members.lookup key.toList, SameText quoteBrowser v) ∧
      (∀ setting ∈ numberSettings, ∀ v ∈ (extended shopMembers).members.lookup setting.1.toList, 0 ≤ orInt 0 v) ∧
      ∀ v ∈ (extended shopMembers).members.lookup "omada_device_enable".toList, orFalse v = false := by
  decide +kernel

theorem sameEnv_shop : SameEnv shopLibrary quoteBrowser (extended shopMembers) where
  chosen v there := settings_shop.2.1 v there
  overrides key inside _ := .inl (settings_shop.1 key inside)

theorem kept_shop : FormKept shopLibrary quoteBrowser (extended shopMembers) where
  texts key inside v shown := settings_shop.2.2.1 key inside v shown.there
  numbers setting inside v shown := settings_shop.2.2.2.1 setting inside v shown.there
  deviceEnable v shown := settings_shop.2.2.2.2 v shown.there
  overrides _ _ := congrArg (orInt _) (JsonDoc.rereading_printing _)

/-- The note, which is no setting, is cut at its first quote. -/
theorem shop_form_unchanged :
    loadConfig shopLibrary
        (handleProvisionSave shopLibrary saveWhole (some shopFile)
          (quoteBrowser.submit (provisionFormHtml shopLibrary (some shopFile)))).2 =
      loadConfig shopLibrary (some shopFile) := by
  have posted : shopLibrary.Keeps (extendedPosted shopMembers shopShown) := keeps_shop (by simp [extendedDocs])
  have merged : shopLibrary.Keeps (merge (extended shopMembers) (extendedPosted shopMembers shopShown)) :=
    keeps_shop (by simp [extendedDocs])
  have reread : shopLibrary.rereading (extendedPosted shopMembers shopShown) = extendedPosted shopMembers shopShown :=
    JsonDoc.rereading_printing _
  have written : mergedForm shopLibrary quoteBrowser shopFile (extended shopMembers) =
      merge (extended shopMembers) (extendedPosted shopMembers shopShown) := by
    rw [mergedForm, returned_shop, reread]
  refine (@form_unchanged _ shopLibrary quoteBrowser _ _ saveWhole prints_printing read_shop (by decide +kernel)
    masked_shop ?_ ?_).1 intact_shop fun _ _ => ⟨fun count stops => ?_, sameEnv_shop, kept_shop⟩
  · rw [returned_shop]
    exact posted
  · rw [written]
    exact merged
  · cases stops

def deviceMembers : List (Text × Value Empty) := [("omada_device_enable".toList, .bool true)]

def deviceShown : List (Text × Text) := [("omada_device_enable".toList, "true".toList)]

def deviceLibrary : Library Empty := JsonDoc.printing (extendedDocs deviceMembers deviceShown) (by decide +kernel)

/-- The flag of the devices comes back as a text, which is no flag. -/
theorem device_flag_lost :
    let file := some (JsonDoc.print (extended deviceMembers))
    let saved := handleProvisionSave deviceLibrary saveWhole file (quoteBrowser.submit (provisionFormHtml deviceLibrary file))
    saved.1.restarts = true ∧ (loadConfig deviceLibrary file).map (·.omadaDeviceEnable) = some true ∧
      (loadConfig deviceLibrary saved.2).map (·.omadaDeviceEnable) = some false := by
  have read : deviceLibrary.deserialize (JsonDoc.print (extended deviceMembers)) = some (extended deviceMembers) :=
    JsonDoc.read_printing [] (List.forall_mem_nil _)
  have masked : deviceLibrary.Keeps (maskSecrets (extended deviceMembers)) :=
    JsonDoc.keeps_printing [extended deviceMembers] (by decide +kernel) (by decide +kernel)
  intro file saved
  have config : maskedConfig deviceLibrary file = maskSecrets (extended deviceMembers) := by
    rw [maskedConfig, maskedConfigJson, Option.bind_some, read, masked.whole, Option.getD_some]
    exact JsonDoc.rereading_printing _
  have sent : quoteBrowser.submit (provisionFormHtml deviceLibrary file) = extendedSent deviceShown :=
    submit_extended config (by decide +kernel) (by decide +kernel) (by decide +kernel)
  simp only [saved, sent]
  decide +kernel

end EllaFi.ProvisionForm
