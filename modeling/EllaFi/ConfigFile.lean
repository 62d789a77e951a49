import EllaFi.JsonDoc
import Mathlib.Algebra.Order.Ring.Int

/-!
The configuration file: how it is loaded, shown with its secrets masked, and saved with
what was posted merged into it, key by key (`member_merge`). The saver asks of a required
field only that it is there and no empty text, but the loader asks for texts and for a
number, so what is saved loads exactly when the effective fields are of these types as
they are read again, and the file was written whole (`saved_loads_iff`).
-/
namespace EllaFi.ConfigFile
open EllaFi.TextLines (Text cString digits)
open EllaFi.JsonDoc (Value Library)

section
variable {F : Type}

/-! ## Reading a document -/

/-- The text that a value is, up to its first NUL. -/
def chars : Value F → Option Text
  | .text s => some (cString s)
  | _ => none

def orEmpty (v : Value F) : Text := (chars v).getD []

/-- `| 0ULL` -/
def orZero : Value F → Nat
  | .int z => if 0 ≤ z ∧ z < 2 ^ 64 then z.toNat else 0
  | _ => 0

def orInt (otherwise : Int) : Value F → Int
  | .int z => if -2 ^ 31 ≤ z ∧ z < 2 ^ 31 then z else otherwise
  | _ => otherwise

def orFalse : Value F → Bool
  | .bool b => b
  | _ => false

def asObject : Value F → Value F
  | .object members => .object members
  | _ => .null

/-- The values that loading sets. -/
structure Settings where
  managementSsid : Text
  managementPassword : Text
  controllerBaseUrl : Text
  controllerId : Text
  adminUsername : Text
  adminPassword : Text
  masterMac : Text
  netKey : Nat
  minutesPerCoin : Int
  pricePerCoin : Int
  fallbackPricePerVoucher : Int
  healthcheckUrl : Text
  omadaDeviceEnable : Bool
  staticIp : Text
  staticGateway : Text
  staticSubnet : Text
  staticDns : Text
deriving DecidableEq, Repr

section
variable (member : Text → Value F)

def activeEnv : Text := orEmpty (member "active_env".toList)

/-- The chosen environment; null where none is chosen or it is none. -/
def environment : Value F :=
  if activeEnv member = [] then .null else asObject ((member "environments".toList).member (activeEnv member))

def EnvMissing : Prop := activeEnv member ≠ [] ∧ (environment member).isNull

instance : Decidable (EnvMissing member) := inferInstanceAs (Decidable (_ ∧ _))

/-- A key of the chosen environment overrides the base key. -/
def cfg (key : String) : Value F :=
  if ((environment member).member key.toList).isNull then member key.toList else (environment member).member key.toList

end

def settings (cfg : String → Value F) : Settings where
  managementSsid := orEmpty (cfg "wifi_ssid")
  managementPassword := orEmpty (cfg "wifi_password")
  controllerBaseUrl := orEmpty (cfg "omada_url")
  controllerId := orEmpty (cfg "omada_controller_id")
  adminUsername := orEmpty (cfg "omada_username")
  adminPassword := orEmpty (cfg "omada_password")
  masterMac := orEmpty (cfg "master_mac")
  netKey := orZero (cfg "network_key")
  minutesPerCoin := orInt 24 (cfg "minutes_per_coin")
  pricePerCoin := orInt 1 (cfg "price_per_coin")
  fallbackPricePerVoucher := orInt 5 (cfg "fallback_price_per_voucher")
  healthcheckUrl := orEmpty (cfg "healthchecks_url")
  omadaDeviceEnable := orFalse (cfg "omada_device_enable")
  staticIp := orEmpty (cfg "static_ip")
  staticGateway := orEmpty (cfg "static_gateway")
  staticSubnet := orEmpty (cfg "static_subnet")
  staticDns := orEmpty (cfg "static_dns")

structure Complete (s : Settings) : Prop where
  managementSsid : s.managementSsid ≠ []
  managementPassword : s.managementPassword ≠ []
  controllerBaseUrl : s.controllerBaseUrl ≠ []
  controllerId : s.controllerId ≠ []
  adminUsername : s.adminUsername ≠ []
  adminPassword : s.adminPassword ≠ []
  netKey : s.netKey ≠ 0

instance (s : Settings) : Decidable (Complete s) :=
  decidable_of_iff (s.managementSsid ≠ [] ∧ s.managementPassword ≠ [] ∧ s.controllerBaseUrl ≠ [] ∧
      s.controllerId ≠ [] ∧ s.adminUsername ≠ [] ∧ s.adminPassword ≠ [] ∧ s.netKey ≠ 0)
    ⟨fun ⟨a, b, c, d, e, f, g⟩ => ⟨a, b, c, d, e, f, g⟩, fun ⟨a, b, c, d, e, f, g⟩ => ⟨a, b, c, d, e, f, g⟩⟩

section
variable (lib : Library F)

def loadConfig (file : Option Text) : Option Settings :=
  match file.bind lib.deserialize with
  | none => none
  | some doc =>
    if EnvMissing doc.member then none
    else if Complete (settings (cfg doc.member)) then some (settings (cfg doc.member))
    else none

/-! ## Masking -/

def mask : Text := "••••••••".toList

def Secret (key : Text) : Prop :=
  "password".toList <:+: (cString key).map Char.toLower ∨ "secret".toList <:+: (cString key).map Char.toLower ∨
    (cString key).map Char.toLower = "network_key".toList

instance (key : Text) : Decidable (Secret key) := inferInstanceAs (Decidable (_ ∨ _ ∨ _))

end

mutual

def maskSecrets : Value F → Value F
  | .object members => .object (maskMembers members)
  | .array items => .array (maskItems items)
  | .null => .null
  | .bool b => .bool b
  | .int z => .int z
  | .float x => .float x
  | .text s => .text s

def maskItems : List (Value F) → List (Value F)
  | [] => []
  | item :: rest => maskSecrets item :: maskItems rest

def maskMembers : List (Text × Value F) → List (Text × Value F)
  | [] => []
  | (key, value) :: rest => (key, if Secret key then .text mask else maskSecrets value) :: maskMembers rest

end

/-- Empty where the file cannot be read. -/
def maskedConfigJson (lib : Library F) (file : Option Text) : Text :=
  match file.bind lib.deserialize with
  | none => []
  | some doc => lib.serialize (maskSecrets doc)

/-! ## Merging and saving -/

def IsInteger : Value F → Prop
  | .int z => -2 ^ 63 ≤ z ∧ z < 2 ^ 64
  | _ => False

instance : ∀ v : Value F, Decidable (IsInteger v)
  | .int _ => inferInstanceAs (Decidable (_ ∧ _))
  | .null | .bool _ | .float _ | .text _ | .array _ | .object _ => .isFalse id

def IsNumeric (s : Text) : Prop := s ≠ [] ∧ s.all Char.isDigit

instance (s : Text) : Decidable (IsNumeric s) := inferInstanceAs (Decidable (_ ∧ _))

/-- A number beyond the 64 bits is read as the greatest one within. -/
def strtoull (s : Text) : Int := min (digits 0 s) (2 ^ 64 - 1)

/-- A posted member in the merged document. The mask is left out, and a text of digits
    stays a number where one was. -/
def mergeMember (merged : Value F) : Text × Value F → Value F
  | (key, .text s) =>
    if cString s = mask then merged
    else if IsInteger (merged.member key) ∧ IsNumeric (cString s) then merged.setMember key (.int (strtoull (cString s)))
    else merged.setMember key (.text s)
  | (key, value) => merged.setMember key value

def merge (current posted : Value F) : Value F := posted.members.foldl mergeMember current

def requiredFields : List String :=
  ["wifi_ssid", "wifi_password", "omada_url", "omada_controller_id", "omada_username", "omada_password", "network_key"]

/-- No value, or an empty text. -/
def Blank (v : Value F) : Prop := v.isNull ∨ chars v = some []

instance (v : Value F) : Decidable (Blank v) := inferInstanceAs (Decidable (_ ∨ _))

/-- What becomes of the file that is written. -/
structure WriteOutcome where
  opens : Bool
  /-- How many characters are written, where not all are. -/
  stops : Option Nat
deriving DecidableEq, Repr

def WriteOutcome.written (outcome : WriteOutcome) (text : Text) : Text :=
  match outcome.stops with
  | none => text
  | some count => text.take count

/-- The error, where it fails, and the file that it leaves. -/
def mergeAndSaveConfig (lib : Library F) (outcome : WriteOutcome) (file : Option Text) (body : Text) :
    Option String × Option Text :=
  match lib.deserialize body with
  | none => (some "Bad JSON", file)
  | some doc =>
    let merged := merge ((file.bind lib.deserialize).getD .null) doc
    if EnvMissing merged.member then
      (some ("active_env \"" ++ String.ofList (activeEnv merged.member) ++ "\" not found in environments"), file)
    else
      match requiredFields.find? fun key => Blank (cfg merged.member key) with
      | some key => (some ("Missing required field: " ++ key), file)
      | none =>
        if outcome.opens then (none, some (outcome.written (lib.serialize merged))) else (some "Failed to write", file)

end

/-! ## What is loaded -/

def requiredTexts : List String :=
  ["wifi_ssid", "wifi_password", "omada_url", "omada_controller_id", "omada_username", "omada_password"]

section
variable {F : Type}

/-- The texts are texts with something in them, and the key of the network is a number. -/
structure Loadable (cfg : String → Value F) : Prop where
  texts : ∀ key ∈ requiredTexts, ∃ s, cfg key = .text s ∧ cString s ≠ []
  networkKey : ∃ z, cfg "network_key" = .int z ∧ 0 < z ∧ z < 2 ^ 64

theorem orEmpty_ne_iff {v : Value F} : orEmpty v ≠ [] ↔ ∃ s, v = .text s ∧ cString s ≠ [] := by
  cases v <;> simp [orEmpty, chars]

theorem orZero_ne_iff {v : Value F} : orZero v ≠ 0 ↔ ∃ z, v = .int z ∧ 0 < z ∧ z < 2 ^ 64 := by
  cases v with
  | int z =>
    simp only [orZero, Value.int.injEq, exists_eq_left']
    split <;> omega
  | _ => simp [orZero]

theorem complete_iff {cfg : String → Value F} : Complete (settings cfg) ↔ Loadable cfg := by
  constructor
  · intro complete
    refine ⟨?_, orZero_ne_iff.mp complete.netKey⟩
    simp only [requiredTexts, List.forall_mem_cons, ← orEmpty_ne_iff]
    exact ⟨complete.managementSsid, complete.managementPassword, complete.controllerBaseUrl, complete.controllerId,
      complete.adminUsername, complete.adminPassword, List.forall_mem_nil _⟩
  · rintro ⟨texts, networkKey⟩
    simp only [requiredTexts, List.forall_mem_cons, ← orEmpty_ne_iff] at texts
    obtain ⟨ssid, password, url, id, username, adminPassword, -⟩ := texts
    exact ⟨ssid, password, url, id, username, adminPassword, orZero_ne_iff.mpr networkKey⟩

section
variable {lib : Library F} {text : Text} {doc : Value F}

theorem loadConfig_eq (read : lib.deserialize text = some doc) :
    loadConfig lib (some text) =
      if EnvMissing doc.member then none
      else if Complete (settings (cfg doc.member)) then some (settings (cfg doc.member))
      else none := by
  rw [loadConfig, Option.bind_some, read]

theorem loads_iff (read : lib.deserialize text = some doc) :
    (loadConfig lib (some text)).isSome ↔ ¬ EnvMissing doc.member ∧ Loadable (cfg doc.member) := by
  rw [loadConfig_eq read, ← complete_iff]
  by_cases missing : EnvMissing doc.member <;> by_cases complete : Complete (settings (cfg doc.member)) <;>
    simp [missing, complete]

/-- A document that loads is an object. -/
theorem object_of_loads (read : lib.deserialize text = some doc) (loads : (loadConfig lib (some text)).isSome) :
    doc.IsObject := by
  obtain ⟨z, found, -⟩ := ((loads_iff read).mp loads).2.networkKey
  cases doc with
  | object members => trivial
  | _ => cases found

end

/-! ## What is saved and read again -/

section
variable (lib : Library F)

theorem chars_rereading (v : Value F) : chars (lib.rereading v) = chars v := by
  cases v with
  | float x =>
    rw [Library.rereading, Value.mapFloats]
    cases lib.reread x <;> rfl
  | _ => rfl

theorem asObject_rereading (v : Value F) : asObject (lib.rereading v) = lib.rereading (asObject v) := by
  cases v with
  | float x =>
    rw [Library.rereading, Value.mapFloats]
    cases lib.reread x <;> rfl
  | _ => rfl

theorem isNull_rereading_asObject (v : Value F) : (lib.rereading (asObject v)).isNull = (asObject v).isNull := by
  cases v <;> rfl

theorem activeEnv_rereading (member : Text → Value F) :
    activeEnv (fun key => lib.rereading (member key)) = activeEnv member := by
  rw [activeEnv, orEmpty, chars_rereading]
  rfl

theorem environment_rereading (member : Text → Value F) :
    environment (fun key => lib.rereading (member key)) = lib.rereading (environment member) := by
  unfold environment
  rw [activeEnv_rereading]
  by_cases chosen : activeEnv member = []
  · rw [if_pos chosen, if_pos chosen]
    rfl
  · rw [if_neg chosen, if_neg chosen, ← asObject_rereading, ← lib.member_rereading]

theorem envMissing_rereading (member : Text → Value F) :
    EnvMissing (fun key => lib.rereading (member key)) ↔ EnvMissing member := by
  unfold EnvMissing
  rw [activeEnv_rereading, environment_rereading]
  unfold environment
  split
  · exact Iff.rfl
  · rw [isNull_rereading_asObject]

theorem rereading_member (doc : Value F) : (lib.rereading doc).member = fun key => lib.rereading (doc.member key) :=
  funext (lib.member_rereading doc)

end

/-- What is posted under a key, in the place of what is there. -/
def mergeValue (cur : Value F) : Value F → Value F
  | .text s =>
    if cString s = mask then cur
    else if IsInteger cur ∧ IsNumeric (cString s) then .int (strtoull (cString s))
    else .text s
  | value => value

def mergedMember (current posted : Value F) (key : Text) : Value F :=
  match posted.members.lookup key with
  | none => current.member key
  | some value => mergeValue (current.member key) value

section
variable {current posted : Value F} {members : List (Text × Value F)}

theorem mergeMember_object (object : current.IsObject) (member : Text × Value F) : (mergeMember current member).IsObject := by
  obtain ⟨key, value⟩ := member
  cases value with
  | text s =>
    rw [mergeMember]
    split_ifs
    · exact object
    · exact Value.setMember_object object
    · exact Value.setMember_object object
  | _ => exact Value.setMember_object object

theorem member_mergeMember (object : current.IsObject) (member : Text × Value F) (key : Text) :
    (mergeMember current member).member key =
      if key = member.1 then mergeValue (current.member member.1) member.2 else current.member key := by
  obtain ⟨own, value⟩ := member
  cases value with
  | text s =>
    simp only [mergeMember, mergeValue]
    by_cases masked : cString s = mask
    · rw [if_pos masked, if_pos masked]
      split
      · next same => rw [same]
      · rfl
    · rw [if_neg masked, if_neg masked]
      by_cases number : IsInteger (current.member own) ∧ IsNumeric (cString s)
      · rw [if_pos number, if_pos number, Value.member_setMember object]
      · rw [if_neg number, if_neg number, Value.member_setMember object]
  | _ => exact Value.member_setMember object

theorem merge_object (object : current.IsObject) : (members.foldl mergeMember current).IsObject := by
  induction members generalizing current with
  | nil => exact object
  | cons first rest ih => exact ih (mergeMember_object object first)

/-- Each key is merged by itself. -/
theorem member_foldl_mergeMember (object : current.IsObject) (distinct : (members.map (·.1)).Nodup) (key : Text) :
    (members.foldl mergeMember current).member key =
      match members.lookup key with
      | none => current.member key
      | some value => mergeValue (current.member key) value := by
  induction members generalizing current with
  | nil => rfl
  | cons first rest ih =>
    rw [List.map_cons, List.nodup_cons] at distinct
    rw [List.foldl_cons, ih (mergeMember_object object first) distinct.2, Value.lookup_member,
      member_mergeMember object first]
    by_cases own : key = first.1
    · subst own
      simp [Value.lookup_fresh distinct.1]
    · simp [own]

theorem member_merge {lib : Library F} {body : Text} (object : current.IsObject)
    (posting : lib.deserialize body = some posted) (key : Text) :
    (merge current posted).member key = mergedMember current posted key := by
  cases posted with
  | object members => exact member_foldl_mergeMember object (lib.distinct posting) key
  | _ => rfl

end

/-! ## What is accepted -/

/-- No required field is blank, and the chosen environment is there. -/
def Accepted (member : Text → Value F) : Prop :=
  ¬ EnvMissing member ∧ ∀ key ∈ requiredFields, ¬ Blank (cfg member key)

/-- The whole text is written. -/
def WriteOutcome.Whole (outcome : WriteOutcome) (text : Text) : Prop := ∀ count ∈ outcome.stops, text.length ≤ count

instance (outcome : WriteOutcome) (text : Text) : Decidable (outcome.Whole text) :=
  inferInstanceAs (Decidable (∀ count ∈ outcome.stops, _))

section
variable {lib : Library F} {text body : Text} {current posted : Value F} (outcome : WriteOutcome)

theorem written_whole {outcome : WriteOutcome} (whole : outcome.Whole text) : outcome.written text = text := by
  unfold WriteOutcome.written
  split
  · rfl
  · next count stops => exact List.take_of_length_le (whole count stops)

theorem written_cut {outcome : WriteOutcome} (short : ¬ outcome.Whole text) : ∃ count < text.length, outcome.written text = text.take count := by
  simp only [WriteOutcome.Whole, not_forall, not_le] at short
  obtain ⟨count, stops, fewer⟩ := short
  exact ⟨count, fewer, by rw [WriteOutcome.written, Option.mem_def.mp stops]⟩

/-- What was written whole is read again, and an object only then. -/
theorem read_written (keeps : lib.Keeps current) (object : current.IsObject) :
    lib.deserialize (outcome.written (lib.serialize current)) =
      if outcome.Whole (lib.serialize current) then some (lib.rereading current) else none := by
  by_cases whole : outcome.Whole (lib.serialize current)
  · rw [if_pos whole, written_whole whole, keeps.whole]
  · rw [if_neg whole]
    obtain ⟨count, fewer, cut⟩ := written_cut whole
    rw [cut, keeps.cut object count fewer]

/-- A save writes what it merged when that is accepted and the file can be opened, and
    else leaves the file and says why. -/
theorem mergeAndSaveConfig_cases (read : lib.deserialize text = some current)
    (posting : lib.deserialize body = some posted) :
    (Accepted (merge current posted).member ∧ outcome.opens = true ∧
        mergeAndSaveConfig lib outcome (some text) body =
          (none, some (outcome.written (lib.serialize (merge current posted))))) ∨
      (¬ (Accepted (merge current posted).member ∧ outcome.opens = true) ∧
        ∃ err, mergeAndSaveConfig lib outcome (some text) body = (some err, some text)) := by
  simp only [mergeAndSaveConfig, posting, Option.bind_some, read, Option.getD_some]
  by_cases missing : EnvMissing (merge current posted).member
  · exact .inr ⟨fun both => both.1.1 missing, _, if_pos missing⟩
  · rw [if_neg missing]
    cases blank : requiredFields.find? fun key => Blank (cfg (merge current posted).member key) with
    | some key =>
      refine .inr ⟨fun both => both.1.2 key (List.mem_of_find?_eq_some blank) ?_, _, rfl⟩
      simpa using List.find?_some blank
    | none =>
      have filled : ∀ key ∈ requiredFields, ¬ Blank (cfg (merge current posted).member key) := by
        simpa using blank
      cases opens : outcome.opens with
      | true => exact .inl ⟨⟨missing, filled⟩, rfl, by simp⟩
      | false => exact .inr ⟨fun both => Bool.noConfusion both.2, "Failed to write", by simp⟩

/-- A file that loads is replaced by one that loads, or not at all, exactly when the
    posted text is none of a document, or what it makes of the configuration is refused,
    or the file cannot be opened, or is written whole and has the required texts and the
    number when it is read again. -/
theorem saved_loads_iff (read : lib.deserialize text = some current) (loads : (loadConfig lib (some text)).isSome)
    (keeps : ∀ posted, lib.deserialize body = some posted → lib.Keeps (merge current posted)) :
    let saved := mergeAndSaveConfig lib outcome (some text) body
    ((saved.1 = none → (loadConfig lib saved.2).isSome) ∧ (saved.1 ≠ none → saved.2 = some text)) ↔
      ∀ posted, lib.deserialize body = some posted → Accepted (mergedMember current posted) → outcome.opens = true →
        outcome.Whole (lib.serialize (merge current posted)) ∧
          Loadable (cfg fun key => lib.rereading (mergedMember current posted key)) := by
  intro saved
  have object := object_of_loads read loads
  cases posting : lib.deserialize body with
  | none => simp [saved, mergeAndSaveConfig, posting]
  | some posted =>
    have merged : (merge current posted).member = mergedMember current posted :=
      funext (member_merge object posting)
    simp only [Option.some.injEq, forall_eq']
    rcases mergeAndSaveConfig_cases outcome read posting with
      ⟨accepted, opens, done⟩ | ⟨refused, err, done⟩
    · have kept := read_written outcome (keeps posted posting) (merge_object object)
      simp only [saved, done, ne_eq, not_true_eq_false, false_implies, and_true, forall_const, opens, merged ▸ accepted]
      by_cases whole : outcome.Whole (lib.serialize (merge current posted))
      · rw [if_pos whole] at kept
        rw [loads_iff kept, rereading_member, envMissing_rereading, merged]
        simp [whole, (merged ▸ accepted).1]
      · rw [if_neg whole] at kept
        simp [whole, loadConfig, kept]
    · rw [merged] at refused
      refine iff_of_true ?_ fun accepted opens => absurd ⟨accepted, opens⟩ refused
      simp [saved, done]

end

end

/-! ## A configuration -/

def setUp : Value Empty :=
  .object
    [("wifi_ssid".toList, .text "EllaFi".toList), ("wifi_password".toList, .text "coins".toList),
      ("omada_url".toList, .text "https://10.0.0.2".toList), ("omada_controller_id".toList, .text "c1".toList),
      ("omada_username".toList, .text "admin".toList), ("omada_password".toList, .text "admin".toList),
      ("network_key".toList, .int 7)]

def saveWhole : WriteOutcome := { opens := true, stops := none }

def minutesPosted : Value Empty := .object [("minutes_per_coin".toList, .text "30".toList)]

def minutesLibrary : Library Empty :=
  JsonDoc.printing [setUp, minutesPosted, merge setUp minutesPosted] (by decide +kernel)

theorem minutes_saved :
    let saved := mergeAndSaveConfig minutesLibrary saveWhole (some (JsonDoc.print setUp)) (JsonDoc.print minutesPosted)
    (saved.1 = none → (loadConfig minutesLibrary saved.2).isSome) ∧ (saved.1 ≠ none → saved.2 = some (JsonDoc.print setUp)) := by
  have read : minutesLibrary.deserialize (JsonDoc.print setUp) = some setUp :=
    JsonDoc.read_printing [] (List.forall_mem_nil _)
  have posting : minutesLibrary.deserialize (JsonDoc.print minutesPosted) = some minutesPosted :=
    JsonDoc.read_printing [setUp] (by decide +kernel)
  refine (saved_loads_iff saveWhole read (by decide +kernel) fun posted found => ?_).mpr fun posted found _ _ => ?_
  · obtain rfl := Option.some.inj (posting.symm.trans found)
    exact JsonDoc.keeps_printing [setUp, minutesPosted] (by decide +kernel) (by decide +kernel)
  · obtain rfl := Option.some.inj (posting.symm.trans found)
    refine ⟨nofun, ?_⟩
    simp only [minutesLibrary, JsonDoc.rereading_printing]
    exact complete_iff.mp (by decide +kernel)

/-- The key of the network is posted as a text that is no number. -/
def wordPosted : Value Empty := .object [("network_key".toList, .text "abc".toList)]

def wordLibrary : Library Empty :=
  JsonDoc.printing [setUp, wordPosted, merge setUp wordPosted] (by decide +kernel)

/-- It is saved, and the configuration does not load any more. -/
theorem word_saved :
    let saved := mergeAndSaveConfig wordLibrary saveWhole (some (JsonDoc.print setUp)) (JsonDoc.print wordPosted)
    (loadConfig wordLibrary (some (JsonDoc.print setUp))).isSome ∧ saved.1 = none ∧
      (loadConfig wordLibrary saved.2).isNone := by
  decide +kernel

end EllaFi.ConfigFile
