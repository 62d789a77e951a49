import EllaFi.RawObject
import EllaFi.Steps

/-!
The body of an authentication request. `authenticateOmadaClient` puts the
strings that the portal was opened with between quotes as they are. The body
means the request that was meant exactly when none of them needs an escape
(`auth_body`); a string with a quote in it can grant any time at all
(`radio_buys_time`).
-/
namespace EllaFi.AuthBody
open EllaFi.Session EllaFi.Cache EllaFi.Files EllaFi.Omada EllaFi.Steps EllaFi.Json EllaFi.RawObject

section
variable (config : Config) (session : SessionParams) (durationMillis : Nat)

def postData : String :=
  "\x7b" ++
  "\"clientMac\":\"" ++ session.clientMac ++ "\"," ++
  "\"clientIp\":\"" ++ session.clientIp ++ "\"," ++
  "\"site\":\"" ++ config.siteName ++ "\"," ++
  "\"time\":\"" ++ toString durationMillis ++ "\"," ++
  "\"authType\":" ++ toString omadaAuthTypeExternalPortal ++ "," ++
  "\"apMac\":\"" ++ session.apMac ++ "\"," ++
  "\"ssidName\":\"" ++ session.ssidName ++ "\"," ++
  "\"radioId\":\"" ++ session.radioId ++ "\"" ++
  "\x7d"

/-- The strings that stand for themselves between quotes. -/
def Unescaped (text : String) : Prop := Plain text.toList

instance (text : String) : Decidable (Unescaped text) := inferInstanceAs (Decidable (Plain text.toList))

def authKeys : List String := ["clientMac", "clientIp", "site", "time", "authType", "apMac", "ssidName", "radioId"]

/-- The value has this text under a key. -/
def Says (value : Value) (key text : String) : Prop :=
  value.field (units key.toList) = some (.text (units text.toList))

/-- The object has the intended keys, the granted time and the session's own strings. -/
structure Means (value : Value) : Prop where
  keys : ∀ key, key ∈ value.keys ↔ key ∈ authKeys.map fun name => units name.toList
  time : Says value "time" (toString durationMillis)
  clientMac : Says value "clientMac" session.clientMac
  apMac : Says value "apMac" session.apMac
  ssidName : Says value "ssidName" session.ssidName
  radioId : Says value "radioId" session.radioId

/-- The body is one object that means what was granted. -/
def Faithful : Prop :=
  ∃ value, parse (postData config session durationMillis).toList = some value ∧ Means session durationMillis value

/-- None of the strings that a portal request brings needs an escape. -/
structure RequestUnescaped : Prop where
  clientMac : Unescaped session.clientMac
  apMac : Unescaped session.apMac
  ssidName : Unescaped session.ssidName
  radioId : Unescaped session.radioId

/-! ## The body as an object -/

def firstPiece : Piece := .text "clientMac".toList session.clientMac.toList

def otherPieces : List Piece :=
  [.text "clientIp".toList session.clientIp.toList, .text "site".toList config.siteName.toList,
    .text "time".toList (toString durationMillis).toList, .word "authType".toList ['4'],
    .text "apMac".toList session.apMac.toList, .text "ssidName".toList session.ssidName.toList,
    .text "radioId".toList session.radioId.toList]

theorem postData_eq :
    (postData config session durationMillis).toList =
      rawObject (firstPiece session) (otherPieces config session durationMillis) := by
  have clientMac : "\"clientMac\":\"".toList = '"' :: "clientMac".toList ++ ['"', ':', '"'] := String.toList_ofList
  have clientIp : "\"clientIp\":\"".toList = '"' :: "clientIp".toList ++ ['"', ':', '"'] := String.toList_ofList
  have site : "\"site\":\"".toList = '"' :: "site".toList ++ ['"', ':', '"'] := String.toList_ofList
  have time : "\"time\":\"".toList = '"' :: "time".toList ++ ['"', ':', '"'] := String.toList_ofList
  have authType : "\"authType\":".toList = '"' :: "authType".toList ++ ['"', ':'] := String.toList_ofList
  have apMac : "\"apMac\":\"".toList = '"' :: "apMac".toList ++ ['"', ':', '"'] := String.toList_ofList
  have ssidName : "\"ssidName\":\"".toList = '"' :: "ssidName".toList ++ ['"', ':', '"'] := String.toList_ofList
  have radioId : "\"radioId\":\"".toList = '"' :: "radioId".toList ++ ['"', ':', '"'] := String.toList_ofList
  have four : (toString omadaAuthTypeExternalPortal).toList = ['4'] := String.toList_ofList
  have next : "\",".toList = ['"', ','] := String.toList_ofList
  have quote : "\"".toList = ['"'] := String.toList_ofList
  have comma : ",".toList = [','] := String.toList_ofList
  have opening : "\x7b".toList = ['\x7b'] := String.toList_ofList
  have closing : "\x7d".toList = ['\x7d'] := String.toList_ofList
  unfold postData
  repeat rw [String.toList_append]
  rw [clientMac, clientIp, site, time, authType, apMac, ssidName, radioId, four, next, quote, comma, opening, closing]
  simp only [rawObject, firstPiece, otherPieces, tail, Piece.write, Piece.rest, Piece.key, List.append_assoc,
    List.cons_append, List.nil_append]

theorem digits_unescaped (n : Nat) : Unescaped (toString n) := by
  intro c inside
  rw [Nat.toString_eq_repr, Nat.toList_repr] at inside
  have digit : c.isDigit := Nat.isDigit_of_mem_toDigits (by decide) (by decide) inside
  exact wordChar_plain (.inl (by simp [Char.isAlphanum, digit]))

/-- The keys are names of letters. -/
theorem body_wellFormed :
    ∀ member ∈ firstPiece session :: otherPieces config session durationMillis, member.WellFormed := by
  have names : ∀ name ∈ authKeys, (∀ c ∈ name.toList, IsWordChar c) ∧ name.toList ≠ [] ∧ ¬ IsLiteral name.toList := by
    have checked : ∀ name ∈ authKeys, name.toList.all (IsWordChar ·) = true ∧ name.toList ≠ [] ∧ ¬ IsLiteral name.toList := by
      decide
    exact fun name known => ⟨by simpa using (checked name known).1, (checked name known).2⟩
  have text {name : String} (value : List Char) (known : name ∈ authKeys) :
      (Piece.text name.toList value).WellFormed :=
    ⟨(names name known).1, (names name known).2.1, (names name known).2.2, nofun⟩
  have word : (Piece.word "authType".toList ['4']).WellFormed := by
    obtain ⟨letters, nonempty, name⟩ := names "authType" (by decide)
    refine ⟨letters, nonempty, name, ?_⟩
    rintro key read same
    cases same
    exact ⟨by decide, List.forall_mem_singleton.mpr (by decide), by decide⟩
  intro member inside
  simp only [firstPiece, otherPieces, List.mem_cons, List.not_mem_nil, or_false] at inside
  rcases inside with rfl | rfl | rfl | rfl | rfl | rfl | rfl | rfl
  · exact text _ (by decide)
  · exact text _ (by decide)
  · exact text _ (by decide)
  · exact text _ (by decide)
  · exact word
  · exact text _ (by decide)
  · exact text _ (by decide)
  · exact text _ (by decide)

/-- What the values need in order to be read as they are meant. -/
theorem body_plain :
    (∀ member ∈ firstPiece session :: otherPieces config session durationMillis, member.PlainValue) ↔
      RequestUnescaped session ∧ Unescaped session.clientIp ∧ Unescaped config.siteName := by
  simp only [firstPiece, otherPieces, List.forall_mem_cons, Piece.PlainValue, List.not_mem_nil, false_implies,
    implies_true, and_true, true_and]
  constructor
  · rintro ⟨clientMac, clientIp, site, -, apMac, ssidName, radioId⟩
    exact ⟨⟨clientMac, apMac, ssidName, radioId⟩, clientIp, site⟩
  · rintro ⟨⟨clientMac, apMac, ssidName, radioId⟩, clientIp, site⟩
    exact ⟨clientMac, clientIp, site, digits_unescaped durationMillis, apMac, ssidName, radioId⟩

def intended : Value :=
  .object ((firstPiece session :: otherPieces config session durationMillis).map Piece.member)

theorem intended_says {key text : String}
    (inside : .text key.toList text.toList ∈ firstPiece session :: otherPieces config session durationMillis) :
    Says (intended config session durationMillis) key text := by
  refine field_of_nodup ?_ (List.mem_map.mpr ⟨_, inside, rfl⟩)
  have distinct : (authKeys.map fun name => units name.toList).Nodup := by decide
  exact distinct

theorem intended_means : Means session durationMillis (intended config session durationMillis) where
  keys _ := Iff.rfl
  time := intended_says _ _ _ (by simp [firstPiece, otherPieces])
  clientMac := intended_says _ _ _ (by simp [firstPiece, otherPieces])
  apMac := intended_says _ _ _ (by simp [firstPiece, otherPieces])
  ssidName := intended_says _ _ _ (by simp [firstPiece, otherPieces])
  radioId := intended_says _ _ _ (by simp [firstPiece, otherPieces])

theorem parse_intended (request : RequestUnescaped session) (ip : Unescaped session.clientIp)
    (site : Unescaped config.siteName) :
    parse (postData config session durationMillis).toList = some (intended config session durationMillis) := by
  rw [postData_eq]
  exact parse_rawObject (body_wellFormed _ _ _) ((body_plain _ _ _).mpr ⟨request, ip, site⟩)

/-! ## Which bodies mean the request -/

/-- Strings that read back, or need no escape, need none. -/
theorem unescaped_of_parsed {value : Value} (parsed : parse (postData config session durationMillis).toList = some value)
    (means : Means session durationMillis value) (ip : Unescaped session.clientIp ∨ Says value "clientIp" session.clientIp)
    (site : Unescaped config.siteName ∨ Says value "site" config.siteName) :
    RequestUnescaped session ∧ Unescaped session.clientIp ∧ Unescaped config.siteName := by
  rw [postData_eq] at parsed
  refine (body_plain config session durationMillis).mp (plain_of_parsed (body_wellFormed _ _ _) parsed ?_)
  intro key text inside
  simp only [firstPiece, otherPieces, List.mem_cons, Piece.text.injEq, reduceCtorEq, List.not_mem_nil, or_false,
    false_or] at inside
  rcases inside with ⟨rfl, rfl⟩ | ⟨rfl, rfl⟩ | ⟨rfl, rfl⟩ | ⟨rfl, rfl⟩ | ⟨rfl, rfl⟩ | ⟨rfl, rfl⟩ | ⟨rfl, rfl⟩
  · exact .inr means.clientMac
  · exact ip
  · exact site
  · exact .inr means.time
  · exact .inr means.apMac
  · exact .inr means.ssidName
  · exact .inr means.radioId

/-- A body reads back whole exactly when no string in it needs an escape. Where the
    client's address and the configured site name need none, the body means the
    request exactly when none of the request's strings does. -/
theorem auth_body :
    ((∃ value, parse (postData config session durationMillis).toList = some value ∧
        Means session durationMillis value ∧ Says value "clientIp" session.clientIp ∧ Says value "site" config.siteName) ↔
      RequestUnescaped session ∧ Unescaped session.clientIp ∧ Unescaped config.siteName) ∧
    (Unescaped session.clientIp → Unescaped config.siteName →
      (Faithful config session durationMillis ↔ RequestUnescaped session)) := by
  refine ⟨⟨?_, ?_⟩, fun ip site => ⟨?_, ?_⟩⟩
  · rintro ⟨value, parsed, means, ip, site⟩
    exact unescaped_of_parsed _ _ _ parsed means (.inr ip) (.inr site)
  · rintro ⟨request, ip, site⟩
    exact ⟨_, parse_intended _ _ _ request ip site, intended_means _ _ _,
      intended_says _ _ _ (by simp [firstPiece, otherPieces]), intended_says _ _ _ (by simp [firstPiece, otherPieces])⟩
  · rintro ⟨value, parsed, means⟩
    exact (unescaped_of_parsed _ _ _ parsed means (.inl ip) (.inl site)).1
  · intro request
    exact ⟨_, parse_intended _ _ _ request ip site, intended_means _ _ _⟩

end

/-! ## A request that injects -/

/-- The entry that a portal request leaves in an empty cache. -/
def opened (request : Redirect) : SessionParams :=
  ((seedPortalSession Flash.empty true request SessionCache.empty).findByIp request.clientIp).getD {}

def plainRequest : Redirect where
  clientIp := "10.0.0.5"
  clientMac := "AA-BB-CC-DD-EE-05"
  apMac := some "AA-BB-CC-00-00-01"
  ssidName := some "EllaFi"
  radioId := some "1"

theorem auth_body_plain :
    Faithful defaultConfig (opened plainRequest) (coinMillis defaultConfig 1) ↔
      RequestUnescaped (opened plainRequest) :=
  (auth_body defaultConfig (opened plainRequest) (coinMillis defaultConfig 1)).2 (by decide +kernel) (by decide +kernel)

/-- A radio that closes its own string and adds a member. -/
def forgedRequest : Redirect := { plainRequest with radioId := some "1\",\"time\":\"999999999" }

/-- The text under `time` in the body of the forged request. -/
def forgedTime : Option (List Nat) :=
  ((parse (postData defaultConfig (opened forgedRequest) (coinMillis defaultConfig 1)).toList).bind
    (·.field (units "time".toList))).bind (·.textOf)

/-- The radio of a request grants 999999999 milliseconds for one coin of 24 minutes. -/
theorem radio_buys_time :
    forgedTime = some (units "999999999".toList) ∧ coinMillis defaultConfig 1 = 1440000 ∧
      ¬ Faithful defaultConfig (opened forgedRequest) (coinMillis defaultConfig 1) := by
  have bought : forgedTime = some (units "999999999".toList) := by decide +kernel
  refine ⟨bought, by decide, ?_⟩
  rintro ⟨value, parsed, means⟩
  have meant : forgedTime = some (units (toString (coinMillis defaultConfig 1)).toList) := by
    rw [forgedTime, parsed, Option.bind_some, show value.field (units "time".toList) = _ from means.time]
    rfl
  rw [bought] at meant
  exact absurd meant (by decide +kernel)

end EllaFi.AuthBody
