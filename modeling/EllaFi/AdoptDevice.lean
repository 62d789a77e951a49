import EllaFi.EcspFrames
import EllaFi.JsonDoc
import EllaFi.Runs

/-!
The emulated device. It dials the controller, proves who it is with the account that it was
given last, hands over its key, and from then on answers what comes and reports when
nothing does; when the connection ends it dials again, and when the process ends it starts
again with the account that it stored. The process can be killed anywhere.
-/
namespace EllaFi.AdoptDevice
open EllaFi.EcspFrames (Bytes Heard Read)
open EllaFi.JsonDoc (Value)
open EllaFi.TextLines (Text)

/-! ## Messages -/

def preConnectInfo : Int := 3
def preConnectInfoResponse : Int := 1048576
def deviceVerifyInfo : Int := 1048577
def deviceVerifyResponse : Int := 1048578
def systemVerifyResult : Int := 1048579
def deviceNegotiation : Int := 1048580
def systemNegotiation : Int := 1048581
def initSyncResult : Int := 1048582
def verifyResultAck : Int := 1048585
def initSync : Int := 4352
def informRequest : Int := 256
def informResponse : Int := 512
def setRequest : Int := 4096
def setResponse : Int := 8192

/-- What a message says besides its header; constants and measurements are left out. -/
inductive Body (F : Type) where
  | empty
  | needUsername
  | verify (auth : Text)
  | negotiation (configVersion : Value F)
  | inform (sequenceId : Nat) (ssids2G ssids5G : List (Value F × Value F))
  | setResponse (sequenceId configVersion : Value F)

structure Msg (F : Type) where
  seq : Value F
  type : Int
  body : Body F

/-- The library, as far as the channel uses it: the whole number that a float equals, the
    digests in upper case, and the upper case of a text. -/
structure Lib (F : Type) where
  whole : F → Option Int
  sha256Hex : Text → Text
  md5Hex : Text → Text
  upper : Text → Text

structure Account (F : Type) where
  user : Value F
  md5 : Text

section
variable {F : Type}

/-- Of what is no object, nothing can be got. -/
def get (v : Value F) (key : String) (default : Value F) : Option (Value F) :=
  match v with
  | .object members => some ((members.lookup key.toList).getD default)
  | _ => none

def emptyObject : Value F := .object []

variable (lib : Lib F)

def truthy : Value F → Bool
  | .null => false
  | .bool b => b
  | .int z => z ≠ 0
  | .float x => lib.whole x ≠ some 0
  | .text s => s ≠ []
  | .array items => ! items.isEmpty
  | .object members => ! members.isEmpty

def orElse (v other : Value F) : Value F := if truthy lib v then v else other

def asInt : Value F → Option Int
  | .bool b => some b.toNat
  | .int z => some z
  | .float x => lib.whole x
  | _ => none

def asText : Value F → Option Text
  | .text s => some s
  | _ => none

/-- The type of a message, if it has one, and the number it has. -/
def header (r : Value F) : Option (Option Int × Value F) := do
  let header ← get r "header" emptyObject
  let type ← get header "type" .null
  let seq ← get header "seq" .null
  return (asInt lib type, seq)

def body (r : Value F) : Option (Value F) := (get r "body" .null).map fun b => orElse lib b emptyObject

/-! ## Accounts -/

/-- The user and the digest of the password. -/
def userAccount (members : List (Text × Value F)) : Option (Value F × Value F) :=
  match members.lookup "userAccount".toList with
  | some (.object account) =>
    match account.lookup "newUsername".toList, account.lookup "newPassword".toList with
    | some user, some password => if ! user.isNull && truthy lib password then some (user, password) else none
    | _, _ => none
  | _ => none

mutual

/-- The first account of a configuration, however deep. -/
def findUserAccount : Value F → Option (Value F × Value F)
  | .object members => (userAccount lib members).or (findInMembers members)
  | .array items => findInItems items
  | _ => none

def findInItems : List (Value F) → Option (Value F × Value F)
  | [] => none
  | item :: rest => (findUserAccount item).or (findInItems rest)

def findInMembers : List (Text × Value F) → Option (Value F × Value F)
  | [] => none
  | (_, value) :: rest => (findUserAccount value).or (findInMembers rest)

end

/-- The account of a configuration. None where the digest is no text, which is an error. -/
def accountOf (config : Value F) : Option (Option (Account F)) :=
  match findUserAccount lib config with
  | none => some none
  | some (user, .text password) => some (some { user, md5 := lib.upper password })
  | some _ => none

def ecsp2AuthMd5 (username md5Hex randomKey : Text) : Text := lib.sha256Hex (lib.sha256Hex (username ++ md5Hex) ++ randomKey)

def ecsp2Auth (username password randomKey : Text) : Text :=
  lib.sha256Hex (lib.sha256Hex (username ++ lib.md5Hex password) ++ randomKey)

def factoryUser : Text := "admin".toList
def factoryPass : Text := "admin".toList

/-- How the device proves itself: with the account it was given, or else with the one that
    it left the factory with. -/
def verifyAuth (account : Option (Account F)) (challenge : Value F) : Option Text := do
  let body ← body lib challenge
  let key ← asText (← get body "randomKeyForDeviceVerify" (.text []))
  match account with
  | some account => return ecsp2AuthMd5 lib (← asText account.user) account.md5 key
  | none => return ecsp2Auth lib (← asText (orElse lib (← get body "username" .null) (.text factoryUser))) factoryPass key

/-! ## Configurations -/

/-- Whether an SSID is on the air, and its number and name. -/
def ssid (s : Value F) : Option (Option (Value F × Value F)) := do
  let operation ← get s "operation" (.int 1)
  let enable ← get s "enable" (.bool true)
  if asInt lib operation ≠ some 0 ∧ truthy lib enable then
    match s with
    | .object members => return some (← members.lookup "id".toList, ← get s "ssidName" (.text []))
    | _ => none
  else return none

def ssidsOf : List (Value F) → Option (List (Value F × Value F))
  | [] => some []
  | s :: rest => do
    let first ← ssid lib s
    let later ← ssidsOf rest
    return first.toList ++ later

/-- The SSIDs of a band: none where the configuration leaves them as they are. -/
def band (config : Value F) (key : String) : Option (Option (List (Value F × Value F))) := do
  match ← get (orElse lib (← get config key .null) emptyObject) "ssid" .null with
  | .null => return none
  | .array items => return some (← ssidsOf lib items)
  | .object [] => return some []
  | .text [] => return some []
  | _ => none

end

/-! ## The device -/

structure Device (F : Type) where
  seqNo : Nat
  informSeq : Nat
  account : Option (Account F)
  /-- What the next start of the process finds. -/
  file : Option (Account F)
  configVersion : Value F
  ssids2G : List (Value F × Value F)
  ssids5G : List (Value F × Value F)

/-- A connection that is past the opening. -/
structure Channel (F : Type) where
  device : Device F
  /-- The controller has the key. -/
  keyed : Bool
  connected : Bool
  seen : List (Option Int)

/-- What happens: the process starts and dies, a channel is opened and closed, and what is
    received, sent and learned. -/
inductive Entry (F : Type) where
  | booted
  | dialled
  | got (r : Value F)
  | sent (m : Msg F)
  | learned (account : Account F)
  /-- The file of the account was emptied and not written. -/
  | lost
  | closed
  | died

inductive Turn (F : Type) where
  | on (c : Channel F) (log : List (Entry F))
  | ended (c : Channel F) (log : List (Entry F))
  | raised (device : Device F) (log : List (Entry F))

section
variable {F : Type}

/-- A message with a number of its own. -/
def Device.say (d : Device F) (type : Int) (body : Body F) : Device F × Entry F :=
  ({ d with seqNo := d.seqNo + 1 }, .sent { seq := .int (d.seqNo + 1), type, body })

/-- An answer has the number of the request, or one of the device's own where that has none. -/
def Device.respond (d : Device F) (seq : Value F) (type : Int) (body : Body F) : Device F × Entry F :=
  if seq.isNull then d.say type body else (d, .sent { seq, type, body })

def Channel.say (c : Channel F) (type : Int) (body : Body F) : Channel F × Entry F :=
  ({ c with device := (c.device.say type body).1 }, (c.device.say type body).2)

def Channel.inform (c : Channel F) : Channel F × Entry F :=
  let d := { c.device with informSeq := c.device.informSeq + 1 }
  { c with device := d }.say informRequest (.inform d.informSeq d.ssids2G d.ssids5G)

def Device.learn (d : Device F) : Option (Account F) → Device F × List (Entry F)
  | none => (d, [])
  | some account => ({ d with account := some account, file := some account }, [.learned account])

variable (lib : Lib F)

/-- A configuration is taken over, or is an error. -/
def Device.configure (d : Device F) (config : Value F) : Option (Device F) := do
  let version ← get config "configVersion" .null
  let _ ← get config "sequenceId" .null
  let ssids2G ← band lib config "ssid_2G"
  let ssids5G ← band lib config "ssid_5G"
  return { d with
    configVersion := if version.isNull then d.configVersion else version
    ssids2G := ssids2G.getD d.ssids2G
    ssids5G := ssids5G.getD d.ssids5G }

def configured (config : Value F) : Body F :=
  .setResponse ((get config "sequenceId" .null).getD .null) ((get config "configVersion" .null).getD .null)

/-- A message with a configuration: an account in it is stored first. -/
def Channel.handleConfig (c : Channel F) (r : Value F) (type : Option Int) (seq : Value F) : Turn F :=
  match body lib r with
  | none => .raised c.device [.got r]
  | some config =>
    match accountOf lib config with
    | none => .raised c.device [.got r]
    | some account =>
      let (d, learned) := c.device.learn account
      if type = some setRequest then
        match d.configure lib config with
        | none => .raised d (.got r :: learned)
        | some d =>
          let (d, response) := d.respond seq setResponse (configured config)
          .on { c with device := d } (.got r :: learned ++ [response])
      else
        let (d, result) := d.say initSyncResult .empty
        .on { c with device := d, connected := true } (.got r :: learned ++ [result])

/-- A message on a channel that is past the opening. -/
def Channel.handle (c : Channel F) (r : Value F) : Turn F :=
  match header lib r with
  | none => .raised c.device [.got r]
  | some (type, seq) =>
    let c := { c with seen := c.seen ++ [type] }
    if type = some deviceVerifyResponse then
      let (c, result) := c.say systemVerifyResult .empty
      .on c [.got r, result]
    else if type = some verifyResultAck then
      let (c, result) := c.say deviceNegotiation (.negotiation c.device.configVersion)
      .on { c with keyed := true } [.got r, result]
    else if type = some systemNegotiation ∨ type = some initSync ∨ type = some setRequest then c.handleConfig lib r type seq
    else if type = some informRequest then
      let (c, result) := c.say informResponse .empty
      .on c [.got r, result]
    else .on c [.got r]

/-- A frame that is no text has no header. -/
def docOf : Heard (Value F) → Value F
  | .doc d => d
  | _ => emptyObject

/-- One turn of the loop. The text of a timeout is what a timeout is read as. -/
def Channel.turn (c : Channel F) : Read (Value F) → Turn F
  | .timeout => if c.connected then .on c.inform.1 [c.inform.2] else .on c []
  | .heard frame =>
    match docOf frame with
    | .object members => c.handle lib (.object members)
    | .text ['T', 'I', 'M', 'E', 'O', 'U', 'T'] => if c.connected then .on c.inform.1 [c.inform.2] else .on c []
    | _ => .ended c []
  | .closed => .ended c []
  | .failed => .ended c []

/-- The first message of the controller. -/
def Device.opened (d : Device F) : Read (Value F) → Turn F
  | .heard frame =>
    match docOf frame with
    | .object members =>
      match header lib (.object members) with
      | none => .raised d [.got (.object members)]
      | some (type, _) =>
        let c : Channel F := { device := d, keyed := false, connected := false, seen := [] }
        if type ≠ some preConnectInfoResponse then .ended c [.got (.object members)]
        else
          match verifyAuth lib d.account (.object members) with
          | none => .raised d [.got (.object members)]
          | some auth =>
            let (c, info) := { c with seen := [type] }.say deviceVerifyInfo (.verify auth)
            .on c [.got (.object members), info]
    | _ => .ended { device := d, keyed := false, connected := false, seen := [] } []
  | _ => .ended { device := d, keyed := false, connected := false, seen := [] } []

/-! ## The process -/

inductive Place (F : Type) where
  | off
  | top
  | waiting
  | opening (relink : Bool)
  | driving (relink : Bool) (c : Channel F)

structure Process (F : Type) where
  /-- Of the device that is not driving a channel. -/
  device : Device F
  adoptedOnce : Bool
  place : Place F

inductive Action (F : Type) where
  | boot
  /-- The controller is found by itself, or does not ask for the device. -/
  | wait
  | dial (connects : Bool)
  | read (r : Read (Value F))
  | kill
  /-- With some of what happens next done. -/
  | killReading (r : Read (Value F)) (count : Nat)
  /-- While an account is stored. -/
  | killSaving (r : Read (Value F))

/-- Enough was seen on the channel. -/
def linked (seen : List (Option Int)) : Bool :=
  seen.contains (some systemNegotiation) || seen.contains (some initSync) || seen.contains (some setRequest)

/-- A channel that was opened to link up again leads to waiting if nothing came of it. -/
def Process.afterChannel (p : Process F) (relink : Bool) (device : Device F) (seen : List (Option Int)) : Process F :=
  if relink then { p with device, place := if linked seen then .top else .waiting }
  else { p with device, adoptedOnce := p.adoptedOnce || linked seen, place := .top }

/-- With the account that was stored. -/
def Device.started (file : Option (Account F)) : Device F where
  seqNo := 0
  informSeq := 0
  account := file
  file := file
  configVersion := .int 0
  ssids2G := []
  ssids5G := []

def Process.off (file : Option (Account F)) : Process F where
  device := .started file
  adoptedOnce := false
  place := .off

def Process.comeTo (p : Process F) (relink : Bool) : Turn F → Process F × List (Entry F)
  | .on c log => ({ p with place := .driving relink c }, log)
  | .ended c log => (p.afterChannel relink c.device c.seen, log ++ [.closed])
  | .raised d log => (.off d.file, log ++ [.died])

def Process.current (p : Process F) : Device F :=
  match p.place with
  | .driving _ c => c.device
  | _ => p.device

/-- A channel that is not opened has seen nothing. -/
def Process.dialled (p : Process F) (relink connects : Bool) : Process F × List (Entry F) :=
  if connects then
    let (d, info) := p.device.say preConnectInfo .needUsername
    ({ p with device := d, place := .opening relink }, [.dialled, info])
  else (p.afterChannel relink p.device [], [])

def Turn.log : Turn F → List (Entry F)
  | .on _ log => log
  | .ended _ log => log
  | .raised _ log => log

/-- The file after some entries. -/
def fileAfter (file : Option (Account F)) (log : List (Entry F)) : Option (Account F) :=
  log.foldl (fun file entry =>
    match entry with
    | .learned account => some account
    | .lost => none
    | _ => file) file

/-- What the process does with what it reads now. -/
def Process.turn (p : Process F) (r : Read (Value F)) : Option (Bool × Turn F) :=
  match p.place with
  | .opening relink => some (relink, p.device.opened lib r)
  | .driving relink c => some (relink, c.turn lib r)
  | _ => none

def step (p : Process F) : Action F → Option (Process F × List (Entry F))
  | .boot =>
    match p.place with
    | .off => some ({ device := .started p.device.file, adoptedOnce := p.device.file.isSome, place := .top }, [.booted])
    | _ => none
  | .wait =>
    match p.place with
    | .top => if p.adoptedOnce then none else some ({ p with place := .waiting }, [])
    | .waiting => some ({ p with place := .top }, [])
    | _ => none
  | .dial connects =>
    match p.place with
    | .top => if p.adoptedOnce then some (p.dialled true connects) else none
    | .waiting => some (p.dialled false connects)
    | _ => none
  | .read r => (p.turn lib r).map fun (relink, turn) => p.comeTo relink turn
  | .kill =>
    match p.place with
    | .off => none
    | _ => some (.off p.current.file, [.died])
  | .killReading r count =>
    (p.turn lib r).map fun (_, turn) =>
      (.off (fileAfter p.current.file (turn.log.take count)), turn.log.take count ++ [.died])
  | .killSaving r =>
    match p.turn lib r with
    | some (_, turn) =>
      match turn.log with
      | got :: .learned _ :: _ => some (.off none, [got, .lost, .died])
      | _ => none
    | none => none

/-- The process with the log of all that happened. -/
def logged (s : Process F × List (Entry F)) (a : Action F) : Option (Process F × List (Entry F)) :=
  (step lib s.1 a).map fun (next, log) => (next, s.2 ++ log)

end

end EllaFi.AdoptDevice
