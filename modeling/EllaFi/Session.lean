import Mathlib.Algebra.Order.Ring.Nat

/-!
What the firmware keeps about a portal client, and what it reads from its
surroundings: the clock, the configuration, and the address parser of the
platform, which is not part of the sources. A task that holds a client's entry
writes its fields directly; only `upsert` writes the two that the cache is keyed
by, so every other write is one that leaves them alone (`FieldWrite`).
-/
namespace EllaFi.Session

structure SessionParams where
  clientMac : String := ""
  clientIp : String := ""
  apMac : String := ""
  ssidName : String := ""
  radioId : String := ""
  /-- Session start in milliseconds of Unix time; 0 is unknown. -/
  sessionStartMillis : Nat := 0
  /-- Session expiry in milliseconds of Unix time; 0 is no active session. -/
  sessionEndMillis : Nat := 0
  /-- The identifier that the controller gave the session. -/
  clientId : String := ""
  /-- An `unsigned long` of 32 bits; 0 is not paused. -/
  pausedRemainingMillis : Nat := 0
  socketFd : Int := -1
deriving DecidableEq, Repr

/-! ## The clock and the configuration -/

/-- `time(NULL) * 1000` where the clock stands at `clock` milliseconds: the
    firmware reads whole seconds. -/
def nowEpochMillis (clock : Nat) : Nat := clock / 1000 * 1000

theorem nowEpochMillis_le (clock : Nat) : nowEpochMillis clock ≤ clock := by
  unfold nowEpochMillis; omega

theorem clock_lt_nowEpochMillis (clock : Nat) : clock < nowEpochMillis clock + 1000 := by
  unfold nowEpochMillis; omega

theorem nowEpochMillis_mono {before after : Nat} (later : before ≤ after) :
    nowEpochMillis before ≤ nowEpochMillis after := by
  unfold nowEpochMillis; omega

def millisPerMinute : Nat := 60000

/-- A value as `unsigned long` holds it. -/
def toUnsignedLong (n : Nat) : Nat := n % 2 ^ 32

/-- `IPAddress` of the platform: the parser of an address and its printer. -/
structure IPAddress where
  fromString : String → Option UInt32
  toString : UInt32 → String

/-- The numbers of a dotted text, none above 255; no other characters. -/
def dottedNumbers (number : Nat) : List Char → Option (List Nat)
  | [] => some [number]
  | c :: rest =>
    if c = '.' then (dottedNumbers 0 rest).map (number :: ·)
    else if c.isDigit ∧ number * 10 + (c.toNat - '0'.toNat) ≤ 255 then
      dottedNumbers (number * 10 + (c.toNat - '0'.toNat)) rest
    else none

/-- Dotted decimal, the first number in the lowest byte. -/
def dottedQuad : IPAddress where
  fromString text :=
    match dottedNumbers 0 text.toList with
    | some [a, b, c, d] => some (UInt32.ofNat (a + 256 * (b + 256 * (c + 256 * d))))
    | _ => none
  toString v :=
    let n := v.toNat
    s!"{n % 256}.{n / 256 % 256}.{n / 65536 % 256}.{n / 16777216}"

/-- The globals that the configuration file sets before the tasks start. -/
structure Config where
  minutesPerCoin : Nat
  paid : 0 < minutesPerCoin
  siteName : String
  managementSsid : String

/-- The values of a file that sets none. -/
def defaultConfig : Config where
  minutesPerCoin := 24
  paid := by decide
  siteName := ""
  managementSsid := ""

/-- The time that a number of coins buys. -/
def coinMillis (config : Config) (coins : Nat) : Nat :=
  coins * config.minutesPerCoin * millisPerMinute

theorem coinMillis_pos (config : Config) {coins : Nat} (inserted : 0 < coins) :
    millisPerMinute ≤ coinMillis config coins :=
  Nat.le_mul_of_pos_left _ (Nat.mul_pos inserted config.paid)

section
variable (address : IPAddress)

def coinIpToU32 (ip : String) : UInt32 := (address.fromString ip).getD 0

def coinU32ToIp (v : UInt32) : String := address.toString v

end

/-! ## Field writes -/

/-- Assignments to the fields of an entry other than the two that the cache is
    keyed by. -/
structure FieldWrite where
  apply : SessionParams → SessionParams
  keepsMac : ∀ s, (apply s).clientMac = s.clientMac
  keepsIp : ∀ s, (apply s).clientIp = s.clientIp

attribute [simp] FieldWrite.keepsMac FieldWrite.keepsIp

/-- What an accepted authentication for `durationMillis` assigns. -/
def authenticated (now durationMillis : Nat) : FieldWrite where
  apply s := { s with sessionStartMillis := now, sessionEndMillis := now + durationMillis }
  keepsMac _ := rfl
  keepsIp _ := rfl

def extended (durationMillis : Nat) : FieldWrite where
  apply s := { s with sessionEndMillis := s.sessionEndMillis + durationMillis }
  keepsMac _ := rfl
  keepsIp _ := rfl

def disconnected : FieldWrite where
  apply s := { s with sessionEndMillis := 0, clientId := "" }
  keepsMac _ := rfl
  keepsIp _ := rfl

def setPaused (remainingMillis : Nat) : FieldWrite where
  apply s := { s with pausedRemainingMillis := remainingMillis }
  keepsMac _ := rfl
  keepsIp _ := rfl

def setSocket (socketFd : Int) : FieldWrite where
  apply s := { s with socketFd := socketFd }
  keepsMac _ := rfl
  keepsIp _ := rfl

/-- The redirect parameters of the controller; one that a request lacks is kept. -/
def setRedirect (apMac ssidName radioId : Option String) : FieldWrite where
  apply s := { s with
    apMac := apMac.getD s.apMac
    ssidName := ssidName.getD s.ssidName
    radioId := radioId.getD s.radioId }
  keepsMac _ := rfl
  keepsIp _ := rfl

end EllaFi.Session
