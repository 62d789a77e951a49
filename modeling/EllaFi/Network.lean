import EllaFi.Rings
import Mathlib.Data.List.TakeWhile

/-!
Packets between the nodes. Each carries a type, the sender's time and a body under a
tag that only a holder of the network's key can make. A receiver drops what is not
tagged or not of its own time by more than the freshness window, and the master drops
coins that it has passed on before, as far as its ring remembers them.
-/
namespace EllaFi.Network
open EllaFi.Rings

inductive NetMsgType where
  | coinInserted
  | sessionStart
  | sessionEnd
  | heartbeat
  | otaAvailable
  | logEntry
  | reboot
deriving DecidableEq, Repr

/-- A datagram with room for a header and a tag, as it is read. -/
structure Datagram where
  /-- The tag is that of the rest. -/
  tagged : Bool
  /-- None where the number is of no type. -/
  type : Option NetMsgType
  /-- Milliseconds of Unix time. -/
  ts : Nat
  body : List UInt8
deriving DecidableEq, Repr

def netFreshWindowMs : Nat := 5000

/-- How far a time is off the clock. -/
def skew (now ts : Nat) : Nat := if ts < now then now - ts else ts - now

def Fresh (now ts : Nat) : Prop := skew now ts ≤ netFreshWindowMs

instance (now ts : Nat) : Decidable (Fresh now ts) := inferInstanceAs (Decidable (_ ≤ _))

/-! ## Bodies -/

def heartbeatBodySize : Nat := 67
def otaCmdBodySize : Nat := 18
def coinInsertedBodySize : Nat := 18
def logEntryBodySize : Nat := 163

/-- The text before the first zero byte. -/
def cString (bytes : List UInt8) : List UInt8 := bytes.takeWhile (· ≠ 0)

/-- A body's sender; the last of its 18 bytes is overwritten with a zero. -/
def coinInsertedMac (body : List UInt8) : List UInt8 := cString (body.take 17)

/-- A hardware address as text. -/
structure Mac where
  chars : List UInt8
  length : chars.length = 17
  text : (0 : UInt8) ∉ chars

def coinInsertedBody (mac : Mac) : List UInt8 := mac.chars ++ [0]

def slaveSendCoinInserted (mac : Mac) (now : Nat) : Datagram where
  tagged := true
  type := some .coinInserted
  ts := now
  body := coinInsertedBody mac

/-! ## The replay guard -/

/-- A coin that was passed on. -/
structure Seen where
  mac : List UInt8
  ts : Nat
deriving DecidableEq, Repr

def coinSeenN : Nat := 64

abbrev CoinSeen : Type := Ring Seen coinSeenN

def blankSeen : Seen := { mac := [], ts := 0 }

def emptySeen : CoinSeen := Ring.blank blankSeen coinSeenN (by decide)

/-- Whether the coin is in the ring, and the ring with it. -/
def coinIsReplay (seen : CoinSeen) (mac : List UInt8) (ts : Nat) : Bool × CoinSeen :=
  if { mac, ts } ∈ seen.slots then (true, seen) else (false, seen.push { mac, ts })

/-! ## The receive loop -/

/-- What becomes of a datagram. -/
inductive Received where
  | badTag
  | stale
  | ignored
  | replay (mac : List UInt8)
  | coinInserted (mac : List UInt8)
  | sessionStart
  | sessionEnd
  | heartbeat (body : List UInt8)
  | otaAvailable (body : List UInt8)
  | logEntry (body : List UInt8)
  | reboot
deriving DecidableEq, Repr

/-- The master's own messages. -/
def masterReceives (seen : CoinSeen) (datagram : Datagram) : Received × CoinSeen :=
  if datagram.type = some .coinInserted ∧ coinInsertedBodySize ≤ datagram.body.length then
    let mac := coinInsertedMac datagram.body
    let (replay, seen) := coinIsReplay seen mac datagram.ts
    (if replay then .replay mac else .coinInserted mac, seen)
  else (.ignored, seen)

/-- A slave's own messages. -/
def slaveReceives (datagram : Datagram) : Received :=
  match datagram.type with
  | some .sessionStart => .sessionStart
  | some .sessionEnd => .sessionEnd
  | some .reboot => .reboot
  | _ => .ignored

def networkLoop (isMaster : Bool) (now : Nat) (seen : CoinSeen) (datagram : Datagram) : Received × CoinSeen :=
  if ¬ datagram.tagged then (.badTag, seen)
  else if ¬ Fresh now datagram.ts then (.stale, seen)
  else
    match datagram.type with
    | some .heartbeat =>
      (if ¬ isMaster ∨ datagram.body.length < heartbeatBodySize then .ignored else .heartbeat datagram.body, seen)
    | some .otaAvailable =>
      (if isMaster ∨ datagram.body.length < otaCmdBodySize then .ignored else .otaAvailable datagram.body, seen)
    | some .logEntry =>
      (if ¬ isMaster ∨ datagram.body.length < logEntryBodySize then .ignored else .logEntry datagram.body, seen)
    | _ => if isMaster then masterReceives seen datagram else (slaveReceives datagram, seen)

/-! ## What is passed on -/

section
variable {now ts : Nat} {seen : CoinSeen} {datagram : Datagram} {mac : List UInt8}

theorem mac_coinInsertedBody (mac : Mac) : coinInsertedMac (coinInsertedBody mac) = mac.chars := by
  obtain ⟨chars, length, text⟩ := mac
  have whole : (chars ++ [0]).take 17 = chars := by
    rw [List.take_append_of_le_length (by omega), List.take_of_length_le (by omega)]
  refine (congrArg cString whole).trans (List.takeWhile_eq_self_iff.mpr fun char inside => ?_)
  exact decide_eq_true fun isZero => text (isZero ▸ inside)

/-- A tagged and fresh datagram with a whole coin body. -/
def CarriesCoin (now : Nat) (datagram : Datagram) : Prop :=
  datagram.tagged ∧ Fresh now datagram.ts ∧ datagram.type = some .coinInserted ∧
    coinInsertedBodySize ≤ datagram.body.length

/-- A coin is passed on unless it is in the ring, and then it is. -/
theorem networkLoop_coin (carries : CarriesCoin now datagram) :
    networkLoop true now seen datagram =
      let coin : Seen := { mac := coinInsertedMac datagram.body, ts := datagram.ts }
      if coin ∈ seen.slots then (.replay coin.mac, seen) else (.coinInserted coin.mac, seen.push coin) := by
  obtain ⟨tagged, fresh, type, long⟩ := carries
  by_cases known : { mac := coinInsertedMac datagram.body, ts := datagram.ts } ∈ seen.slots
  · simp [networkLoop, masterReceives, coinIsReplay, tagged, fresh, type, long, known]
  · simp [networkLoop, masterReceives, coinIsReplay, tagged, fresh, type, long, known]

/-- Nothing else is passed on as a coin or changes the ring. -/
theorem networkLoop_other (other : ¬ CarriesCoin now datagram) :
    (networkLoop true now seen datagram).2 = seen ∧ ∀ mac, (networkLoop true now seen datagram).1 ≠ .coinInserted mac := by
  by_cases tagged : datagram.tagged
  · by_cases fresh : Fresh now datagram.ts
    · by_cases coin : datagram.type = some .coinInserted
      · have short : ¬ coinInsertedBodySize ≤ datagram.body.length := fun long => other ⟨tagged, fresh, coin, long⟩
        simp [networkLoop, masterReceives, tagged, fresh, coin, short]
      · simp only [networkLoop, tagged, fresh, not_true, if_false]
        split
        · refine ⟨rfl, fun mac => ?_⟩
          split <;> simp
        · simp
        · refine ⟨rfl, fun mac => ?_⟩
          split <;> simp
        · simp [masterReceives, coin]
    · simp [networkLoop, tagged, fresh]
  · simp [networkLoop, tagged]

end

end EllaFi.Network
