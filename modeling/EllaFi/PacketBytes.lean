import EllaFi.CheckedMemory
import EllaFi.LittleEndian
import EllaFi.Network

/-!
The bytes of a packet: the type, the time and the body, and the first half of a keyed hash
of these. The sender writes them into a buffer of fixed size, and the receive loop reads a
datagram into another and takes them apart at fixed offsets; every access is checked here.
The loop reads back what was sent and does nothing with any other bytes, whatever their
number, and the test's injector builds the same packets (`packet_codec`). The decisions on
what was read are those of `Network.networkLoop`.
-/
namespace EllaFi.PacketBytes
open EllaFi.CheckedMemory EllaFi.LittleEndian
open EllaFi.Network hiding networkLoop

/-! ## The wire format -/

abbrev Bytes : Type := List UInt8

/-- A keyed hash of 32 bytes. -/
abbrev Hmac : Type := Bytes → Bytes → Vector UInt8 32

def netHmacLen : Nat := 16
def netHeaderLen : Nat := 2 + 8
def netMaxPacket : Nat := netHeaderLen + logEntryBodySize + netHmacLen

/-- A buffer on the stack, with whatever was there before. -/
abbrev Buffer : Type := Vector UInt8 netMaxPacket

def code : NetMsgType → Nat
  | .coinInserted => 1
  | .sessionStart => 2
  | .sessionEnd => 3
  | .heartbeat => 4
  | .otaAvailable => 5
  | .logEntry => 6
  | .reboot => 7

def typeOf (number : Nat) : Option NetMsgType :=
  [NetMsgType.coinInserted, .sessionStart, .sessionEnd, .heartbeat, .otaAvailable, .logEntry, .reboot].find? (code · = number)

theorem typeOf_code (type : NetMsgType) : typeOf (code type) = some type := by cases type <;> rfl

theorem code_lt (type : NetMsgType) : code type < 256 ^ 2 := by cases type <;> decide

section
variable (hmac : Hmac) (netKey : Nat)

/-- The key is the eight bytes of the number. -/
def netHmac (data : Bytes) : Option Bytes := slice (hmac (split 8 netKey) data).toList 0 netHmacLen

def diffTurn (a b : Bytes) (i : Nat) (diff : UInt8) : Option UInt8 := do
  let x ← read a i
  let y ← read b i
  return diff ||| (x ^^^ y)

def netTagEqual (a b : Bytes) : Option Bool := (loop (diffTurn a b) 0 netHmacLen).map fun diff => decide (diff = 0)

/-- A body that is too long is not sent. -/
def netTransmit (buf : Buffer) (type : NetMsgType) (ts : Nat) (body : Bytes) : Option (Option Bytes) :=
  if logEntryBodySize < body.length then some none
  else do
    let buf ← blit buf.toList 0 (split 2 (code type))
    let buf ← blit buf 2 (split 8 ts)
    let buf ← blit buf netHeaderLen body
    let off := netHeaderLen + body.length
    let signed ← slice buf 0 off
    let tag ← netHmac hmac netKey signed
    let buf ← blit buf off tag
    let packet ← slice buf 0 (off + netHmacLen)
    return some packet

/-! ## The receive loop -/

/-- What the socket has: the size of the next datagram, nothing if it is not positive, and
    the bytes that reading it delivers. -/
structure Arrival where
  size : Int
  data : Bytes
  delivered : data.length ≤ size.toNat

/-- A datagram that is read whole. -/
def arrival (bytes : Bytes) : Arrival where
  size := bytes.length
  data := bytes
  delivered := by simp

/-- How many bytes were read, and the buffer. A datagram that does not fit is drained. -/
def readSocket (rxBuf : Buffer) (a : Arrival) : Option (Int × Bytes) :=
  if a.size ≤ netMaxPacket then (blit rxBuf.toList 0 a.data).map fun buf => ((a.data.length : Int), buf)
  else some (0, rxBuf.toList)

/-- The fields of a datagram of `size` bytes. -/
def parse (rxBuf : Bytes) (size : Nat) : Option Datagram := do
  let signed ← slice rxBuf 0 (size - netHmacLen)
  let tag ← netHmac hmac netKey signed
  let sent ← slice rxBuf (size - netHmacLen) netHmacLen
  let tagged ← netTagEqual tag sent
  let msgTs ← slice rxBuf 2 8
  let type ← slice rxBuf 0 2
  let body ← slice rxBuf netHeaderLen (size - netHeaderLen - netHmacLen)
  return { tagged, type := typeOf (combine type), ts := combine msgTs, body }

/-- None is an access out of bounds, and no datagram one of a bad size. -/
def receive (rxBuf : Buffer) (a : Arrival) : Option (Option Datagram) :=
  if a.size ≤ 0 then some none
  else
    (readSocket rxBuf a).bind fun r =>
      if a.size < (netHeaderLen + netHmacLen : Nat) ∨ r.1 ≠ a.size then some none
      else (parse hmac netKey r.2 a.size.toNat).map some

end

/-! ## Bodies -/

/-- The text from `offset` on; one without an end runs out of the body. -/
def readText (body : Bytes) (offset : Nat) : Option Bytes :=
  if 0 ∈ body.drop offset then some (cString (body.drop offset)) else none

def readNumber (body : Bytes) (offset n : Nat) : Option Nat := (slice body offset n).map combine

structure HeartbeatBody where
  buildNumber : Nat
  uptimeSec : Nat
  freeHeap : Nat
  rssi : Nat
  rejectWidth : Nat
  rejectInterval : Nat
  version : Bytes
  ip : Bytes
  mac : Bytes
deriving DecidableEq

structure LogEntryBody where
  level : Nat
  tag : Bytes
  msg : Bytes
  mac : Bytes
deriving DecidableEq

/-- Zeros are written over the bytes at which the texts end. -/
def writeZeros : List Nat → Bytes → Option Bytes
  | [], body => some body
  | i :: rest, body => (write body i 0).bind (writeZeros rest)

/-- A body of `size` bytes is copied, and its texts are ended. -/
def copyBody (bodyPtr : Bytes) (size : Nat) (ends : List Nat) : Option Bytes := (slice bodyPtr 0 size).bind (writeZeros ends)

def readHeartbeatBody (bodyPtr : Bytes) : Option HeartbeatBody := do
  let body ← copyBody bodyPtr heartbeatBodySize [32, 48, 66]
  let mac ← readText body 49
  let ip ← readText body 33
  let version ← readText body 17
  let buildNumber ← readNumber body 0 4
  let uptimeSec ← readNumber body 4 4
  let freeHeap ← readNumber body 8 4
  let rssi ← readNumber body 12 1
  let rejectWidth ← readNumber body 13 2
  let rejectInterval ← readNumber body 15 2
  return { buildNumber, uptimeSec, freeHeap, rssi, rejectWidth, rejectInterval, version, ip, mac }

/-- The one text of an OTA command or of a coin. -/
def readMacBody (bodyPtr : Bytes) : Option Bytes := do
  let body ← copyBody bodyPtr 18 [17]
  readText body 0

def readLogEntryBody (bodyPtr : Bytes) : Option LogEntryBody := do
  let body ← copyBody bodyPtr logEntryBodySize [16, 144, 162]
  let mac ← readText body 145
  let msg ← readText body 17
  let level ← readNumber body 0 1
  let tag ← readText body 1
  return { level, tag, msg, mac }

def upper (char : UInt8) : UInt8 := if 97 ≤ char ∧ char ≤ 122 then char - 32 else char

def toUpperCase (text : Bytes) : Bytes := text.map upper

/-- The node that reads. -/
structure Reader where
  isMaster : Bool
  ownMac : Bytes
  otaInProgress : Bool
deriving DecidableEq

/-- What the loop goes on with: a heartbeat is still to be entered in the table, and a command
    needs memory for its worker. -/
inductive Action where
  | nothing
  | heartbeat (body : HeartbeatBody)
  | otaAvailable (targetMac : Bytes)
  | logEntry (body : LogEntryBody)
  | coinInserted (mac : Bytes)
  | sessionStart
  | sessionEnd
  | reboot
deriving DecidableEq

/-- A body is copied and read where something is done with it. A node ignores its own
    heartbeat, a command to another one, and any command while it updates. -/
def act (reader : Reader) (datagram : Datagram) : Received → Option Action
  | .badTag | .stale | .ignored => some .nothing
  | .heartbeat _ =>
    (readHeartbeatBody datagram.body).map fun body =>
      if toUpperCase body.mac = toUpperCase reader.ownMac then .nothing else .heartbeat body
  | .otaAvailable _ =>
    if reader.otaInProgress then (copyBody datagram.body otaCmdBodySize []).map fun _ => .nothing
    else
      (readMacBody datagram.body).map fun targetMac =>
        if toUpperCase targetMac = toUpperCase reader.ownMac then .otaAvailable targetMac else .nothing
  | .logEntry _ => (readLogEntryBody datagram.body).map .logEntry
  | .replay _ => (readMacBody datagram.body).map fun _ => .nothing
  | .coinInserted _ => (readMacBody datagram.body).map .coinInserted
  | .sessionStart => some .sessionStart
  | .sessionEnd => some .sessionEnd
  | .reboot => some .reboot

def networkLoop (hmac : Hmac) (netKey : Nat) (rxBuf : Buffer) (reader : Reader) (now : Nat) (seen : CoinSeen) (a : Arrival) :
    Option (Action × CoinSeen) :=
  (receive hmac netKey rxBuf a).bind fun
    | none => some (.nothing, seen)
    | some datagram =>
      let outcome := Network.networkLoop reader.isMaster now seen datagram
      (act reader datagram outcome.1).map fun action => (action, outcome.2)

/-! ## The injector -/

namespace Injector

/-- A number that does not fit is an error. -/
def pack (n value : Nat) : Option Bytes := if value < 256 ^ n then some (split n value) else none

def loadKey (networkKey : Nat) : Option Bytes := pack 8 networkKey

def build (hmac : Hmac) (key : Bytes) (msgtype : Nat) (body : Bytes) (tsMs : Nat) (badTag : Option Bytes) : Option Bytes := do
  let type ← pack 2 msgtype
  let ts ← pack 8 tsMs
  let msg := type ++ ts ++ body
  return msg ++ badTag.getD ((hmac key msg).toList.take 16)

end Injector

/-! ## Sending -/

/-- What the tag is made from. -/
def signed (type : NetMsgType) (ts : Nat) (body : Bytes) : Bytes := split 2 (code type) ++ split 8 ts ++ body

def tagOf (hmac : Hmac) (netKey : Nat) (data : Bytes) : Bytes := (hmac (split 8 netKey) data).toList.take netHmacLen

def packet (hmac : Hmac) (netKey : Nat) (type : NetMsgType) (ts : Nat) (body : Bytes) : Bytes :=
  signed type ts body ++ tagOf hmac netKey (signed type ts body)

section
variable {hmac : Hmac} {netKey : Nat} {type : NetMsgType} {ts : Nat} {body : Bytes}

theorem netHmac_some (data : Bytes) : netHmac hmac netKey data = some (tagOf hmac netKey data) :=
  slice_some (by simp [netHmacLen])

theorem length_signed : (signed type ts body).length = netHeaderLen + body.length := by simp [signed, netHeaderLen]; omega

@[simp] theorem length_tagOf (data : Bytes) : (tagOf hmac netKey data).length = netHmacLen := by simp [tagOf, netHmacLen]

theorem length_packet : (packet hmac netKey type ts body).length = netHeaderLen + body.length + netHmacLen := by
  rw [packet, List.length_append, length_signed, length_tagOf]

/-- Different fields are signed as different bytes. -/
theorem signed_inj {other : NetMsgType} {otherTs : Nat} {otherBody : Bytes} (fits : ts < 2 ^ 64) (otherFits : otherTs < 2 ^ 64)
    (same : signed type ts body = signed other otherTs otherBody) : type = other ∧ ts = otherTs ∧ body = otherBody := by
  obtain ⟨header, bodies⟩ := List.append_inj same (by simp)
  obtain ⟨types, times⟩ := List.append_inj header (by simp)
  have codes := split_inj (code_lt type) (code_lt other) types
  have types : some type = some other := by rw [← typeOf_code, codes, typeOf_code]
  exact ⟨Option.some.inj types, split_inj fits otherFits times, bodies⟩

/-- The buffer has room for every body that is sent. -/
theorem netTransmit_packet (buf : Buffer) (short : body.length ≤ logEntryBodySize) :
    netTransmit hmac netKey buf type ts body = some (some (packet hmac netKey type ts body)) := by
  have most : logEntryBodySize = 163 := rfl
  have header : netHeaderLen = 10 := rfl
  have half : netHmacLen = 16 := rfl
  unfold netTransmit
  rw [if_neg (by omega)]
  generalize content : buf.toList = old
  have room : old.length = 189 := content ▸ buf.length_toList
  have typed : blit old 0 (split 2 (code type)) = some (split 2 (code type) ++ old.drop 2) := by
    rw [blit_start (by simp; omega), length_split]
  have timed : blit (split 2 (code type) ++ old.drop 2) 2 (split 8 ts) =
      some (split 2 (code type) ++ split 8 ts ++ old.drop netHeaderLen) := by
    rw [blit_filled (length_split 2 (code type)) _ (by simp; omega), length_split]
    rfl
  have bodied : blit (split 2 (code type) ++ split 8 ts ++ old.drop netHeaderLen) netHeaderLen body =
      some (signed type ts body ++ old.drop (netHeaderLen + body.length)) :=
    blit_filled (by simp [header]) _ (by omega)
  have tagged : blit (signed type ts body ++ old.drop (netHeaderLen + body.length)) (netHeaderLen + body.length)
      (tagOf hmac netKey (signed type ts body)) =
      some (packet hmac netKey type ts body ++ old.drop (netHeaderLen + body.length + netHmacLen)) := by
    rw [blit_filled length_signed _ (by simp; omega), length_tagOf]
    rfl
  have whole : slice (signed type ts body ++ old.drop (netHeaderLen + body.length)) 0 (netHeaderLen + body.length) =
      some (signed type ts body) := by
    rw [slice_left (by rw [length_signed]; omega), List.drop_zero, List.take_of_length_le (by rw [length_signed])]
  have sent : slice (packet hmac netKey type ts body ++ old.drop (netHeaderLen + body.length + netHmacLen)) 0
      (netHeaderLen + body.length + netHmacLen) = some (packet hmac netKey type ts body) := by
    rw [slice_left (by rw [length_packet]; omega), List.drop_zero, List.take_of_length_le (by rw [length_packet])]
  simp only [Option.bind_eq_bind, typed, timed, bodied, whole, netHmac_some, tagged, sent, Option.bind_some]
  rfl

end

/-! ## Receiving -/

/-- The bits in which the first bytes differ. -/
def diffOf (a b : Bytes) : Nat → UInt8
  | 0 => 0
  | i + 1 => diffOf a b i ||| (a.getD i 0 ^^^ b.getD i 0)

theorem diffOf_eq_zero {a b : Bytes} {n : Nat} : diffOf a b n = 0 ↔ ∀ i < n, a.getD i 0 = b.getD i 0 := by
  induction n with
  | zero => simp [diffOf]
  | succ n ih => rw [diffOf, UInt8.or_eq_zero_iff, UInt8.xor_eq_zero_iff, ih, Nat.forall_lt_succ_right]

theorem netTagEqual_some {a b : Bytes} (length : a.length = netHmacLen) (other : b.length = netHmacLen) :
    netTagEqual a b = some (decide (a = b)) := by
  have turn : ∀ i < netHmacLen, diffTurn a b i (diffOf a b i) = some (diffOf a b (i + 1)) := by
    intro i inside
    rw [diffTurn, read_some (by omega), read_some (by omega), diffOf, List.getD_eq_getElem?_getD, List.getD_eq_getElem?_getD,
      List.getElem?_eq_getElem (by omega), List.getElem?_eq_getElem (by omega)]
    rfl
  have same : diffOf a b netHmacLen = 0 ↔ a = b := by
    rw [diffOf_eq_zero]
    constructor
    · refine fun each => List.ext_getElem (by omega) fun i inside otherInside => ?_
      have here := each i (by omega)
      rwa [List.getD_eq_getElem?_getD, List.getD_eq_getElem?_getD, List.getElem?_eq_getElem inside,
        List.getElem?_eq_getElem otherInside] at here
    · rintro rfl i -
      rfl
  have turns : loop (diffTurn a b) 0 netHmacLen = some (diffOf a b netHmacLen) := loop_view (diffOf a b) turn
  rw [netTagEqual, turns, Option.map_some, decide_eq_decide.mpr same]

/-- The fields of a datagram that has room for a header and a tag. -/
def datagramOf (hmac : Hmac) (netKey : Nat) (data : Bytes) : Datagram where
  tagged := tagOf hmac netKey (data.take (data.length - netHmacLen)) = data.drop (data.length - netHmacLen)
  type := typeOf (combine (data.take 2))
  ts := combine ((data.drop 2).take 8)
  body := (data.drop netHeaderLen).take (data.length - netHeaderLen - netHmacLen)

section
variable {hmac : Hmac} {netKey : Nat} {data : Bytes}

theorem parse_some (long : netHeaderLen + netHmacLen ≤ data.length) (rest : Bytes) :
    parse hmac netKey (data ++ rest) data.length = some (datagramOf hmac netKey data) := by
  have header : netHeaderLen = 10 := rfl
  have half : netHmacLen = 16 := rfl
  have tag : (data.drop (data.length - netHmacLen)).take netHmacLen = data.drop (data.length - netHmacLen) :=
    List.take_of_length_le (by simp; omega)
  unfold parse
  rw [slice_left (by omega), slice_left (by omega), slice_left (by omega), slice_left (by omega), slice_left (by omega), tag]
  simp only [Option.bind_eq_bind, Option.bind_some, netHmac_some, List.drop_zero]
  rw [netTagEqual_some (length_tagOf _) (by simp; omega)]
  rfl

/-- The buffer is large enough for whatever is read into it. -/
theorem receive_cases (rxBuf : Buffer) (a : Arrival) :
    (receive hmac netKey rxBuf a = some none ∧
      ¬ (netHeaderLen + netHmacLen ≤ a.data.length ∧ a.data.length ≤ netMaxPacket ∧ a.size = a.data.length)) ∨
    (netHeaderLen + netHmacLen ≤ a.data.length ∧ a.data.length ≤ netMaxPacket ∧ a.size = a.data.length ∧
      receive hmac netKey rxBuf a = some (some (datagramOf hmac netKey a.data))) := by
  have header : netHeaderLen = 10 := rfl
  have half : netHmacLen = 16 := rfl
  have most : netMaxPacket = 189 := rfl
  have delivered := a.delivered
  by_cases nothing : a.size ≤ 0
  · exact .inl ⟨if_pos nothing, by omega⟩
  · by_cases fits : a.size ≤ netMaxPacket
    · generalize content : rxBuf.toList = old
      have room : old.length = 189 := content ▸ rxBuf.length_toList
      have got : readSocket rxBuf a = some ((a.data.length : Int), a.data ++ old.drop a.data.length) := by
        rw [readSocket, if_pos fits, content, blit_start (by omega)]
        rfl
      by_cases whole : a.size < (netHeaderLen + netHmacLen : Nat) ∨ (a.data.length : Int) ≠ a.size
      · refine .inl ⟨?_, by omega⟩
        rw [receive, if_neg nothing, got, Option.bind_some, if_pos whole]
      · have size : a.size.toNat = a.data.length := by omega
        refine .inr ⟨by omega, by omega, by omega, ?_⟩
        rw [receive, if_neg nothing, got, Option.bind_some, if_neg whole, size, parse_some (by omega)]
        rfl
    · refine .inl ⟨?_, by omega⟩
      rw [receive, if_neg nothing, readSocket, if_neg fits, Option.bind_some, if_pos (by omega)]

/-- What was sent is read back. -/
theorem datagramOf_packet {type : NetMsgType} {ts : Nat} (fits : ts < 2 ^ 64) (body : Bytes) :
    datagramOf hmac netKey (packet hmac netKey type ts body) = { tagged := true, type := some type, ts, body } := by
  have size : (packet hmac netKey type ts body).length - netHmacLen = (signed type ts body).length := by
    rw [length_packet, length_signed, Nat.add_sub_cancel]
  have rest : (packet hmac netKey type ts body).length - netHeaderLen - netHmacLen = body.length := by
    rw [length_packet]
    omega
  have typed : (packet hmac netKey type ts body).take 2 = split 2 (code type) := by
    rw [packet, signed, List.append_assoc, List.append_assoc, List.take_left' (length_split _ _)]
  have timed : ((packet hmac netKey type ts body).drop 2).take 8 = split 8 ts := by
    rw [packet, signed, List.append_assoc, List.append_assoc, List.drop_left' (length_split _ _), List.take_left' (length_split _ _)]
  have bodied : ((packet hmac netKey type ts body).drop netHeaderLen).take body.length = body := by
    have header : (split 2 (code type) ++ split 8 ts).length = netHeaderLen := by simp [netHeaderLen]
    rw [packet, signed, List.append_assoc, List.drop_left' header, List.take_left' rfl]
  unfold datagramOf
  rw [size, rest, typed, timed, bodied, combine_split (code_lt type), combine_split fits, typeOf_code, packet,
    List.take_left' rfl, List.drop_left' rfl]
  simp

/-! ## Bodies in bounds -/

theorem readText_some {offset last : Nat} (order : offset ≤ last) (ends : data[last]? = some 0) :
    readText data offset = some (cString (data.drop offset)) := by
  refine if_pos (List.mem_iff_getElem?.mpr ⟨last - offset, ?_⟩)
  rwa [List.getElem?_drop, Nat.add_sub_cancel' order]

theorem readNumber_some {offset n : Nat} (inside : offset + n ≤ data.length) :
    readNumber data offset n = some (combine ((data.drop offset).take n)) := by
  rw [readNumber, slice_some inside, Option.map_some]

theorem writeZeros_some {ends : List Nat} {body : Bytes} (inside : ∀ i ∈ ends, i < body.length) :
    ∃ text, writeZeros ends body = some text ∧ text.length = body.length ∧
      ∀ i < body.length, i ∈ ends ∨ body[i]? = some 0 → text[i]? = some 0 := by
  induction ends generalizing body with
  | nil => exact ⟨body, rfl, rfl, fun i _ zero => zero.resolve_left List.not_mem_nil⟩
  | cons first rest ih =>
    obtain ⟨here, there⟩ := List.forall_mem_cons.mp inside
    obtain ⟨text, written, length, zeros⟩ := ih (show ∀ i ∈ rest, i < (body.set first 0).length by simpa using there)
    rw [List.length_set] at length zeros
    refine ⟨text, ?_, length, fun i bound zero => zeros i bound ?_⟩
    · rw [writeZeros, write_some here, Option.bind_some, written]
    · by_cases same : first = i
      · subst same
        exact .inr (by rw [List.getElem?_set_self here])
      · rw [List.getElem?_set_ne same]
        exact zero.imp_left fun member => (List.mem_cons.mp member).resolve_left (Ne.symm same)

theorem copyBody_some {size : Nat} {ends : List Nat} (long : size ≤ data.length) (inside : ∀ i ∈ ends, i < size) :
    ∃ text, copyBody data size ends = some text ∧ text.length = size ∧ ∀ i ∈ ends, text[i]? = some 0 := by
  have length : (data.take size).length = size := by rw [List.length_take]; omega
  obtain ⟨text, written, same, zeros⟩ := writeZeros_some (show ∀ i ∈ ends, i < (data.take size).length by rwa [length])
  refine ⟨text, ?_, by omega, fun i member => zeros i (by rw [length]; exact inside i member) (.inl member)⟩
  rw [copyBody, slice_some (by omega), Option.bind_some, List.drop_zero, written]

theorem readHeartbeatBody_some (long : heartbeatBodySize ≤ data.length) : ∃ body, readHeartbeatBody data = some body := by
  obtain ⟨text, copied, size, ends⟩ := copyBody_some long (by decide : ∀ i ∈ [32, 48, 66], i < heartbeatBodySize)
  have length : text.length = 67 := size
  have mac := readText_some (by omega : 49 ≤ 66) (ends 66 (by decide))
  have ip := readText_some (by omega : 33 ≤ 48) (ends 48 (by decide))
  have version := readText_some (by omega : 17 ≤ 32) (ends 32 (by decide))
  have number (offset n : Nat) (inside : offset + n ≤ 67) :
      readNumber text offset n = some (combine ((text.drop offset).take n)) := readNumber_some (by omega)
  simp only [readHeartbeatBody, Option.bind_eq_bind, copied, mac, ip, version, number 0 4 (by omega), number 4 4 (by omega),
    number 8 4 (by omega), number 12 1 (by omega), number 13 2 (by omega), number 15 2 (by omega), Option.bind_some]
  exact ⟨_, rfl⟩

theorem readLogEntryBody_some (long : logEntryBodySize ≤ data.length) : ∃ body, readLogEntryBody data = some body := by
  obtain ⟨text, copied, size, ends⟩ := copyBody_some long (by decide : ∀ i ∈ [16, 144, 162], i < logEntryBodySize)
  have length : text.length = 163 := size
  have mac := readText_some (by omega : 145 ≤ 162) (ends 162 (by decide))
  have msg := readText_some (by omega : 17 ≤ 144) (ends 144 (by decide))
  have tag := readText_some (by omega : 1 ≤ 16) (ends 16 (by decide))
  have level : readNumber text 0 1 = some (combine ((text.drop 0).take 1)) := readNumber_some (by omega)
  simp only [readLogEntryBody, Option.bind_eq_bind, copied, mac, msg, tag, level, Option.bind_some]
  exact ⟨_, rfl⟩

/-- The text of a whole coin body is the sender that the loop passes on. -/
theorem readMacBody_some (long : coinInsertedBodySize ≤ data.length) : readMacBody data = some (coinInsertedMac data) := by
  have size : coinInsertedBodySize = 18 := rfl
  have before : (data.take 17).length = 17 := by rw [List.length_take]; omega
  have copied : copyBody data 18 [17] = some (data.take 17 ++ [0]) := by
    have cells : data.take 18 = data.take 17 ++ [data[17]] := List.take_succ_eq_append_getElem (by omega)
    rw [copyBody, slice_some (by omega), Option.bind_some, List.drop_zero, cells, writeZeros, write_some (by simp; omega),
      List.set_append_right (h := by omega), before]
    rfl
  have text := readText_some (Nat.zero_le 17) (show (data.take 17 ++ [0])[17]? = some (0 : UInt8) by
    rw [List.getElem?_append_right (by omega), before]
    rfl)
  have same : cString (data.take 17 ++ [0]) = coinInsertedMac data := by
    rw [coinInsertedMac, cString, cString, List.takeWhile_append]
    split
    · next whole =>
      rw [(List.takeWhile_prefix _).eq_of_length whole]
      simp
    · rfl
  simp only [readMacBody, Option.bind_eq_bind, copied, Option.bind_some, text, List.drop_zero, same]

end

/-- The bytes that are read of a body that something is done with. -/
def needed : Received → Nat
  | .heartbeat _ => heartbeatBodySize
  | .otaAvailable _ => otaCmdBodySize
  | .logEntry _ => logEntryBodySize
  | .replay _ | .coinInserted _ => coinInsertedBodySize
  | _ => 0

section
variable {isMaster : Bool} {now : Nat} {seen : CoinSeen} {datagram : Datagram}

/-- Every body that is read was measured. -/
theorem needed_le : needed (Network.networkLoop isMaster now seen datagram).1 ≤ datagram.body.length := by
  have none_ : 0 ≤ datagram.body.length := Nat.zero_le _
  unfold Network.networkLoop
  split
  · exact none_
  · split
    · exact none_
    · split
      · split
        · exact none_
        · next whole => exact Nat.not_lt.mp (not_or.mp whole).2
      · split
        · exact none_
        · next whole => exact Nat.not_lt.mp (not_or.mp whole).2
      · split
        · exact none_
        · next whole => exact Nat.not_lt.mp (not_or.mp whole).2
      · split
        · unfold masterReceives
          split
          · next whole =>
            dsimp only
            split <;> exact whole.2
          · exact none_
        · unfold slaveReceives
          split <;> exact none_

theorem act_some (reader : Reader) {outcome : Received} (long : needed outcome ≤ datagram.body.length) :
    ∃ action, act reader datagram outcome = some action := by
  cases outcome with
  | heartbeat => exact (readHeartbeatBody_some long).imp' _ fun body read => by rw [act, read]; rfl
  | logEntry => exact (readLogEntryBody_some long).imp' _ fun body read => by rw [act, read]; rfl
  | otaAvailable =>
    unfold act
    dsimp only
    split
    · have inside : 0 + otaCmdBodySize ≤ datagram.body.length := (Nat.zero_add _).le.trans long
      exact ⟨_, by rw [copyBody, slice_some inside]; rfl⟩
    · exact ⟨_, by rw [readMacBody_some long]; rfl⟩
  | replay | coinInserted => exact ⟨_, by rw [act, readMacBody_some long]; rfl⟩
  | badTag | stale | ignored | sessionStart | sessionEnd | reboot => exact ⟨_, rfl⟩

theorem networkLoop_badTag (bad : datagram.tagged = false) : Network.networkLoop isMaster now seen datagram = (.badTag, seen) := by
  simp [Network.networkLoop, bad]

theorem networkLoop_stale (tagged : datagram.tagged) (stale : ¬ Fresh now datagram.ts) :
    Network.networkLoop isMaster now seen datagram = (.stale, seen) := by
  simp [Network.networkLoop, tagged, stale]

/-- A tagged and fresh datagram comes to the handling of its type. -/
theorem networkLoop_accepts (tagged : datagram.tagged) (fresh : Fresh now datagram.ts) :
    (Network.networkLoop isMaster now seen datagram).1 ≠ .badTag ∧ (Network.networkLoop isMaster now seen datagram).1 ≠ .stale := by
  unfold Network.networkLoop masterReceives slaveReceives
  rw [if_neg (not_not.mpr tagged), if_neg (not_not.mpr fresh)]
  split
  · split <;> simp
  · split <;> simp
  · split <;> simp
  · split
    · split
      · dsimp only
        split <;> simp
      · simp
    · split <;> simp

end

/-! ## The codec -/

section
variable (hmac : Hmac) (netKey : Nat)

/-- The size is not that of a packet. -/
def BadLength (a : Arrival) : Prop := a.size < (netHeaderLen + netHmacLen : Nat) ∨ (netMaxPacket : Int) < a.size

/-- The last 16 bytes are not the tag of the others. -/
def BadTag (a : Arrival) : Prop :=
  tagOf hmac netKey (a.data.take (a.data.length - netHmacLen)) ≠ a.data.drop (a.data.length - netHmacLen)

/-- The time behind the type is too far from the clock. -/
def Stale (now : Nat) (a : Arrival) : Prop := ¬ Fresh now (combine ((a.data.drop 2).take 8))

/-- The sender, the receive loop and the injector agree on the bytes of a packet. -/
structure Codec : Prop where
  /-- What is sent is read back, and is handled while it is fresh. -/
  roundTrip : ∀ (buf rxBuf : Buffer) type ts body, ts < 2 ^ 64 → body.length ≤ logEntryBodySize →
    ∃ bytes, netTransmit hmac netKey buf type ts body = some (some bytes) ∧
      receive hmac netKey rxBuf (arrival bytes) = some (some { tagged := true, type := some type, ts, body }) ∧
      ∀ isMaster now seen, Fresh now ts →
        (Network.networkLoop isMaster now seen { tagged := true, type := some type, ts, body }).1 ≠ .badTag ∧
        (Network.networkLoop isMaster now seen { tagged := true, type := some type, ts, body }).1 ≠ .stale
  /-- The bytes before the tag are the ones that it is made from. -/
  authenticated : ∀ (buf : Buffer) type ts body, body.length ≤ logEntryBodySize →
    netTransmit hmac netKey buf type ts body = some (some (signed type ts body ++ tagOf hmac netKey (signed type ts body)))
  injective : ∀ type ts body other otherTs otherBody, ts < 2 ^ 64 → otherTs < 2 ^ 64 →
    signed type ts body = signed other otherTs otherBody → type = other ∧ ts = otherTs ∧ body = otherBody
  sendsInBounds : ∀ (buf : Buffer) type ts body, netTransmit hmac netKey buf type ts body ≠ none
  receivesInBounds : ∀ (rxBuf : Buffer) reader now seen a, networkLoop hmac netKey rxBuf reader now seen a ≠ none
  silent : ∀ (rxBuf : Buffer) reader now seen a, BadLength a ∨ BadTag hmac netKey a ∨ Stale now a →
    networkLoop hmac netKey rxBuf reader now seen a = some (.nothing, seen)
  injector : ∀ (buf : Buffer) type ts body, netKey < 2 ^ 64 → ts < 2 ^ 64 → body.length ≤ logEntryBodySize →
    (Injector.loadKey netKey).bind (fun key => Injector.build hmac key (code type) body ts none) =
      (netTransmit hmac netKey buf type ts body).join

end

section
variable {hmac : Hmac} {netKey : Nat}

/-- A datagram that is not read whole is dropped; any other is handled within its bounds. -/
theorem networkLoop_cases (rxBuf : Buffer) (reader : Reader) (now : Nat) (seen : CoinSeen) (a : Arrival) :
    networkLoop hmac netKey rxBuf reader now seen a = some (.nothing, seen) ∨
    (¬ BadLength a ∧ ∃ action,
      act reader (datagramOf hmac netKey a.data) (Network.networkLoop reader.isMaster now seen (datagramOf hmac netKey a.data)).1 = some action ∧
      networkLoop hmac netKey rxBuf reader now seen a =
        some (action, (Network.networkLoop reader.isMaster now seen (datagramOf hmac netKey a.data)).2)) := by
  rcases receive_cases rxBuf a with ⟨dropped, -⟩ | ⟨long, short, whole, read⟩
  · exact .inl (by rw [networkLoop, dropped]; rfl)
  · have measured : needed (Network.networkLoop reader.isMaster now seen (datagramOf hmac netKey a.data)).1 ≤
      (datagramOf hmac netKey a.data).body.length := needed_le
    obtain ⟨action, acts⟩ := act_some reader measured
    refine .inr ⟨?_, action, acts, ?_⟩
    · rw [BadLength]
      omega
    · simp only [networkLoop, read, Option.bind_some, acts, Option.map_some]

theorem networkLoop_silent {rxBuf : Buffer} {reader : Reader} {now : Nat} {seen : CoinSeen} {a : Arrival}
    (bad : BadLength a ∨ BadTag hmac netKey a ∨ Stale now a) :
    networkLoop hmac netKey rxBuf reader now seen a = some (.nothing, seen) := by
  rcases networkLoop_cases rxBuf reader now seen a with dropped | ⟨length, action, acts, done⟩
  · exact dropped
  · rw [done]
    by_cases tagged : (datagramOf hmac netKey a.data).tagged
    · have fresh : ¬ Fresh now (datagramOf hmac netKey a.data).ts := by
        rcases bad with short | forged | stale
        · exact absurd short length
        · exact absurd (of_decide_eq_true tagged) forged
        · exact stale
      rw [networkLoop_stale tagged fresh] at acts ⊢
      rw [← Option.some.inj acts]
    · rw [networkLoop_badTag (Bool.eq_false_of_not_eq_true tagged)] at acts ⊢
      rw [← Option.some.inj acts]

theorem build_packet {type : NetMsgType} {ts : Nat} {body : Bytes} (key : netKey < 2 ^ 64) (fits : ts < 2 ^ 64) :
    (Injector.loadKey netKey).bind (fun key => Injector.build hmac key (code type) body ts none) =
      some (packet hmac netKey type ts body) := by
  simp only [Injector.loadKey, Injector.build, Injector.pack, if_pos (show netKey < 256 ^ 8 from key), if_pos (code_lt type),
    if_pos (show ts < 256 ^ 8 from fits), Option.bind_eq_bind, Option.bind_some]
  rfl

theorem packet_codec (hmac : Hmac) (netKey : Nat) : Codec hmac netKey where
  roundTrip buf rxBuf type ts body fits short := by
    refine ⟨_, netTransmit_packet buf short, ?_, fun isMaster now seen fresh => networkLoop_accepts rfl fresh⟩
    have size : (packet hmac netKey type ts body).length = 10 + body.length + 16 := length_packet
    have most : body.length ≤ 163 := short
    rcases receive_cases rxBuf (arrival (packet hmac netKey type ts body)) with ⟨-, bad⟩ | ⟨-, -, -, read⟩
    · refine absurd ⟨?_, ?_, rfl⟩ bad
      · rw [arrival, size, netHeaderLen, netHmacLen]
        omega
      · rw [arrival, size, netMaxPacket, netHeaderLen, netHmacLen, logEntryBodySize]
        omega
    · rw [read, arrival, datagramOf_packet fits]
  authenticated buf type ts body short := netTransmit_packet buf short
  injective type ts body other otherTs otherBody fits otherFits same := signed_inj fits otherFits same
  sendsInBounds buf type ts body := by
    by_cases short : body.length ≤ logEntryBodySize
    · rw [netTransmit_packet buf short]
      exact Option.some_ne_none _
    · rw [netTransmit, if_pos (by omega)]
      exact Option.some_ne_none _
  receivesInBounds rxBuf reader now seen a := by
    rcases networkLoop_cases rxBuf reader now seen a with dropped | ⟨-, action, -, done⟩
    · rw [dropped]
      exact Option.some_ne_none _
    · rw [done]
      exact Option.some_ne_none _
  silent rxBuf reader now seen a bad := networkLoop_silent bad
  injector buf type ts body key fits short := by
    rw [build_packet key fits, netTransmit_packet buf short]
    rfl

end

end EllaFi.PacketBytes
