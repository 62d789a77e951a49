import EllaFi.PacketBytes

/-!
What the nodes say to each other. The sender copies each text into a zeroed field of fixed
size, which cuts off what is too long, and the receive loop ends the fields once more and
reads them. A message that is sent comes out of the loop, while it is fresh, as it was, its
texts cut to their fields, at those nodes that it is for, and does nothing at the others
(`networkLoop_bytes`).
-/
namespace EllaFi.Bodies
open EllaFi.CheckedMemory EllaFi.LittleEndian EllaFi.PacketBytes
open EllaFi.Network hiding networkLoop

/-! ## Fields -/

/-- What a field of `size` bytes has room for. -/
def kept (size : Nat) (text : Bytes) : Bytes := (cString text).take (size - 1)

/-- The text in a field that was zero; the last byte stays so. -/
def field (size : Nat) (text : Bytes) : Bytes :=
  kept size text ++ List.replicate (size - (kept size text).length) 0

section
variable {size : Nat} {text : Bytes}

theorem length_kept_le : (kept size text).length ≤ size - 1 := List.length_take_le _ _

@[simp] theorem length_field : (field size text).length = size := by
  have short : (kept size text).length ≤ size - 1 := length_kept_le
  simp only [field, List.length_append, List.length_replicate]
  omega

theorem zero_notMem_kept : (0 : UInt8) ∉ kept size text := by
  intro inside
  have := List.mem_takeWhile_imp (List.mem_of_mem_take inside)
  simp at this

theorem kept_of_clean (short : text.length ≤ size - 1) (clean : (0 : UInt8) ∉ text) : kept size text = text := by
  have whole : cString text = text :=
    List.takeWhile_eq_self_iff.mpr fun byte inside => decide_eq_true (ne_of_mem_of_not_mem inside clean)
  rw [kept, whole, List.take_of_length_le short]

theorem cString_append {text after : Bytes} (clean : (0 : UInt8) ∉ text) : cString (text ++ 0 :: after) = text := by
  unfold cString
  rw [List.takeWhile_append_of_pos fun byte inside => decide_eq_true (ne_of_mem_of_not_mem inside clean)]
  simp

theorem field_eq (room : 0 < size) :
    field size text = kept size text ++ 0 :: List.replicate (size - 1 - (kept size text).length) 0 := by
  have short : (kept size text).length ≤ size - 1 := length_kept_le
  rw [field, ← List.replicate_succ]
  congr 2
  omega

theorem last_field (room : 0 < size) : (field size text)[size - 1]? = some 0 := by
  have short : (kept size text).length ≤ size - 1 := length_kept_le
  rw [field, List.getElem?_append_right short, List.getElem?_replicate_of_lt (by omega)]

end

/-! ## Bodies by their parts -/

section
variable {parts : List Bytes} {k offset size : Nat} {text : Bytes}

theorem flatten_part {part : Bytes} (here : parts[k]? = some part) :
    parts.flatten = (parts.take k).flatten ++ (part ++ (parts.drop (k + 1)).flatten) := by
  obtain ⟨inside, rfl⟩ := List.getElem?_eq_some_iff.mp here
  rw [← List.flatten_cons, ← List.drop_eq_getElem_cons inside, ← List.flatten_append, List.take_append_drop]

theorem drop_part {part : Bytes} (here : parts[k]? = some part) (place : (parts.take k).flatten.length = offset) :
    parts.flatten.drop offset = part ++ (parts.drop (k + 1)).flatten := by
  rw [flatten_part here, ← place, List.drop_left]

/-- A field is read as what it has room for. -/
theorem readText_part (here : parts[k]? = some (field size text)) (place : (parts.take k).flatten.length = offset)
    (room : 0 < size) : readText parts.flatten offset = some (kept size text) := by
  rw [readText, drop_part here place, field_eq room, List.append_assoc, List.cons_append, if_pos (by simp),
    cString_append zero_notMem_kept]

theorem readNumber_part {n value : Nat} (here : parts[k]? = some (split n value))
    (place : (parts.take k).flatten.length = offset) (fits : value < 256 ^ n) :
    readNumber parts.flatten offset n = some value := by
  have inside : offset + n ≤ parts.flatten.length := by
    have whole := congrArg List.length (flatten_part here)
    simp only [List.length_append, length_split, place] at whole
    omega
  rw [readNumber, slice_some inside, drop_part here place, List.take_left' (length_split n value), Option.map_some,
    combine_split fits]

theorem last_part (here : parts[k]? = some (field size text)) (place : (parts.take k).flatten.length + (size - 1) = offset)
    (room : 0 < size) : parts.flatten[offset]? = some 0 := by
  rw [← place, ← List.getElem?_drop, drop_part here rfl, List.getElem?_append_left (by rw [length_field]; omega),
    last_field room]

end

/-- Texts that end already are not changed by ending them. -/
theorem copyBody_same {body : Bytes} {size : Nat} {ends : List Nat} (whole : body.length = size)
    (zeros : ∀ i ∈ ends, body[i]? = some 0) : copyBody body size ends = some body := by
  rw [copyBody, slice_some (by omega), Option.bind_some, List.drop_zero, ← whole, List.take_length]
  induction ends with
  | nil => rfl
  | cons i rest ih =>
    obtain ⟨here, there⟩ := List.forall_mem_cons.mp zeros
    obtain ⟨inside, zero⟩ := List.getElem?_eq_some_iff.mp here
    have same : body.set i 0 = body := by rw [← zero, List.set_getElem_self]
    rw [writeZeros, write_some inside, Option.bind_some, same, ih there]

/-! ## What is said -/

inductive Message where
  | heartbeat (body : HeartbeatBody)
  | otaAvailable (targetMac : Bytes)
  | logEntry (body : LogEntryBody)
  | coinInserted (mac : Bytes)
  | sessionStart
  | sessionEnd
  | reboot
deriving DecidableEq

def Message.type : Message → NetMsgType
  | .heartbeat _ => .heartbeat
  | .otaAvailable _ => .otaAvailable
  | .logEntry _ => .logEntry
  | .coinInserted _ => .coinInserted
  | .sessionStart => .sessionStart
  | .sessionEnd => .sessionEnd
  | .reboot => .reboot

/-- The fields of the body as the sender fills them in. -/
def Message.parts : Message → List Bytes
  | .heartbeat body =>
    [split 4 body.buildNumber, split 4 body.uptimeSec, split 4 body.freeHeap, split 1 body.rssi, split 2 body.rejectWidth,
      split 2 body.rejectInterval, field 16 body.version, field 16 body.ip, field 18 body.mac]
  | .otaAvailable targetMac => [field 18 targetMac]
  | .logEntry body => [split 1 body.level, field 16 body.tag, field 128 body.msg, field 18 body.mac]
  | .coinInserted mac => [field 18 mac]
  | .sessionStart | .sessionEnd | .reboot => []

/-- The numbers are those of their types. -/
def Message.Fits : Message → Prop
  | .heartbeat body =>
    body.buildNumber < 256 ^ 4 ∧ body.uptimeSec < 256 ^ 4 ∧ body.freeHeap < 256 ^ 4 ∧ body.rssi < 256 ^ 1 ∧
      body.rejectWidth < 256 ^ 2 ∧ body.rejectInterval < 256 ^ 2
  | .logEntry body => body.level < 256 ^ 1
  | _ => True

instance : DecidablePred Message.Fits
  | .heartbeat _ => inferInstanceAs (Decidable (_ ∧ _))
  | .logEntry _ => inferInstanceAs (Decidable (_ < _))
  | .otaAvailable _ | .coinInserted _ | .sessionStart | .sessionEnd | .reboot => .isTrue trivial

/-- The texts as the fields keep them. -/
def HeartbeatBody.cut (body : HeartbeatBody) : HeartbeatBody :=
  { body with version := kept 16 body.version, ip := kept 16 body.ip, mac := kept 18 body.mac }

def LogEntryBody.cut (body : LogEntryBody) : LogEntryBody :=
  { body with tag := kept 16 body.tag, msg := kept 128 body.msg, mac := kept 18 body.mac }

def Message.bytes (hmac : Hmac) (netKey ts : Nat) (message : Message) : Bytes :=
  packet hmac netKey message.type ts message.parts.flatten

/-- What a node goes on with of a message that was sent at `ts`: what the slaves say is for
    the master, but its own heartbeat, and what the master says for the slaves, a command for
    the one that it names, if that one is not updating yet. -/
def Message.heard (reader : Reader) (seen : CoinSeen) (ts : Nat) : Message → PacketBytes.Action × CoinSeen
  | .heartbeat body =>
    (if reader.isMaster ∧ toUpperCase (kept 18 body.mac) ≠ toUpperCase reader.ownMac then .heartbeat (HeartbeatBody.cut body)
      else .nothing, seen)
  | .otaAvailable targetMac =>
    (if ¬ reader.isMaster ∧ ¬ reader.otaInProgress ∧ toUpperCase (kept 18 targetMac) = toUpperCase reader.ownMac then
        .otaAvailable (kept 18 targetMac)
      else .nothing, seen)
  | .logEntry body => (if reader.isMaster then .logEntry (LogEntryBody.cut body) else .nothing, seen)
  | .coinInserted mac =>
    if reader.isMaster then
      let (replay, seen) := coinIsReplay seen (kept 18 mac) ts
      (if replay then .nothing else .coinInserted (kept 18 mac), seen)
    else (.nothing, seen)
  | .sessionStart => (if reader.isMaster then .nothing else .sessionStart, seen)
  | .sessionEnd => (if reader.isMaster then .nothing else .sessionEnd, seen)
  | .reboot => (if reader.isMaster then .nothing else .reboot, seen)

section
variable {hmac : Hmac} {netKey : Nat}

theorem readHeartbeatBody_parts {body : HeartbeatBody} (fits : (Message.heartbeat body).Fits) :
    readHeartbeatBody (Message.heartbeat body).parts.flatten = some (HeartbeatBody.cut body) := by
  obtain ⟨build, uptime, heap, rssi, width, interval⟩ := fits
  generalize content : (Message.heartbeat body).parts.flatten = whole
  have copied : copyBody whole heartbeatBodySize [32, 48, 66] = some whole := by
    subst content
    refine copyBody_same (by simp [Message.parts, heartbeatBodySize]) fun i inside => ?_
    simp only [List.mem_cons, List.not_mem_nil, or_false] at inside
    rcases inside with rfl | rfl | rfl
    · exact last_part (k := 6) rfl (by simp [Message.parts]) (by decide)
    · exact last_part (k := 7) rfl (by simp [Message.parts]) (by decide)
    · exact last_part (k := 8) rfl (by simp [Message.parts]) (by decide)
  have mac : readText whole 49 = some (kept 18 body.mac) :=
    content ▸ readText_part (k := 8) rfl (by simp [Message.parts]) (by decide)
  have ip : readText whole 33 = some (kept 16 body.ip) :=
    content ▸ readText_part (k := 7) rfl (by simp [Message.parts]) (by decide)
  have version : readText whole 17 = some (kept 16 body.version) :=
    content ▸ readText_part (k := 6) rfl (by simp [Message.parts]) (by decide)
  have build : readNumber whole 0 4 = some body.buildNumber :=
    content ▸ readNumber_part (k := 0) rfl rfl build
  have uptime : readNumber whole 4 4 = some body.uptimeSec :=
    content ▸ readNumber_part (k := 1) rfl (by simp [Message.parts]) uptime
  have heap : readNumber whole 8 4 = some body.freeHeap :=
    content ▸ readNumber_part (k := 2) rfl (by simp [Message.parts]) heap
  have rssi : readNumber whole 12 1 = some body.rssi :=
    content ▸ readNumber_part (k := 3) rfl (by simp [Message.parts]) rssi
  have width : readNumber whole 13 2 = some body.rejectWidth :=
    content ▸ readNumber_part (k := 4) rfl (by simp [Message.parts]) width
  have interval : readNumber whole 15 2 = some body.rejectInterval :=
    content ▸ readNumber_part (k := 5) rfl (by simp [Message.parts]) interval
  simp only [readHeartbeatBody, Option.bind_eq_bind, copied, mac, ip, version, build, uptime, heap, rssi, width, interval,
    Option.bind_some]
  rfl

theorem readLogEntryBody_parts {body : LogEntryBody} (fits : (Message.logEntry body).Fits) :
    readLogEntryBody (Message.logEntry body).parts.flatten = some (LogEntryBody.cut body) := by
  generalize content : (Message.logEntry body).parts.flatten = whole
  have copied : copyBody whole logEntryBodySize [16, 144, 162] = some whole := by
    subst content
    refine copyBody_same (by simp [Message.parts, logEntryBodySize]) fun i inside => ?_
    simp only [List.mem_cons, List.not_mem_nil, or_false] at inside
    rcases inside with rfl | rfl | rfl
    · exact last_part (k := 1) rfl (by simp [Message.parts]) (by decide)
    · exact last_part (k := 2) rfl (by simp [Message.parts]) (by decide)
    · exact last_part (k := 3) rfl (by simp [Message.parts]) (by decide)
  have mac : readText whole 145 = some (kept 18 body.mac) :=
    content ▸ readText_part (k := 3) rfl (by simp [Message.parts]) (by decide)
  have msg : readText whole 17 = some (kept 128 body.msg) :=
    content ▸ readText_part (k := 2) rfl (by simp [Message.parts]) (by decide)
  have tag : readText whole 1 = some (kept 16 body.tag) :=
    content ▸ readText_part (k := 1) rfl (by simp [Message.parts]) (by decide)
  have level : readNumber whole 0 1 = some body.level := content ▸ readNumber_part (k := 0) rfl rfl fits
  simp only [readLogEntryBody, Option.bind_eq_bind, copied, mac, msg, tag, level, Option.bind_some]
  rfl

/-- The one text of a coin or of an OTA command. -/
theorem coinInsertedMac_field (mac : Bytes) : coinInsertedMac (field 18 mac) = kept 18 mac := by
  have short : (kept 18 mac).length ≤ 17 := length_kept_le
  have before : (field 18 mac).take 17 = kept 18 mac ++ List.replicate (17 - (kept 18 mac).length) 0 := by
    rw [field, List.take_append, List.take_of_length_le short, List.take_replicate]
    congr 2
    omega
  rw [coinInsertedMac, before]
  cases 17 - (kept 18 mac).length with
  | zero =>
    rw [List.replicate_zero, List.append_nil]
    exact List.takeWhile_eq_self_iff.mpr fun byte inside => decide_eq_true (ne_of_mem_of_not_mem inside zero_notMem_kept)
  | succ n => rw [List.replicate_succ, cString_append zero_notMem_kept]

theorem length_parts_le (message : Message) : message.parts.flatten.length ≤ logEntryBodySize := by
  cases message <;> simp [Message.parts, logEntryBodySize]

theorem readMacBody_field (mac : Bytes) : readMacBody (field 18 mac) = some (kept 18 mac) := by
  rw [readMacBody_some (by rw [length_field]; decide), coinInsertedMac_field]

/-- The datagram that the loop makes out of a message. -/
def Message.datagram (ts : Nat) (message : Message) : Datagram where
  tagged := true
  type := some message.type
  ts := ts
  body := message.parts.flatten

/-- The loop does with the datagram what the message says. -/
theorem act_datagram {message : Message} (reader : Reader) {now ts : Nat} {seen : CoinSeen} (fits : message.Fits)
    (fresh : Fresh now ts) :
    (act reader (message.datagram ts) (Network.networkLoop reader.isMaster now seen (message.datagram ts)).1).map
        (fun action => (action, (Network.networkLoop reader.isMaster now seen (message.datagram ts)).2)) =
      some (message.heard reader seen ts) := by
  obtain ⟨isMaster, ownMac, otaInProgress⟩ := reader
  cases message with
  | heartbeat body =>
    have read := readHeartbeatBody_parts fits
    have long : heartbeatBodySize ≤ (Message.heartbeat body).parts.flatten.length := by
      simp [Message.parts, heartbeatBodySize]
    have mac : (HeartbeatBody.cut body).mac = kept 18 body.mac := rfl
    unfold Message.datagram
    generalize (Message.heartbeat body).parts.flatten = whole at read long
    cases isMaster <;>
      simp [Network.networkLoop, Message.type, fresh, act, Message.heard, Nat.not_lt.mpr long, read, mac]
  | logEntry body =>
    have read := readLogEntryBody_parts fits
    have long : logEntryBodySize ≤ (Message.logEntry body).parts.flatten.length := by
      simp [Message.parts, logEntryBodySize]
    unfold Message.datagram
    generalize (Message.logEntry body).parts.flatten = whole at read long
    cases isMaster <;>
      simp [Network.networkLoop, Message.type, fresh, act, Message.heard, Nat.not_lt.mpr long, read]
  | otaAvailable targetMac =>
    have long : 0 + otaCmdBodySize ≤ (field 18 targetMac).length := by rw [length_field]; decide
    have copied : copyBody (field 18 targetMac) otaCmdBodySize [] = some (field 18 targetMac) := by
      rw [copyBody, slice_some long, List.drop_zero, List.take_of_length_le (by rw [length_field]; decide)]
      rfl
    have short : ¬ 18 < otaCmdBodySize := by decide
    cases isMaster <;> cases otaInProgress <;>
      simp [Message.datagram, Message.parts, Network.networkLoop, Message.type, fresh, act, Message.heard, short, copied,
        readMacBody_field]
  | coinInserted mac =>
    cases isMaster with
    | false =>
      simp [Message.datagram, Network.networkLoop, Message.type, fresh, act, Message.heard, slaveReceives]
    | true =>
      have long : coinInsertedBodySize ≤ (field 18 mac).length := by rw [length_field]; decide
      simp only [Message.datagram, Message.parts, List.flatten_cons, List.flatten_nil, List.append_nil, Message.type,
        Network.networkLoop, fresh, not_true, if_false, masterReceives, long, and_self, if_true, Message.heard,
        coinInsertedMac_field]
      cases coinIsReplay seen (kept 18 mac) ts with
      | mk replay after => cases replay <;> simp [act, readMacBody_field]
  | sessionStart | sessionEnd | reboot =>
    cases isMaster <;>
      simp [Message.datagram, Network.networkLoop, Message.type, fresh, act, Message.heard, masterReceives, slaveReceives]

theorem networkLoop_bytes {message : Message} {hmac : Hmac} {netKey ts now : Nat} {rxBuf : Buffer} {reader : Reader}
    {seen : CoinSeen} (fits : message.Fits) (time : ts < 2 ^ 64) (fresh : Fresh now ts) :
    PacketBytes.networkLoop hmac netKey rxBuf reader now seen (arrival (message.bytes hmac netKey ts)) =
      some (message.heard reader seen ts) := by
  have room := length_parts_le message
  have size : (message.bytes hmac netKey ts).length = 10 + message.parts.flatten.length + 16 := length_packet
  have most : logEntryBodySize = 163 := rfl
  have read : datagramOf hmac netKey (message.bytes hmac netKey ts) = message.datagram ts := datagramOf_packet time _
  rcases receive_cases rxBuf (arrival (message.bytes hmac netKey ts)) with ⟨-, bad⟩ | ⟨-, -, -, received⟩
  · refine absurd ⟨?_, ?_, rfl⟩ bad
    · rw [arrival, size, netHeaderLen, netHmacLen]
      omega
    · rw [arrival, size, netMaxPacket, netHeaderLen, netHmacLen]
      omega
  · rw [PacketBytes.networkLoop, received, arrival, read]
    exact act_datagram reader fits fresh

end

/-- Whatever a node says, in one packet, is what the others hear while it is fresh: the
    numbers as they were, the texts cut to what their fields hold, and nothing at the nodes
    that it is not for. -/
theorem said_heard {message : Message} (fits : message.Fits) {ts now : Nat} (time : ts < 2 ^ 64) (fresh : Fresh now ts)
    (hmac : Hmac) (netKey : Nat) (txBuf rxBuf : Buffer) (reader : Reader) (seen : CoinSeen) :
    (netTransmit hmac netKey txBuf message.type ts message.parts.flatten).map
        (Option.bind · fun bytes => PacketBytes.networkLoop hmac netKey rxBuf reader now seen (arrival bytes)) =
      some (some (message.heard reader seen ts)) := by
  rw [netTransmit_packet txBuf (length_parts_le message), Option.map_some, Option.bind_some]
  exact congrArg some (networkLoop_bytes fits time fresh)

/-- A log entry whose tag is too long for its field. -/
def longTag : Message :=
  .logEntry { level := 87, tag := List.replicate 20 65, msg := [72, 105], mac := [49, 50] }

theorem said_heard_longTag :
    (netTransmit (fun _ _ => Vector.replicate 32 7) 5 (Vector.replicate _ 1) longTag.type 1000 longTag.parts.flatten).map
        (Option.bind · fun bytes => PacketBytes.networkLoop (fun _ _ => Vector.replicate 32 7) 5 (Vector.replicate _ 2)
          { isMaster := true, ownMac := [51], otaInProgress := false } 4000 emptySeen (arrival bytes)) =
      some (some (.logEntry { level := 87, tag := List.replicate 15 65, msg := [72, 105], mac := [49, 50] }, emptySeen)) := by
  exact said_heard (show longTag.Fits by decide) (by decide) (by decide) _ 5 _ _ _ emptySeen

end EllaFi.Bodies
