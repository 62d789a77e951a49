import EllaFi.NodeTable
import EllaFi.PulledFirmware

/-!
How a new firmware goes round. Every node says its build, the master tells those with an
older one to update, and a node that is told fetches the firmware from where the command
came from. Packets are lost, repeated, delivered late and in any order, and others send
packets that they cannot sign, or send again what they have heard. As long as the master
itself is not put back to an older build, and no other host repeats a command while it is
fresh, no node ever is, and the firmware that a node takes is one that the master ran
(`never_lowered`); and a node that is behind can always still be brought up (`catches_up`).
-/
namespace EllaFi.Rollout
open EllaFi.Bodies EllaFi.NodeTable
open EllaFi.Network (Mac CoinSeen Fresh emptySeen)
open EllaFi.PacketBytes (Bytes Hmac Buffer Arrival BadTag Stale HeartbeatBody Reader toUpperCase arrival datagramOf_packet
  networkLoop_silent)
open EllaFi.PulledFirmware (Updater Response Ended slaveOtaTask)
open EllaFi.Runs (run run_cons Throughout throughout_shows)
universe u

/-! ## The system -/

/-- The nodes and their addresses, which no two share. -/
structure Fleet (Node Ip : Type) where
  mac : Node → Mac
  masterMac : Mac
  masterIp : Ip
  distinct : ∀ {one other}, toUpperCase (mac one).chars = toUpperCase (mac other).chars → one = other
  slaves : ∀ {node}, toUpperCase (mac node).chars ≠ toUpperCase masterMac.chars
  /-- The build of the firmware that any other host hands out. -/
  foreign : Ip → Nat

/-- A packet that was sent. -/
structure Said (Ip : Type) where
  ip : Ip
  message : Message
  ts : Nat

structure Slave (Ip : Type) where
  /-- Of the firmware that starts next. -/
  build : Nat
  /-- Where the OTA worker fetches from, while there is one. -/
  ota : Option Ip

structure World (Node Ip : Type) where
  build : Nat
  table : NodeMap
  slaves : Node → Slave Ip
  /-- Everything that was ever sent. -/
  wire : List (Said Ip)

/-- What comes to a node: something that was sent, from the host that sends it now, or bytes
    that nobody with the key made. -/
inductive Delivery (Ip : Type) where
  | sent (i : Nat) (ip : Ip)
  | forged (ip : Ip) (a : Arrival)

section
variable (Node Ip : Type) (lib : Updater.{u})

inductive Action where
  /-- A slave broadcasts its heartbeat. -/
  | broadcastHeartbeat (node : Node) (ip : Ip) (body : HeartbeatBody) (ts : Nat)
  /-- Some node sends a packet of another kind. -/
  | speak (said : Said Ip)
  /-- The master reads a packet; the table's lock is asked for at the two times. -/
  | masterHears (delivery : Delivery Ip) (rxBuf : Buffer) (now : Nat) (seen : CoinSeen) (stored counted : Option UInt32)
  /-- A slave reads a packet; `created` says whether the worker could be started. -/
  | slaveHears (node : Node) (delivery : Delivery Ip) (rxBuf : Buffer) (now : Nat) (seen : CoinSeen) (created : Bool)
  /-- The worker of a slave ends. -/
  | fetched (node : Node) (response : Response) (bufAllocated : Bool) (update : lib.State)
  /-- The power of a slave was cut. -/
  | restart (node : Node)
  /-- The master starts with other firmware. -/
  | release (build : Nat)

end

section
variable {Node Ip : Type} [DecidableEq Node] [DecidableEq Ip] {lib : Updater.{u}} (fleet : Fleet Node Ip) (hmac : Hmac)
  (netKey : Nat)

instance (a : Arrival) : Decidable (BadTag hmac netKey a) := inferInstanceAs (Decidable (_ ≠ _))

def Fleet.own (build : Nat) : Own where
  mac := toUpperCase fleet.masterMac.chars
  named := List.ne_nil_of_length_pos (by simp [toUpperCase, fleet.masterMac.length])
  firmwareBuild := build

def Fleet.master : Reader := { isMaster := true, ownMac := fleet.masterMac.chars, otaInProgress := false }

def Fleet.slave (w : World Node Ip) (node : Node) : Reader :=
  { isMaster := false, ownMac := (fleet.mac node).chars, otaInProgress := (w.slaves node).ota.isSome }

/-- The bytes that are read, and where they come from. No tag covers the address. -/
def arrivalOf (w : World Node Ip) : Delivery Ip → Option (Ip × Arrival)
  | .sent i ip => w.wire[i]?.map fun said => (ip, arrival (said.message.bytes hmac netKey said.ts))
  | .forged ip a => if BadTag hmac netKey a then some (ip, a) else none

/-- A message that is neither a heartbeat nor a command to update. -/
def Other : Message → Prop
  | .heartbeat _ | .otaAvailable _ => False
  | _ => True

instance : DecidablePred Other
  | .heartbeat _ | .otaAvailable _ => .isFalse id
  | .logEntry _ | .coinInserted _ | .sessionStart | .sessionEnd | .reboot => .isTrue trivial

def Said.Fits (said : Said Ip) : Prop := said.message.Fits ∧ said.ts < 2 ^ 64

instance (said : Said Ip) : Decidable said.Fits := inferInstanceAs (Decidable (_ ∧ _))

/-- The heartbeat is the node's own. -/
def Slave.Tells (slave : Slave Ip) (mac : Mac) (body : HeartbeatBody) : Prop :=
  body.buildNumber = slave.build ∧ body.mac = mac.chars

instance (slave : Slave Ip) (mac : Mac) (body : HeartbeatBody) : Decidable (slave.Tells mac body) :=
  inferInstanceAs (Decidable (_ ∧ _))

def World.set (w : World Node Ip) (node : Node) (slave : Slave Ip) : World Node Ip :=
  { w with slaves := Function.update w.slaves node slave }

def World.say (w : World Node Ip) (said : List (Said Ip)) : World Node Ip := { w with wire := w.wire ++ said }

/-- The firmware that a host hands out. -/
def Fleet.served (w : World Node Ip) (ip : Ip) : Nat := if ip = fleet.masterIp then w.build else fleet.foreign ip

/-- The master has read a heartbeat, and tells an older node to update. -/
def masterHeard (w : World Node Ip) (beat : Beat Ip) (ts : Nat) : World Node Ip :=
  let sent : Option (Bytes × Ip) := otaSent (fleet.own w.build) beat
  World.say { w with table := recvHeartbeat (fleet.own w.build) w.table beat }
    (sent.toList.map fun sent => { ip := fleet.masterIp, message := .otaAvailable sent.1, ts })

/-- A slave has read a command for it that came from `ip`. -/
def otaHeard (w : World Node Ip) (node : Node) (ip : Ip) (created : Bool) : World Node Ip :=
  if created then w.set node { w.slaves node with ota := some ip } else w

def masterDoes (w : World Node Ip) (senderIp : Ip) (stored counted : Option UInt32) (now : Nat) :
    PacketBytes.Action → World Node Ip
  | .heartbeat body => masterHeard fleet w { body, senderIp, stored, counted } now
  | _ => w

def slaveDoes (w : World Node Ip) (node : Node) (senderIp : Ip) (created : Bool) : PacketBytes.Action → World Node Ip
  | .otaAvailable _ => otaHeard w node senderIp created
  | .reboot => w.set node { w.slaves node with ota := none }
  | _ => w

def fetched (w : World Node Ip) (node : Node) (committed : Option Nat) : Option (World Node Ip) :=
  let slave := w.slaves node
  slave.ota.map fun ip =>
    w.set node { build := if committed.isSome then fleet.served w ip else slave.build, ota := none }

def step (w : World Node Ip) : Action Node Ip lib → Option (World Node Ip)
  | .broadcastHeartbeat node ip body ts =>
    let said : Said Ip := { ip, message := .heartbeat body, ts }
    if (w.slaves node).Tells (fleet.mac node) body ∧ said.Fits then some (w.say [said]) else none
  | .speak said => if Other said.message ∧ said.Fits then some (w.say [said]) else none
  | .masterHears delivery rxBuf now seen stored counted =>
    if now < 2 ^ 64 then
      (arrivalOf hmac netKey w delivery).bind fun (senderIp, a) =>
        (PacketBytes.networkLoop hmac netKey rxBuf fleet.master now seen a).map fun read =>
          masterDoes fleet w senderIp stored counted now read.1
    else none
  | .slaveHears node delivery rxBuf now seen created =>
    (arrivalOf hmac netKey w delivery).bind fun (senderIp, a) =>
      (PacketBytes.networkLoop hmac netKey rxBuf (fleet.slave w node) now seen a).map fun read =>
        slaveDoes w node senderIp created read.1
  | .fetched node response bufAllocated update =>
    fetched fleet w node (slaveOtaTask response bufAllocated update).committed
  | .restart node => some (w.set node { w.slaves node with ota := none })
  | .release build => some { w with build, table := ∅ }

/-- The master is not put back to an older build. -/
def Upward (w : World Node Ip) : Action Node Ip lib → Prop
  | .release build => w.build ≤ build
  | _ => True

instance (w : World Node Ip) (a : Action Node Ip lib) : Decidable (Upward w a) :=
  match a with
  | .release build => inferInstanceAs (Decidable (w.build ≤ build))
  | .broadcastHeartbeat .. | .speak _ | .masterHears .. | .slaveHears .. | .fetched .. | .restart _ => .isTrue trivial

def IsCommand : Message → Prop
  | .otaAvailable _ => True
  | _ => False

instance : DecidablePred IsCommand
  | .otaAvailable _ => .isTrue trivial
  | .heartbeat _ | .logEntry _ | .coinInserted _ | .sessionStart | .sessionEnd | .reboot => .isFalse id

/-- A command that a slave reads while it is fresh comes from the host that said it. -/
def Direct (w : World Node Ip) : Action Node Ip lib → Prop
  | .slaveHears _ (.sent i ip) _ now _ _ => ∀ said ∈ w.wire[i]?, IsCommand said.message → Fresh now said.ts → ip = said.ip
  | _ => True

instance (w : World Node Ip) (a : Action Node Ip lib) : Decidable (Direct w a) :=
  match a with
  | .slaveHears _ (.sent _ _) .. => inferInstanceAs (Decidable (∀ said ∈ _, _))
  | .slaveHears _ (.forged _ _) .. | .broadcastHeartbeat .. | .speak _ | .masterHears .. | .fetched .. | .restart _
  | .release _ => .isTrue trivial

/-! ## What a step can do -/

/-- The new packets of a step are of its sender, and at most one slave changes. -/
inductive Step (w : World Node Ip) : World Node Ip → Prop
  | said {said : Said Ip} (other : Other said.message) (fits : said.Fits) : Step w (w.say [said])
  | told {node ip body ts} (tells : (w.slaves node).Tells (fleet.mac node) body) (fits : Said.Fits { ip, message := .heartbeat body, ts }) :
      Step w (w.say [{ ip, message := .heartbeat body, ts }])
  /-- The node is told to update if it is older. -/
  | heard {said : Said Ip} {body now} (inside : said ∈ w.wire) (own : said.message = .heartbeat body) (time : now < 2 ^ 64)
      (senderIp stored counted) :
      Step w (masterHeard fleet w { body := HeartbeatBody.cut body, senderIp, stored, counted } now)
  | started {node targetMac} {said : Said Ip} (inside : said ∈ w.wire) (own : said.message = .otaAvailable targetMac)
      (target : toUpperCase (kept 18 targetMac) = toUpperCase (fleet.mac node).chars) :
      Step w (w.set node { w.slaves node with ota := some said.ip })
  | stopped (node) : Step w (w.set node { w.slaves node with ota := none })
  | updated {node ip} (fetching : (w.slaves node).ota = some ip) :
      Step w (w.set node { build := fleet.served w ip, ota := none })
  | same : Step w w

section
variable {fleet : Fleet Node Ip} {hmac : Hmac} {netKey : Nat} {w next : World Node Ip} {a : Action Node Ip lib}

omit [DecidableEq Node] [DecidableEq Ip] in
/-- Whatever a node reads does nothing, or is something that was sent, and still fresh. -/
theorem arrivalOf_heard {delivery : Delivery Ip} {ip : Ip} {bytes : Arrival} {rxBuf : Buffer} {reader : Reader} {now : Nat}
    {seen after : CoinSeen} {action : PacketBytes.Action} (fits : ∀ said ∈ w.wire, said.Fits)
    (arrived : arrivalOf hmac netKey w delivery = some (ip, bytes))
    (read : PacketBytes.networkLoop hmac netKey rxBuf reader now seen bytes = some (action, after)) :
    action = .nothing ∨
      ∃ i said, delivery = .sent i ip ∧ w.wire[i]? = some said ∧ Fresh now said.ts ∧
        action = (said.message.heard reader seen said.ts).1 := by
  cases delivery with
  | forged sender forged =>
    obtain ⟨bad, same⟩ := Option.ite_none_right_eq_some.mp arrived
    obtain ⟨rfl, rfl⟩ := Prod.mk.inj (Option.some.inj same)
    rw [networkLoop_silent (.inr (.inl bad))] at read
    exact .inl (Prod.mk.inj (Option.some.inj read)).1.symm
  | sent i sender =>
    obtain ⟨said, here, same⟩ := Option.map_eq_some_iff.mp arrived
    obtain ⟨rfl, rfl⟩ := Prod.mk.inj same
    obtain ⟨own, time⟩ := fits said (List.mem_of_getElem? here)
    by_cases fresh : Fresh now said.ts
    · rw [networkLoop_bytes own time fresh] at read
      exact .inr ⟨i, said, rfl, here, fresh, by rw [Option.some.inj read]⟩
    · have stamp : LittleEndian.combine (((said.message.bytes hmac netKey said.ts).drop 2).take 8) = said.ts :=
        congrArg Network.Datagram.ts (datagramOf_packet time _)
      have stale : Stale now (arrival (said.message.bytes hmac netKey said.ts)) := by
        rw [Stale, arrival, stamp]
        exact fresh
      rw [networkLoop_silent (.inr (.inr stale))] at read
      exact .inl (Prod.mk.inj (Option.some.inj read)).1.symm

/-- Everything on the wire has a packet. -/
def Packed (w : World Node Ip) : Prop := ∀ said ∈ w.wire, said.Fits

theorem masterDoes_cases {said : Said Ip} {senderIp : Ip} {stored counted : Option UInt32} {now : Nat} {seen : CoinSeen}
    (inside : said ∈ w.wire) (time : now < 2 ^ 64) :
    Step fleet w (masterDoes fleet w senderIp stored counted now (said.message.heard fleet.master seen said.ts).1) := by
  cases own : said.message with
  | heartbeat body =>
    dsimp only [Message.heard]
    split
    · exact .heard inside own time senderIp stored counted
    · exact .same
  | coinInserted mac =>
    simp only [Message.heard, Fleet.master, if_true]
    cases (Network.coinIsReplay seen (kept 18 mac) said.ts).1 <;> exact .same
  | otaAvailable | logEntry | sessionStart | sessionEnd | reboot => exact .same

/-- Of all that a slave hears only a command that names it starts anything. -/
theorem slaveDoes_cases {said : Said Ip} {node : Node} {senderIp : Ip} {created : Bool} {seen : CoinSeen}
    (inside : said ∈ w.wire) (direct : IsCommand said.message → senderIp = said.ip) :
    Step fleet w (slaveDoes w node senderIp created (said.message.heard (fleet.slave w node) seen said.ts).1) := by
  cases own : said.message with
  | otaAvailable targetMac =>
    obtain rfl : senderIp = said.ip := direct (by rw [own]; trivial)
    dsimp only [Message.heard]
    split
    · next heard =>
      show Step fleet w (otaHeard w node said.ip created)
      unfold otaHeard
      split
      · exact .started inside own heard.2.2
      · exact .same
    · exact .same
  | reboot => exact .stopped node
  | heartbeat body =>
    simp only [Message.heard, Fleet.slave, Bool.false_eq_true, false_and, if_false]
    exact .same
  | logEntry | coinInserted | sessionStart | sessionEnd => exact .same

theorem step_cases (packed : Packed w) (direct : Direct w a) (taken : step fleet hmac netKey w a = some next) :
    Step fleet w next ∨ ∃ build, a = .release build ∧ next = { w with build, table := ∅ } := by
  cases a with
  | release build =>
    cases taken
    exact .inr ⟨build, rfl, rfl⟩
  | broadcastHeartbeat node ip body ts =>
    obtain ⟨⟨tells, fits⟩, rfl⟩ := by simpa only [step, Option.ite_none_right_eq_some, Option.some.injEq] using taken
    exact .inl <| .told tells fits
  | speak said =>
    obtain ⟨⟨other, fits⟩, rfl⟩ := by simpa only [step, Option.ite_none_right_eq_some, Option.some.injEq] using taken
    exact .inl <| .said other fits
  | masterHears delivery rxBuf now seen stored counted =>
    obtain ⟨time, taken⟩ := Option.ite_none_right_eq_some.mp taken
    obtain ⟨⟨senderIp, bytes⟩, arrived, taken⟩ := Option.bind_eq_some_iff.mp taken
    obtain ⟨⟨action, after⟩, read, rfl⟩ := Option.map_eq_some_iff.mp taken
    rcases arrivalOf_heard packed arrived read with rfl | ⟨i, said, -, here, -, rfl⟩
    · exact .inl .same
    · exact .inl (masterDoes_cases (List.mem_of_getElem? here) time)
  | slaveHears node delivery rxBuf now seen created =>
    obtain ⟨⟨senderIp, bytes⟩, arrived, taken⟩ := Option.bind_eq_some_iff.mp taken
    obtain ⟨⟨action, after⟩, read, rfl⟩ := Option.map_eq_some_iff.mp taken
    rcases arrivalOf_heard packed arrived read with rfl | ⟨i, said, rfl, here, fresh, rfl⟩
    · exact .inl .same
    · exact .inl (slaveDoes_cases (List.mem_of_getElem? here) fun command => direct said here command fresh)
  | fetched node response bufAllocated update =>
    obtain ⟨ip, fetching, rfl⟩ := Option.map_eq_some_iff.mp taken
    split
    · exact .inl <| .updated fetching
    · exact .inl <| .stopped node
  | restart node =>
    cases taken
    exact .inl <| .stopped node

theorem kept_mac (mac : Mac) : kept 18 mac.chars = mac.chars := kept_of_clean mac.length.le mac.text

theorem kept_upper (mac : Mac) : kept 18 (toUpperCase mac.chars) = toUpperCase mac.chars :=
  kept_of_clean (by simp [toUpperCase, mac.length]) (zero_notMem_upper mac.text)

/-! ## Which builds there are -/

/-- The node's firmware is not newer than the master's. -/
def Behind (w : World Node Ip) (node : Node) : Prop := (w.slaves node).build ≤ w.build

/-- What is under way was true of a node once, and the commands and the workers are for
    nodes that are behind. -/
structure Sane (fleet : Fleet Node Ip) (w : World Node Ip) : Prop where
  packed : Packed w
  beats : ∀ {said body}, said ∈ w.wire → said.message = .heartbeat body →
    ∃ node, body.mac = (fleet.mac node).chars ∧ body.buildNumber ≤ (w.slaves node).build ∧
      ((w.slaves node).build = body.buildNumber ∨ Behind w node)
  commands : ∀ {said targetMac}, said ∈ w.wire → said.message = .otaAvailable targetMac →
    said.ip = fleet.masterIp ∧ ∃ node, targetMac = toUpperCase (fleet.mac node).chars ∧ Behind w node
  workers : ∀ {node ip}, (w.slaves node).ota = some ip → ip = fleet.masterIp ∧ Behind w node

/-- The node's firmware stays, or becomes the master's own, which is not older. -/
def Takes (w next : World Node Ip) (node : Node) : Prop :=
  (next.slaves node).build = (w.slaves node).build ∨ (next.slaves node).build = w.build ∧ Behind w node


omit [DecidableEq Ip] in
theorem slaves_set (node other : Node) (slave : Slave Ip) :
    (w.set node slave).slaves other = if other = node then slave else w.slaves other := by
  simp [World.set, Function.update_apply]

theorem build_step (taken : Step fleet w next) : next.build = w.build := by
  cases taken <;> rfl

theorem takes_step (sane : Sane fleet w) (taken : Step fleet w next) (node : Node) : Takes w next node := by
  cases taken with
  | said | told | heard | same => exact .inl rfl
  | @started own =>
    refine .inl ?_
    rw [slaves_set]
    split <;> simp_all
  | stopped own =>
    refine .inl ?_
    rw [slaves_set]
    split <;> simp_all
  | @updated own ip fetching =>
    obtain ⟨rfl, behind⟩ := sane.workers fetching
    rw [Takes, slaves_set]
    by_cases same : node = own
    · subst same
      exact .inr ⟨by simp [Fleet.served], behind⟩
    · exact .inl (by simp [same])

omit [DecidableEq Node] [DecidableEq Ip] in
/-- Being behind, and what a heartbeat said, hold on. -/
theorem behind_takes {node : Node} (takes : Takes w next node) (up : w.build ≤ next.build) (behind : Behind w node) :
    Behind next node := by
  rw [Behind] at behind ⊢
  rcases takes with kept | ⟨taken, -⟩ <;> omega

omit [DecidableEq Node] [DecidableEq Ip] in
theorem beat_takes {node : Node} {told : Nat} (takes : Takes w next node) (up : w.build ≤ next.build)
    (said : told ≤ (w.slaves node).build ∧ ((w.slaves node).build = told ∨ Behind w node)) :
    told ≤ (next.slaves node).build ∧ ((next.slaves node).build = told ∨ Behind next node) := by
  obtain ⟨older, or⟩ := said
  rw [Behind] at or ⊢
  rcases takes with kept | ⟨taken, behind⟩
  · omega
  · rw [Behind] at behind
    omega

/-- A packet that may be sent here: a heartbeat is a node's own, and a command is for a
    node that is behind. -/
def New (fleet : Fleet Node Ip) (w : World Node Ip) (said : Said Ip) : Prop :=
  said.Fits ∧
    (∀ body, said.message = .heartbeat body →
      ∃ node, body.mac = (fleet.mac node).chars ∧ body.buildNumber = (w.slaves node).build) ∧
    ∀ targetMac, said.message = .otaAvailable targetMac →
      said.ip = fleet.masterIp ∧ ∃ node, targetMac = toUpperCase (fleet.mac node).chars ∧ Behind w node

structure Grown (fleet : Fleet Node Ip) (w next : World Node Ip) : Prop where
  said : ∀ {said}, said ∈ next.wire → said ∈ w.wire ∨ New fleet w said
  started : ∀ {node ip}, (next.slaves node).ota = some ip →
    (w.slaves node).ota = some ip ∨ ip = fleet.masterIp ∧ Behind w node

omit [DecidableEq Node] [DecidableEq Ip] in
theorem sane_grown (sane : Sane fleet w) (grown : Grown fleet w next) (takes : ∀ node, Takes w next node)
    (up : w.build ≤ next.build) : Sane fleet next where
  packed said inside := (grown.said inside).elim (sane.packed said) fun new => new.1
  beats inside own := by
    rcases grown.said inside with old | ⟨-, new, -⟩
    · obtain ⟨node, mac, said⟩ := sane.beats old own
      exact ⟨node, mac, beat_takes (takes node) up said⟩
    · obtain ⟨node, mac, same⟩ := new _ own
      exact ⟨node, mac, beat_takes (takes node) up ⟨same.le, .inl same.symm⟩⟩
  commands inside own := by
    rcases grown.said inside with old | ⟨-, -, new⟩
    · obtain ⟨ip, node, target, behind⟩ := sane.commands old own
      exact ⟨ip, node, target, behind_takes (takes node) up behind⟩
    · obtain ⟨ip, node, target, behind⟩ := new _ own
      exact ⟨ip, node, target, behind_takes (takes node) up behind⟩
  workers fetching := by
    obtain ⟨ip, behind⟩ := (grown.started fetching).elim sane.workers id
    exact ⟨ip, behind_takes (takes _) up behind⟩

omit [DecidableEq Node] [DecidableEq Ip] in
/-- A command is for the node whose heartbeat was read, and that node is older. -/
theorem otaSent_behind {said : Said Ip} {body : HeartbeatBody} (sane : Sane fleet w) (inside : said ∈ w.wire)
    (own : said.message = .heartbeat body) {stored counted : Option UInt32} {mac : Bytes} {senderIp ip : Ip}
    (sent : otaSent (fleet.own w.build) { body := HeartbeatBody.cut body, senderIp, stored, counted } = some (mac, ip)) :
    ∃ node, mac = toUpperCase (fleet.mac node).chars ∧ Behind w node := by
  obtain ⟨⟨-, older⟩, same⟩ := Option.ite_none_right_eq_some.mp sent
  obtain ⟨node, told, -, or⟩ := sane.beats inside own
  refine ⟨node, ?_, ?_⟩
  · rw [← (Prod.mk.inj (Option.some.inj same)).1, Beat.mac, HeartbeatBody.cut, told, kept_mac]
  · have older : body.buildNumber < w.build := of_decide_eq_true older
    rw [Behind] at or ⊢
    omega

omit [DecidableEq Node] [DecidableEq Ip] in
theorem grown_said {said : Said Ip} (new : New fleet w said) : Grown fleet w (w.say [said]) where
  said inside := (List.mem_append.mp inside).imp_right fun last => by rwa [List.mem_singleton.mp last]
  started := .inl

theorem grown_step (sane : Sane fleet w) (taken : Step fleet w next) : Grown fleet w next := by
  cases taken with
  | @said said other fits =>
    refine grown_said ⟨fits, fun body own => ?_, fun target own => ?_⟩
    · rw [own] at other
      exact other.elim
    · rw [own] at other
      exact other.elim
  | @told node ip body ts tells fits =>
    refine grown_said ⟨fits, fun other own => ?_, nofun⟩
    obtain rfl := Message.heartbeat.inj own
    exact ⟨node, tells.2, tells.1⟩
  | @heard said body now inside own time senderIp stored counted =>
    refine ⟨fun {other} member => ?_, .inl⟩
    rcases List.mem_append.mp member with old | new
    · exact .inl old
    · obtain ⟨⟨mac, ip⟩, sent, rfl⟩ := List.mem_map.mp new
      have behind := otaSent_behind sane inside own (Option.mem_toList.mp sent)
      refine .inr ⟨⟨trivial, time⟩, nofun, fun target same => ?_⟩
      obtain rfl := Message.otaAvailable.inj same
      exact ⟨rfl, behind⟩
  | @started node targetMac said inside own target =>
    refine ⟨.inl, fun {other from_} fetching => ?_⟩
    rw [slaves_set] at fetching
    split at fetching
    · next same =>
      subst same
      obtain rfl := Option.some.inj fetching
      obtain ⟨source, named, rfl, behind⟩ := sane.commands inside own
      rw [kept_upper, toUpperCase_twice] at target
      exact .inr ⟨source, fleet.distinct target ▸ behind⟩
    · exact .inl fetching
  | stopped node =>
    refine ⟨.inl, fun {other ip} fetching => ?_⟩
    rw [slaves_set] at fetching
    split at fetching
    · cases fetching
    · exact .inl fetching
  | @updated node ip fetching =>
    refine ⟨.inl, fun {other ip} fetching => ?_⟩
    rw [slaves_set] at fetching
    split at fetching
    · cases fetching
    · exact .inl fetching
  | same => exact ⟨.inl, .inl⟩


theorem takes_any (sane : Sane fleet w) (direct : Direct w a) (taken : step fleet hmac netKey w a = some next)
    (node : Node) : Takes w next node := by
  rcases step_cases sane.packed direct taken with steps | ⟨build, rfl, rfl⟩
  · exact takes_step sane steps node
  · exact .inl rfl

theorem sane_step (sane : Sane fleet w) (upward : Upward w a) (direct : Direct w a)
    (taken : step fleet hmac netKey w a = some next) : Sane fleet next := by
  have takes := takes_any sane direct taken
  rcases step_cases sane.packed direct taken with steps | ⟨build, rfl, rfl⟩
  · exact sane_grown sane (grown_step sane steps) takes (build_step steps).ge
  · exact sane_grown sane ⟨.inl, .inl⟩ takes upward

/-! ## Catching up -/

/-- The node's heartbeat just after a start. -/
def firstBeat (mac : Mac) (buildNumber : Nat) : HeartbeatBody where
  buildNumber := buildNumber
  uptimeSec := 0
  freeHeap := 0
  rssi := 0
  rejectWidth := 0
  rejectInterval := 0
  version := []
  ip := []
  mac := mac.chars

theorem firstBeat_fits {mac : Mac} {buildNumber : Nat} (small : buildNumber < 256 ^ 4) :
    (Message.heartbeat (firstBeat mac buildNumber)).Fits :=
  ⟨small, Nat.pow_pos (by decide), Nat.pow_pos (by decide), Nat.pow_pos (by decide), Nat.pow_pos (by decide),
    Nat.pow_pos (by decide)⟩

/-- As the master reads it, when it cannot have the table's lock. -/
def firstRead (mac : Mac) (buildNumber : Nat) (senderIp : Ip) : Beat Ip where
  body := HeartbeatBody.cut (firstBeat mac buildNumber)
  senderIp := senderIp
  stored := none
  counted := none

omit [DecidableEq Node] [DecidableEq Ip] in
/-- The master tells the node whose first heartbeat it reads, if it is older. -/
theorem masterHeard_first {w : World Node Ip} {node : Node} {ip : Ip} {buildNumber now : Nat} (older : buildNumber < w.build) :
    (masterHeard fleet w (firstRead (fleet.mac node) buildNumber ip) now).wire =
      w.wire ++ [{ ip := fleet.masterIp, message := .otaAvailable (toUpperCase (fleet.mac node).chars), ts := now }] := by
  have mac : kept 18 (fleet.mac node).chars = (fleet.mac node).chars := kept_mac _
  simp [masterHeard, World.say, otaSent, Beat.mac, firstRead, HeartbeatBody.cut, firstBeat, mac, Fleet.own, fleet.slaves, Own.isOlder,
    older]

theorem beat_step {node : Node} {ip : Ip} {body : HeartbeatBody} {ts : Nat} (tells : (w.slaves node).Tells (fleet.mac node) body)
    (fits : (Message.heartbeat body).Fits) (time : ts < 2 ^ 64) :
    step fleet hmac netKey w (.broadcastHeartbeat node ip body ts : Action Node Ip lib) =
      some (w.say [{ ip, message := .heartbeat body, ts }]) := by
  exact if_pos ⟨tells, fits, time⟩

theorem master_step {i : Nat} {ip : Ip} {body : HeartbeatBody} {ts now : Nat} {rxBuf : Buffer} {seen : CoinSeen}
    {stored counted : Option UInt32} (here : w.wire[i]? = some { ip, message := .heartbeat body, ts })
    (fits : (Message.heartbeat body).Fits) (other : toUpperCase (kept 18 body.mac) ≠ toUpperCase fleet.masterMac.chars)
    (time : ts < 2 ^ 64) (clock : now < 2 ^ 64) (fresh : Fresh now ts) :
    step fleet hmac netKey w (.masterHears (.sent i ip) rxBuf now seen stored counted : Action Node Ip lib) =
      some (masterHeard fleet w { body := HeartbeatBody.cut body, senderIp := ip, stored, counted } now) := by
  rw [step, if_pos clock, arrivalOf, here, Option.map_some, Option.bind_some]
  dsimp only
  rw [networkLoop_bytes fits time fresh, Option.map_some, Message.heard, if_pos ⟨rfl, other⟩]
  rfl

theorem slave_step {i : Nat} {node : Node} {ip : Ip} {targetMac : Bytes} {ts now : Nat} {rxBuf : Buffer} {seen : CoinSeen}
    (here : w.wire[i]? = some { ip, message := .otaAvailable targetMac, ts }) (idle : (w.slaves node).ota = none)
    (target : toUpperCase (kept 18 targetMac) = toUpperCase (fleet.mac node).chars) (time : ts < 2 ^ 64)
    (fresh : Fresh now ts) (created : Bool) :
    step fleet hmac netKey w (.slaveHears node (.sent i ip) rxBuf now seen created : Action Node Ip lib) =
      some (otaHeard w node ip created) := by
  have fits : (Message.otaAvailable targetMac).Fits := trivial
  have own : ¬ (fleet.slave w node).isMaster ∧ ¬ (fleet.slave w node).otaInProgress ∧
      toUpperCase (kept 18 targetMac) = toUpperCase (fleet.slave w node).ownMac := by
    simp [Fleet.slave, idle, target]
  rw [step, arrivalOf, here, Option.map_some, Option.bind_some]
  dsimp only
  rw [networkLoop_bytes fits time fresh, Option.map_some, Message.heard, if_pos own]
  rfl

end

/-- Whatever was lost, delivered late or sent by others: as long as the master is not put
    back, and no other host repeats a command that is fresh, each step leaves a node's
    firmware or changes it to the one that the master runs, which is not older. -/
theorem never_lowered (fleet : Fleet Node Ip) (hmac : Hmac) (netKey : Nat) {start : World Node Ip}
    (silent : start.wire = []) (idle : ∀ node, (start.slaves node).ota = none) {actions : List (Action Node Ip lib)}
    (regular : Throughout (step fleet hmac netKey) (fun w a => Upward w a ∧ Direct w a) start actions) :
    Throughout (step fleet hmac netKey) (fun w a => ∀ next, step fleet hmac netKey w a = some next → ∀ node, Takes w next node)
      start actions := by
  have first : Sane fleet start :=
    { packed := fun said inside => by simp [silent] at inside
      beats := fun inside => by simp [silent] at inside
      commands := fun inside => by simp [silent] at inside
      workers := fun fetching => by simp [idle] at fetching }
  refine throughout_shows (fun w a next sane regular taken => ?_) (fun w a sane regular next taken => ?_) first regular
  · exact sane_step sane regular.1 regular.2 taken
  · exact takes_any sane regular.2 taken

/-- Two slaves, of which one is newer than the master. -/
def twoSlaves : Fleet Bool Nat where
  mac node := { chars := List.replicate 17 (if node then 65 else 66), length := by simp, text := by cases node <;> decide }
  masterMac := { chars := List.replicate 17 67, length := by simp, text := by decide }
  masterIp := 1
  distinct {one other} same := by revert same; cases one <;> cases other <;> decide
  slaves {node} := by cases node <;> decide
  foreign _ := 0

def mixed : World Bool Nat where
  build := 7
  table := ∅
  slaves node := { build := if node then 9 else 3, ota := none }
  wire := []

/-- Both send a heartbeat, and the master reads one of them twice, from another host the
    second time. -/
def twice : List (Action Bool Nat PulledFirmware.flashUpdater) :=
  [.broadcastHeartbeat false 2 (firstBeat (twoSlaves.mac false) 3) 1000,
    .broadcastHeartbeat true 3 (firstBeat (twoSlaves.mac true) 9) 1000,
    .masterHears (.sent 0 2) (Vector.replicate _ 0) 1500 emptySeen (some 5) (some 6),
    .masterHears (.sent 0 9) (Vector.replicate _ 0) 1600 emptySeen none none, .release 8,
    .slaveHears false (.sent 3 1) (Vector.replicate _ 0) 2000 emptySeen true,
    .fetched false PulledFirmware.threeBytes true none]

theorem never_lowered_twice : Throughout (step twoSlaves (fun _ _ => Vector.replicate 32 7) 5)
    (fun w a => ∀ next, step twoSlaves (fun _ _ => Vector.replicate 32 7) 5 w a = some next → ∀ node, Takes w next node)
    mixed twice :=
  never_lowered twoSlaves _ 5 rfl (fun _ => rfl) (by decide +kernel)

/-- A host that repeats a command in time has its own firmware taken. -/
example :
    (run (step twoSlaves (fun _ _ => Vector.replicate 32 7) 5) mixed
        ([.broadcastHeartbeat false 2 (firstBeat (twoSlaves.mac false) 3) 1000,
          .masterHears (.sent 0 2) (Vector.replicate _ 0) 1500 emptySeen none none,
          .slaveHears false (.sent 1 9) (Vector.replicate _ 0) 2000 emptySeen true,
          .fetched false PulledFirmware.threeBytes true none] : List (Action Bool Nat PulledFirmware.flashUpdater))).map
      (fun w => (w.slaves false).build) = some 0 := by
  decide +kernel

/-- A node that is behind can be brought up from wherever things stand, by one heartbeat, one
    command and one download that is committed, once its power was cut; the other nodes are
    left as they are. -/
theorem catches_up (fleet : Fleet Node Ip) (hmac : Hmac) (netKey : Nat) (w : World Node Ip) {node : Node}
    (older : (w.slaves node).build < w.build) (small : (w.slaves node).build < 256 ^ 4) {response : Response}
    {bufAllocated : Bool} {update : lib.State}
    (commits : (slaveOtaTask response bufAllocated update).committed.isSome) :
    ∃ (actions : List (Action Node Ip lib)) (last : World Node Ip),
      run (step fleet hmac netKey) w actions = some last ∧ last.build = w.build ∧
        (last.slaves node).build = w.build ∧ ∀ other, other ≠ node → last.slaves other = w.slaves other := by
  have fits : (Message.heartbeat (firstBeat (fleet.mac node) (w.slaves node).build)).Fits := firstBeat_fits small
  have fresh : Fresh 0 0 := by decide
  have zero : 0 < 2 ^ 64 := by decide
  let restarted := w.set node { w.slaves node with ota := none }
  let told := restarted.say
    [{ ip := fleet.masterIp, message := .heartbeat (firstBeat (fleet.mac node) (w.slaves node).build), ts := 0 }]
  have own : restarted.slaves node = { w.slaves node with ota := none } := by rw [slaves_set, if_pos rfl]
  have tells : (restarted.slaves node).Tells (fleet.mac node) (firstBeat (fleet.mac node) (w.slaves node).build) := by
    rw [own]
    exact ⟨rfl, rfl⟩
  let heard := masterHeard fleet told (firstRead (fleet.mac node) (w.slaves node).build fleet.masterIp) 0
  have wire : heard.wire = told.wire ++
      [{ ip := fleet.masterIp, message := .otaAvailable (toUpperCase (fleet.mac node).chars), ts := 0 }] :=
    masterHeard_first older
  let started := heard.set node { w.slaves node with ota := some fleet.masterIp }
  have idle : heard.slaves node = { w.slaves node with ota := none } := own
  have starts : otaHeard heard node fleet.masterIp true = started := by
    rw [otaHeard, if_pos rfl, idle]
  have other : toUpperCase (kept 18 (fleet.mac node).chars) ≠ toUpperCase fleet.masterMac.chars := by
    rw [kept_mac]
    exact fleet.slaves
  have target : toUpperCase (kept 18 (toUpperCase (fleet.mac node).chars)) = toUpperCase (fleet.mac node).chars := by
    rw [kept_upper, toUpperCase_twice]
  have fetching : (started.slaves node) = { w.slaves node with ota := some fleet.masterIp } := by rw [slaves_set, if_pos rfl]
  refine ⟨[.restart node, .broadcastHeartbeat node fleet.masterIp (firstBeat (fleet.mac node) (w.slaves node).build) 0,
    .masterHears (.sent w.wire.length fleet.masterIp) (Vector.replicate _ 0) 0 emptySeen none none,
    .slaveHears node (.sent (w.wire.length + 1) fleet.masterIp) (Vector.replicate _ 0) 0 emptySeen true,
    .fetched node response bufAllocated update],
    started.set node { build := fleet.served started fleet.masterIp, ota := none }, ?_, rfl, ?_, fun other different => ?_⟩
  · rw [run_cons]
    refine ⟨restarted, rfl, run_cons.mpr ⟨told, beat_step tells fits zero, run_cons.mpr ⟨heard, ?_, run_cons.mpr ⟨started, ?_,
      run_cons.mpr ⟨_, ?_, rfl⟩⟩⟩⟩⟩
    · exact master_step (by simp [told, restarted, World.say, World.set]) fits other zero zero fresh
    · have command : heard.wire[w.wire.length + 1]? =
          some { ip := fleet.masterIp, message := .otaAvailable (toUpperCase (fleet.mac node).chars), ts := 0 } := by
        rw [wire]
        simp [told, restarted, World.say, World.set]
      rw [slave_step command (by rw [idle]) target zero fresh true, starts]
    · rw [step, fetched, fetching, Option.map_some, if_pos commits]
  · rw [slaves_set, if_pos rfl, Fleet.served, if_pos rfl]
    rfl
  · rw [slaves_set, if_neg different]
    show started.slaves other = _
    rw [slaves_set, if_neg different]
    show restarted.slaves other = _
    rw [slaves_set, if_neg different]

theorem catches_up_mixed : ∃ (actions : List (Action Bool Nat PulledFirmware.flashUpdater)) (last : World Bool Nat),
    run (step twoSlaves (fun _ _ => Vector.replicate 32 7) 5) mixed actions = some last ∧ last.build = 7 ∧
      (last.slaves false).build = 7 ∧ ∀ other, other ≠ false → last.slaves other = mixed.slaves other := by
  have commits : (slaveOtaTask PulledFirmware.threeBytes true none : Ended PulledFirmware.flashUpdater).committed.isSome := rfl
  exact catches_up twoSlaves _ 5 mixed (by decide) (by decide) commits

end

end EllaFi.Rollout
