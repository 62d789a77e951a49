import EllaFi.Bodies
import EllaFi.Recent
import EllaFi.Totals

/-!
The master's table of its nodes. A heartbeat writes the entry of its sender, and one from
an older build sends that node a command to update, which is counted in the entry; either is
left out where the table's lock cannot be had in time. So an entry shows the last heartbeat
that was written and how often the node was told (`lookup_tableOf`). The dead-man's
switch and the admin page name the same nodes as down (`ping_nodes`).
-/
namespace EllaFi.NodeTable
open EllaFi.Bodies EllaFi.Recent EllaFi.Totals
open EllaFi.PacketBytes (Bytes HeartbeatBody upper toUpperCase)

structure NodeInfo where
  mac : Bytes := []
  ip : Bytes := []
  version : Bytes := []
  buildNumber : Nat := 0
  uptimeSec : Nat := 0
  freeHeap : Nat := 0
  rssi : Nat := 0
  rejectWidth : Nat := 0
  rejectInterval : Nat := 0
  /-- Of the counter of milliseconds, as the next but one. -/
  lastSeenMs : UInt32 := 0
  otaSentCount : UInt32 := 0
  lastOtaSentMs : UInt32 := 0
deriving DecidableEq

abbrev NodeMap : Type := Table Bytes NodeInfo

/-- What the master knows of itself; its address is in upper case. -/
structure Own where
  mac : Bytes
  named : mac ≠ []
  firmwareBuild : Nat

/-- A heartbeat as the loop has read it, and the two times that the table's lock is asked
    for: the counter of milliseconds then, or none where it is not had in time. -/
structure Beat (Ip : Type) where
  body : HeartbeatBody
  senderIp : Ip
  stored : Option UInt32
  counted : Option UInt32

section
variable {Ip : Type}

def Beat.mac (beat : Beat Ip) : Bytes := toUpperCase beat.body.mac

def Own.isOlder (own : Own) (beat : Beat Ip) : Bool := beat.body.buildNumber < own.firmwareBuild

/-- The entry with the fields of the heartbeat; the two of the commands stay. -/
def Beat.write (beat : Beat Ip) (now : UInt32) (entry : NodeInfo) : NodeInfo :=
  { entry with
    mac := beat.mac
    ip := beat.body.ip
    version := beat.body.version
    buildNumber := beat.body.buildNumber
    uptimeSec := beat.body.uptimeSec
    freeHeap := beat.body.freeHeap
    rssi := beat.body.rssi
    rejectWidth := beat.body.rejectWidth
    rejectInterval := beat.body.rejectInterval
    lastSeenMs := now }

def NodeInfo.told (now : UInt32) (entry : NodeInfo) : NodeInfo :=
  { entry with otaSentCount := entry.otaSentCount + 1, lastOtaSentMs := now }

/-- An entry is changed, and made with its defaults if there is none. -/
def change (mac : Bytes) (map : NodeMap) (write : NodeInfo → NodeInfo) : NodeMap :=
  map.insert mac (write ((map.lookup mac).getD {}))

/-- The table after the heartbeat. -/
def recvHeartbeat (own : Own) (map : NodeMap) (beat : Beat Ip) : NodeMap :=
  if beat.mac = own.mac then map
  else
    let map := beat.stored.elim map fun now => change beat.mac map (beat.write now)
    if own.isOlder beat then beat.counted.elim map fun now => change beat.mac map (NodeInfo.told now) else map

/-- To whom, and where, the command is sent. -/
def otaSent (own : Own) (beat : Beat Ip) : Option (Bytes × Ip) :=
  if beat.mac ≠ own.mac ∧ own.isOlder beat then some (beat.mac, beat.senderIp) else none

/-! ## What the table holds -/

/-- The heartbeat is one of the node and was written. -/
def storedFor (mac : Bytes) (beat : Beat Ip) : Bool := beat.mac = mac ∧ beat.stored.isSome

/-- The node was told to update, and this was counted. -/
def countedFor (own : Own) (mac : Bytes) (beat : Beat Ip) : Bool :=
  beat.mac = mac ∧ own.isOlder beat ∧ beat.counted.isSome

/-- The fields of the last heartbeat written, and the count of commands. -/
def shown (own : Own) (mac : Bytes) (beats : List (Beat Ip)) : NodeInfo :=
  let entry : NodeInfo :=
    { otaSentCount := .ofNat (beats.countP (countedFor own mac))
      lastOtaSentMs := ((lastWhere (countedFor own mac) beats).bind (·.counted)).getD 0 }
  (lastWhere (storedFor mac) beats).elim entry fun beat => beat.write (beat.stored.getD 0) entry

/-- Some heartbeat of the node made an entry. -/
def Known (own : Own) (mac : Bytes) (beats : List (Beat Ip)) : Prop :=
  mac ≠ own.mac ∧ ∃ beat ∈ beats, storedFor mac beat ∨ countedFor own mac beat

instance (own : Own) (mac : Bytes) (beats : List (Beat Ip)) : Decidable (Known own mac beats) :=
  inferInstanceAs (Decidable (_ ∧ _))

def tableOf (own : Own) (beats : List (Beat Ip)) : NodeMap := beats.foldl (recvHeartbeat own) ∅

section
variable {own : Own} {mac : Bytes} {beats : List (Beat Ip)} {beat : Beat Ip}

theorem tableOf_snoc : tableOf own (beats ++ [beat]) = recvHeartbeat own (tableOf own beats) beat := by
  rw [tableOf, List.foldl_append]
  rfl

theorem known_snoc (other : mac ≠ own.mac) :
    Known own mac (beats ++ [beat]) ↔ Known own mac beats ∨ storedFor mac beat ∨ countedFor own mac beat := by
  simp [Known, other, or_and_right, exists_or]

/-- A heartbeat of another node leaves what is shown of this one. -/
theorem shown_other (other : beat.mac ≠ mac) : shown own mac (beats ++ [beat]) = shown own mac beats := by
  have stored : ¬ storedFor mac beat := by simp [storedFor, other]
  have counted : ¬ countedFor own mac beat := by simp [countedFor, other]
  simp only [shown, lastWhere_other stored, lastWhere_other counted, List.countP_append, List.countP_singleton, if_neg counted,
    Nat.add_zero]

theorem shown_unknown (unknown : ∀ beat ∈ beats, ¬ (storedFor mac beat ∨ countedFor own mac beat)) :
    shown own mac beats = {} := by
  have stored : lastWhere (storedFor mac) beats = none :=
    lastWhere_eq_none.mpr fun beat inside => (not_or.mp (unknown beat inside)).1
  have counted : lastWhere (countedFor own mac) beats = none :=
    lastWhere_eq_none.mpr fun beat inside => (not_or.mp (unknown beat inside)).2
  have never : beats.countP (countedFor own mac) = 0 :=
    List.countP_eq_zero.mpr fun beat inside => (not_or.mp (unknown beat inside)).2
  simp only [shown, stored, counted, never]
  rfl

/-- What a heartbeat does to the entry of its node. -/
def Own.after (own : Own) (beat : Beat Ip) (entry : NodeInfo) : NodeInfo :=
  let entry := beat.stored.elim entry fun now => beat.write now entry
  if own.isOlder beat then beat.counted.elim entry fun now => entry.told now else entry

theorem storedFor_own : storedFor beat.mac beat = beat.stored.isSome := by simp [storedFor]

theorem countedFor_own : countedFor own beat.mac beat = (own.isOlder beat && beat.counted.isSome) := by simp [countedFor]

/-- A heartbeat that is neither written nor counted changes no entry. -/
theorem after_unseen (unseen : ¬ (storedFor beat.mac beat ∨ countedFor own beat.mac beat)) (entry : NodeInfo) :
    own.after beat entry = entry := by
  rw [storedFor_own, countedFor_own] at unseen
  cases written : beat.stored with
  | some now => simp [written] at unseen
  | none =>
    rw [Own.after, written]
    cases told : beat.counted with
    | none => simp
    | some now =>
      have newer : own.isOlder beat = false := by simpa [told, written] using unseen
      simp [newer]

theorem shown_own : shown own beat.mac (beats ++ [beat]) = own.after beat (shown own beat.mac beats) := by
  simp only [shown, lastWhere_snoc, List.countP_append, List.countP_singleton, storedFor_own, countedFor_own, Own.after]
  cases written : beat.stored <;> cases older : own.isOlder beat <;> cases told : beat.counted <;>
    cases lastWhere (storedFor beat.mac) beats <;> simp [written, told, Beat.write, NodeInfo.told, UInt32.ofNat_add]

theorem lookup_change (map : NodeMap) (write : NodeInfo → NodeInfo) :
    (change mac map write).lookup mac = some (write ((map.lookup mac).getD {})) := AList.lookup_insert _

theorem lookup_own (other : beat.mac ≠ own.mac) (map : NodeMap) : (recvHeartbeat own map beat).lookup beat.mac =
    if storedFor beat.mac beat ∨ countedFor own beat.mac beat then
      some (own.after beat ((map.lookup beat.mac).getD {}))
    else map.lookup beat.mac := by
  rw [recvHeartbeat, if_neg other]
  simp only [storedFor_own, countedFor_own, Own.after]
  cases beat.stored <;> cases own.isOlder beat <;> cases beat.counted <;> simp [lookup_change]

theorem lookup_other (other : mac ≠ beat.mac) (map : NodeMap) :
    (recvHeartbeat own map beat).lookup mac = map.lookup mac := by
  have kept (map : NodeMap) (write : NodeInfo → NodeInfo) : (change beat.mac map write).lookup mac = map.lookup mac :=
    AList.lookup_insert_ne other
  unfold recvHeartbeat
  by_cases self : beat.mac = own.mac
  · rw [if_pos self]
  · rw [if_neg self]
    cases beat.stored <;> cases own.isOlder beat <;> cases beat.counted <;> simp [kept]

theorem not_known_own : ¬ Known own own.mac beats := fun known => known.1 rfl

/-- An entry shows the last heartbeat of its node that was written, and counts the commands
    to the node; there is one where there was either. -/
theorem lookup_tableOf (own : Own) (beats : List (Beat Ip)) (mac : Bytes) :
    (tableOf own beats).lookup mac = if Known own mac beats then some (shown own mac beats) else none := by
  induction beats using List.reverseRecOn with
  | nil => simp [tableOf, Known]
  | append_singleton beats beat ih =>
    rw [tableOf_snoc]
    by_cases same : mac = beat.mac
    · subst same
      by_cases self : beat.mac = own.mac
      · rw [recvHeartbeat, if_pos self, ih, self, if_neg not_known_own, if_neg not_known_own]
      · rw [lookup_own self, ih, shown_own]
        by_cases seen : storedFor beat.mac beat ∨ countedFor own beat.mac beat
        · rw [if_pos seen, if_pos ((known_snoc self).mpr (.inr seen))]
          by_cases known : Known own beat.mac beats
          · rw [if_pos known, Option.getD_some]
          · have unknown : ∀ other ∈ beats, ¬ (storedFor beat.mac other ∨ countedFor own beat.mac other) :=
              fun other inside was => known ⟨self, other, inside, was⟩
            rw [if_neg known, Option.getD_none, shown_unknown unknown]
        · simp only [seen, if_false, known_snoc self, or_false, after_unseen seen]
    · have seen : ¬ (storedFor mac beat ∨ countedFor own mac beat) := by simp [storedFor, countedFor, Ne.symm same]
      rw [lookup_other same, ih, shown_other (Ne.symm same)]
      by_cases self : mac = own.mac
      · rw [self, if_neg not_known_own, if_neg not_known_own]
      · simp only [known_snoc self, seen, or_false]

end
end

/-! ## Who is down -/

def nodeOfflineThresholdMillis : UInt32 := 60000

/-- The nodes in the order of their addresses; none where the lock cannot be had in time. -/
def getKnownNodes (locked : Bool) (map : NodeMap) : List NodeInfo :=
  if locked then (map.entries.mergeSort fun one other => one.1 ≤ other.1).map (·.2) else []

/-- The node was not heard of for long. -/
def NodeInfo.offline (now : UInt32) (entry : NodeInfo) : Bool := ¬ now - entry.lastSeenMs < nodeOfflineThresholdMillis

/-- What is posted: whether to the address for failures, and the nodes that are down. -/
structure Ping where
  fail : Bool
  nodesDown : Nat
  down : Bytes
deriving DecidableEq

/-- One turn of the loop over the nodes; each is looked at at its own time. -/
def pingTurn (own : Own) (millis : NodeInfo → UInt32) (ping : Bytes × Nat) (entry : NodeInfo) : Bytes × Nat :=
  let mac := toUpperCase entry.mac
  if mac = own.mac then ping
  else if ¬ entry.offline (millis entry) then ping
  else ((if 0 < ping.2 then ping.1 ++ [44] else ping.1) ++ mac, ping.2 + 1)

def pingHealthcheck (own : Own) (millis : NodeInfo → UInt32) (nodes : List NodeInfo) : Ping :=
  let (down, count) := nodes.foldl (pingTurn own millis) ([], 0)
  { fail := 0 < count, nodesDown := count, down := if 0 < count then down else [] }

/-- A node's row of the admin page. -/
structure Row where
  entry : NodeInfo
  online : Bool
  downForSec : UInt32
deriving DecidableEq

/-- The rows of the nodes other than the master. -/
def handleAdminNodes (own : Own) (now : UInt32) (nodes : List NodeInfo) : List Row :=
  (nodes.filter fun entry => toUpperCase entry.mac ≠ own.mac).map fun entry =>
    { entry, online := ! entry.offline now, downForSec := (now - entry.lastSeenMs) / 1000 }

/-- The addresses with a comma between each two. -/
def commas (macs : List Bytes) : Bytes := [44].intercalate macs

section
variable {own : Own} {millis : NodeInfo → UInt32}

/-- The nodes that the ping names. -/
def downOf (own : Own) (millis : NodeInfo → UInt32) (nodes : List NodeInfo) : List NodeInfo :=
  nodes.filter fun entry => toUpperCase entry.mac ≠ own.mac ∧ entry.offline (millis entry)

theorem commas_snoc (macs : List Bytes) (mac : Bytes) :
    commas (macs ++ [mac]) = (if 0 < macs.length then commas macs ++ [44] else commas macs) ++ mac := by
  induction macs with
  | nil => simp [commas]
  | cons first rest ih =>
    cases rest with
    | nil => simp [commas]
    | cons second rest =>
      simp only [commas, List.cons_append, List.intercalate_cons_cons, List.length_cons] at ih ⊢
      rw [ih]
      simp

theorem ping_loop (nodes : List NodeInfo) : nodes.foldl (pingTurn own millis) ([], 0) =
    (commas ((downOf own millis nodes).map fun entry => toUpperCase entry.mac), (downOf own millis nodes).length) := by
  induction nodes using List.reverseRecOn with
  | nil => rfl
  | append_singleton nodes entry ih =>
    have last : downOf own millis (nodes ++ [entry]) = downOf own millis nodes ++ downOf own millis [entry] :=
      List.filter_append ..
    rw [List.foldl_append, ih, List.foldl_cons, List.foldl_nil, pingTurn, last]
    by_cases self : toUpperCase entry.mac = own.mac
    · simp [self, downOf]
    · by_cases down : entry.offline (millis entry)
      · simp [self, down, downOf, commas_snoc]
      · simp [self, down, downOf]

theorem ping_eq (nodes : List NodeInfo) : pingHealthcheck own millis nodes =
    { fail := 0 < (downOf own millis nodes).length
      nodesDown := (downOf own millis nodes).length
      down := commas ((downOf own millis nodes).map fun entry => toUpperCase entry.mac) } := by
  rw [pingHealthcheck, ping_loop]
  cases downOf own millis nodes <;> rfl

theorem upper_upper (char : UInt8) : upper (upper char) = upper char := by
  unfold upper
  by_cases letter : 97 ≤ char ∧ char ≤ 122
  · have below : ¬ 97 ≤ char - 32 := by
      simp only [UInt8.le_iff_toNat_le, UInt8.toNat_sub, UInt8.toNat_ofNat] at letter ⊢
      omega
    rw [if_pos letter, if_neg fun both => below both.1]
  · rw [if_neg letter, if_neg letter]

@[simp] theorem toUpperCase_twice (text : Bytes) : toUpperCase (toUpperCase text) = toUpperCase text := by
  simp [toUpperCase, upper_upper]

theorem zero_notMem_upper {text : Bytes} (clean : (0 : UInt8) ∉ text) : (0 : UInt8) ∉ toUpperCase text := by
  rintro inside
  obtain ⟨char, member, zero⟩ := List.mem_map.mp inside
  unfold upper at zero
  split at zero
  · next letter =>
    have low : char.toNat - 32 = 0 := by
      have := congrArg UInt8.toNat zero
      simp only [UInt8.le_iff_toNat_le, UInt8.toNat_sub, UInt8.toNat_ofNat] at letter this
      omega
    simp only [UInt8.le_iff_toNat_le, UInt8.toNat_ofNat] at letter
    omega
  · exact clean (zero ▸ member)

theorem mem_getKnownNodes {map : NodeMap} {entry : NodeInfo} :
    entry ∈ getKnownNodes true map ↔ ∃ mac, map.lookup mac = some entry := by
  simp only [getKnownNodes, if_true, List.mem_map, List.mem_mergeSort, Sigma.exists, exists_eq_right]
  exact exists_congr fun mac => (AList.mem_lookup_iff).symm

/-- No entry is one of the master itself. -/
theorem shown_mac_ne {Ip : Type} {beats : List (Beat Ip)} {mac : Bytes} (known : Known own mac beats) :
    toUpperCase (shown own mac beats).mac ≠ own.mac := by
  unfold shown
  cases last : lastWhere (storedFor mac) beats with
  | none => exact own.named.symm
  | some beat =>
    have ours : storedFor mac beat := (lastWhere_eq_some.mp last).1
    have same : beat.mac = mac := (of_decide_eq_true ours).1
    simp only [Option.elim_some, Beat.write, Beat.mac, toUpperCase_twice]
    exact fun self => known.1 (same ▸ self)

theorem rows_down (nodes : List NodeInfo) (now : UInt32) :
    ((handleAdminNodes own now nodes).filter fun row => ! row.online).map (·.entry) = downOf own (fun _ => now) nodes := by
  simp only [handleAdminNodes, downOf, List.filter_map, List.map_map, List.filter_filter]
  simp [Function.comp_def, Bool.and_comm]

end

/-- The dead-man's switch reports a failure exactly where some node's last heartbeat that
    was written is a minute old or more, or none was; and it names the very nodes that the
    admin page shows as down at that time. -/
theorem ping_nodes {Ip : Type} (own : Own) (beats : List (Beat Ip)) (now : UInt32) :
    let nodes := getKnownNodes true (tableOf own beats)
    let ping := pingHealthcheck own (fun _ => now) nodes
    let down := (handleAdminNodes own now nodes).filter fun row => ! row.online
    (ping.fail ↔ ∃ mac, Known own mac beats ∧ (shown own mac beats).offline now) ∧
      ping.nodesDown = down.length ∧ ping.down = commas (down.map fun row => toUpperCase row.entry.mac) := by
  intro nodes ping down
  have named : down.map (·.entry) = downOf own (fun _ => now) nodes := rows_down nodes now
  have posted : ping = _ := ping_eq nodes
  refine ⟨?_, ?_, ?_⟩
  · have some_ : ping.fail ↔ ∃ entry, entry ∈ downOf own (fun _ => now) nodes := by
      rw [posted]
      simp [List.length_pos_iff_exists_mem]
    rw [some_]
    constructor
    · rintro ⟨entry, inside⟩
      obtain ⟨member, offline⟩ := List.mem_filter.mp inside
      obtain ⟨mac, found⟩ := mem_getKnownNodes.mp member
      obtain ⟨known, rfl⟩ : Known own mac beats ∧ shown own mac beats = entry := by
        rw [lookup_tableOf] at found
        simpa using found
      exact ⟨mac, known, (of_decide_eq_true offline).2⟩
    · rintro ⟨mac, known, offline⟩
      refine ⟨shown own mac beats, List.mem_filter.mpr ⟨mem_getKnownNodes.mpr ⟨mac, ?_⟩, ?_⟩⟩
      · rw [lookup_tableOf, if_pos known]
      · simp [shown_mac_ne known, offline]
  · rw [posted, ← named, List.length_map]
  · rw [posted, ← named, List.map_map]
    rfl

end EllaFi.NodeTable
