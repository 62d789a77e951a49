import EllaFi.LiveOwner

/-!
What a refresh does when a fetch fails. A failed fetch of the live list leaves no
records, and so does one of the hotspot list that brings no reply; but a hotspot
reply that is cut off or reports an error is still merged, as far as it was read,
and the counters are computed from whatever there is. So a failed refresh is harmless for
some states only, and for which depends on the failure: where neither list came, for those
without a voucher client and without a breach; where sessions were read, for those that
already know them (`Harmless`, `failed_refresh_iff`).
-/
namespace EllaFi.FailedRefresh
open EllaFi.Session EllaFi.Cache EllaFi.Files EllaFi.Omada EllaFi.Refresh EllaFi.Holders EllaFi.LiveOwner
open EllaFi.Leases (grant)

/-! ## The fetches -/

/-- What one request for a list comes to. A body that does not parse holds the
    records read so far, and an error code of 0 unless one was read. -/
inductive Fetch (Record : Type) where
  | loginFailed
  | transport
  | badResponse
  | body (parses : Bool) (errorCode : Int) (data : List Record)

def Fetch.Successful {Record : Type} : Fetch Record → Prop
  | .body parses errorCode _ => parses ∧ errorCode = 0
  | _ => False

/-- The document is returned whether or not the body parses. -/
def getHotspotClientsJson : Fetch HotspotClient → List HotspotClient
  | .body _ _ data => data
  | _ => []

def getAllClientsJson : Fetch WifiClient → List WifiClient
  | .body parses errorCode data => if parses ∧ errorCode = 0 then data else []
  | _ => []

section
variable (flash : Flash) (opens : Bool) (config : Config) (clock : Nat) (hotspot : Fetch HotspotClient)
  (live : Fetch WifiClient)

/-- A refresh with whatever the two fetches bring. -/
def refresh (before : Refreshed) : Refreshed :=
  refreshHotspotSessionCache flash opens config clock (getHotspotClientsJson hotspot) (getAllClientsJson live)
    before.cache

/-- The records that are written. -/
def leftRecords : List MergedClient :=
  mergeClientLists (getHotspotClientsJson hotspot) (getAllClientsJson live) (nowEpochMillis clock)

end

/-- The sessions that were read of a reply, if there was one. -/
def Fetch.read {Record : Type} : Fetch Record → Option (List Record)
  | .body _ _ data => some data
  | _ => none

/-- The records of a reply without an error. -/
def Fetch.accepted {Record : Type} : Fetch Record → Option (List Record)
  | .body parses errorCode data => if parses ∧ errorCode = 0 then some data else none
  | _ => none

theorem getHotspotClientsJson_read (hotspot : Fetch HotspotClient) :
    getHotspotClientsJson hotspot = hotspot.read.getD [] := by
  cases hotspot <;> rfl

theorem getAllClientsJson_accepted (live : Fetch WifiClient) : getAllClientsJson live = live.accepted.getD [] := by
  cases live with
  | body parses errorCode data =>
    simp only [getAllClientsJson, Fetch.accepted]
    split <;> rfl
  | loginFailed | transport | badResponse => rfl

/-! ## Which failures are harmless -/

/-- The first active session of each MAC, in the order of the reply. -/
def firsts (nowMs : Nat) : List String → List HotspotClient → List HotspotClient
  | _, [] => []
  | seen, session :: rest =>
    if ActivePortal nowMs session ∧ session.mac ∉ seen then session :: firsts nowMs (session.mac :: seen) rest
    else firsts nowMs seen rest

/-- Where the client of a session is: its live address, if the client was found, or that of
    its login. -/
def address (session : HotspotClient) (client : Option WifiClient) : String :=
  asString ((client.bind (·.ip)).or session.ip)

/-- The entry has the times, the number and the address of the session, and what is known of
    its client. -/
structure Shows (session : HotspotClient) (client : Option WifiClient) (s : SessionParams) : Prop where
  start : s.sessionStartMillis = session.startMillis
  sessionEnd : s.sessionEndMillis = session.endMillis
  clientId : s.clientId = session.id
  ip : address session client ≠ "" → s.clientIp = address session client
  apMac : ∀ found ∈ client, ∀ apMac ∈ found.apMac, s.apMac = apMac
  ssid : ∀ found ∈ client, ∀ ssid ∈ found.ssid, s.ssidName = ssid
  radioId : ∀ found ∈ client, ∀ radioId ∈ found.radioId, s.radioId = toString radioId

/-- Every session that was read has its entry, unless it is a new one without an address, and
    of the sessions with one address the last has it. -/
structure Known (nowMs : Nat) (sessions : List HotspotClient) (client : String → Option WifiClient)
    (cache : SessionCache) : Prop where
  entries : ∀ session ∈ firsts nowMs [] sessions, session.mac ≠ "" →
    match cache.findByMac session.mac with
    | none => address session (client session.mac) = ""
    | some s => Shows session (client session.mac) s
  addresses : ∀ before session after, firsts nowMs [] sessions = before ++ session :: after → session.mac ≠ "" →
    address session (client session.mac) ≠ "" →
    (∀ later ∈ after, later.mac ≠ "" → address later (client later.mac) ≠ address session (client session.mac)) →
      ∃ s, cache.findByIp (address session (client session.mac)) = some s ∧ s.clientMac = session.mac

/-- The clients of a list that are connected with a voucher. -/
def vouchers (clients : List WifiClient) : Nat :=
  clients.countP fun client => client.authTypes.contains omadaAuthTypeVoucher

/-- For which states a failure is harmless. Without the live list nobody is counted, and a
    client's network is read as `null`; without sessions there is no breach. -/
def Harmless (config : Config) (clock : Nat) (hotspot : Fetch HotspotClient) (live : Fetch WifiClient)
    (state : Refreshed) : Prop :=
  match hotspot.read, live.accepted with
  | none, none => state.voucherActiveCount = 0 ∧ state.mgmtSsidBreach = false
  | none, some clients => state.voucherActiveCount = vouchers clients ∧ state.mgmtSsidBreach = false
  | some sessions, none =>
    state.voucherActiveCount = 0 ∧
      (state.mgmtSsidBreach ↔ config.managementSsid = "null" ∧ firsts (nowEpochMillis clock) [] sessions ≠ []) ∧
      Known (nowEpochMillis clock) sessions (fun _ => none) state.cache
  | some sessions, some clients =>
    state.voucherActiveCount = vouchers clients ∧
      (state.mgmtSsidBreach ↔ config.managementSsid ≠ "" ∧ ∃ session ∈ firsts (nowEpochMillis clock) [] sessions,
        asString ((allMap clients session.mac).bind (·.ssid)) = config.managementSsid) ∧
      Known (nowEpochMillis clock) sessions (allMap clients) state.cache

/-! ## What the records leave as it is -/

/-- The entry has the fields of the record. -/
structure Reflects (client : MergedClient) (s : SessionParams) : Prop where
  start : s.sessionStartMillis = client.startMillis
  sessionEnd : s.sessionEndMillis = client.endMillis
  clientId : s.clientId = client.id
  ip : asString client.ip ≠ "" → s.clientIp = asString client.ip
  apMac : ∀ apMac, client.apMac = some apMac → s.apMac = apMac
  ssid : ∀ ssid, client.ssid = some ssid → s.ssidName = ssid
  radioId : ∀ radioId, client.radioId = some radioId → s.radioId = toString radioId

/-- Every record that is not skipped has its entry. -/
def EntriesHold (records : List MergedClient) (cache : SessionCache) : Prop :=
  ∀ client ∈ records, client.mac ≠ "" →
    match cache.byMac client.mac with
    | none => asString client.ip = ""
    | some s => Reflects client s

/-- Each address is held by the last record that has it. -/
def AddressesHeld (records : List MergedClient) (cache : SessionCache) : Prop :=
  ∀ before client after, records = before ++ client :: after → client.mac ≠ "" → asString client.ip ≠ "" →
    (∀ later ∈ after, later.mac ≠ "" → asString later.ip ≠ asString client.ip) →
      cache.ipToMac (asString client.ip) = some client.mac

section
variable {flash : Flash} {opens : Bool} {config : Config} {clock : Nat} {hotspot : Fetch HotspotClient}
  {live : Fetch WifiClient} {client : MergedClient} {s : SessionParams} {cache : SessionCache}

theorem refreshedEntry_same : refreshedEntry flash opens client (some s) = some s ↔ Reflects client s := by
  have whole : refreshedEntry flash opens client (some s) = some
      { s with
        clientIp := if asString client.ip = "" then s.clientIp else asString client.ip
        sessionStartMillis := client.startMillis
        sessionEndMillis := client.endMillis
        clientId := client.id
        apMac := client.apMac.getD s.apMac
        ssidName := client.ssid.getD s.ssidName
        radioId := (client.radioId.map toString).getD s.radioId } := by
    unfold refreshedEntry
    by_cases blank : asString client.ip = ""
    · simp [blank, refreshed]
    · simp [blank, refreshed]
  rw [whole, Option.some.injEq]
  constructor
  · intro same
    rw [← same]
    refine ⟨rfl, rfl, rfl, fun given => by simp [given], ?_, ?_, ?_⟩
    · rintro apMac there
      simp [there]
    · rintro ssid there
      simp [there]
    · rintro radioId there
      simp [there]
  · rintro ⟨start, sessionEnd, clientId, ip, apMac, ssid, radioId⟩
    rcases s with ⟨⟩
    simp only [SessionParams.mk.injEq, true_and, and_true]
    refine ⟨?_, ?_, ?_, ?_, start.symm, sessionEnd.symm, clientId.symm⟩
    · split
      · rfl
      · next given => exact (ip given).symm
    · cases there : client.apMac with
      | none => rfl
      | some value => exact (apMac value there).symm
    · cases there : client.ssid with
      | none => rfl
      | some value => exact (ssid value there).symm
    · cases there : client.radioId with
      | none => rfl
      | some value => exact (radioId value there).symm

/-- What a record makes of the entry that is there is that entry. -/
theorem refreshedEntry_fixed (mac : String) :
    refreshedEntry flash opens client (cache.byMac mac) = cache.byMac mac ↔
      match cache.byMac mac with
      | none => asString client.ip = ""
      | some s => Reflects client s := by
  cases cache.byMac mac with
  | none => simp [refreshedEntry]
  | some s => exact refreshedEntry_same

/-- Leases of other addresses to holders that do not hold this one leave it alone. -/
theorem foldl_grant_other {Address Holder : Type} [DecidableEq Address] [DecidableEq Holder]
    {leases : List (Address × Holder)} {table : Address → Option Holder} {address : Address}
    (other : ∀ lease ∈ leases, lease.1 ≠ address ∧ table address ≠ some lease.2) :
    leases.foldl grant table address = table address := by
  induction leases generalizing table with
  | nil => rfl
  | cons lease rest ih =>
    obtain ⟨⟨elsewhere, notHolder⟩, others⟩ := List.forall_mem_cons.mp other
    have here : grant table lease address = table address := by
      rw [grant, if_neg (Ne.symm elsewhere), if_neg notHolder]
    rw [List.foldl_cons, ih (by rwa [here]), here]

theorem refresh_entries_iff {state : Refreshed} :
    (refresh flash opens config clock hotspot live state).cache.byMac = state.cache.byMac ↔
      EntriesHold (leftRecords clock hotspot live) state.cache := by
  constructor
  · intro same client inside named
    have made := @foldl_refreshClient_byMac flash opens state.cache _ _ mergeClientLists_nodup inside named
    exact (refreshedEntry_fixed client.mac).mp (made.symm.trans (congrFun same client.mac))
  · intro holds
    funext mac
    by_cases listed : ∃ client ∈ leftRecords clock hotspot live, client.mac ≠ "" ∧ client.mac = mac
    · obtain ⟨client, inside, named, rfl⟩ := listed
      exact (foldl_refreshClient_byMac mergeClientLists_nodup inside named).trans
        ((refreshedEntry_fixed client.mac).mpr (holds client inside named))
    · refine foldl_refreshClient_byMac_other _ ?_
      intro client inside named same
      exact listed ⟨client, inside, named, same⟩

/-- With the entries as they are listed, a refresh keeps the index exactly when each
    listed address is held by the last record that has it. -/
theorem refresh_addresses_iff {state : Refreshed}
    (entries : EntriesHold (leftRecords clock hotspot live) state.cache) :
    (refresh flash opens config clock hotspot live state).cache.ipToMac = state.cache.ipToMac ↔
      AddressesHeld (leftRecords clock hotspot live) state.cache := by
  constructor
  · intro same before client after merged named given free
    rw [← same]
    exact (record_holds merged named given).mpr free
  · intro holds
    funext ip
    by_cases listed : ∃ client ∈ leftRecords clock hotspot live, client.mac ≠ "" ∧ asString client.ip = ip ∧ ip ≠ ""
    · obtain ⟨client, inside, named, rfl, given⟩ := listed
      obtain ⟨before, last, after, merged, lastNamed, sameIp, free⟩ := last_of_address inside named
      have lastGiven : asString last.ip ≠ "" := sameIp ▸ given
      have lastFree : ∀ later ∈ after, later.mac ≠ "" → asString later.ip ≠ asString last.ip :=
        fun later there known => sameIp ▸ free later there known
      rw [← sameIp, holds before last after merged lastNamed lastGiven lastFree]
      exact (record_holds merged lastNamed lastGiven).mpr lastFree
    · refine (congrFun (refresh_leases _ _ _ _ _ _ _) ip).trans (foldl_grant_other ?_)
      intro lease inside
      obtain ⟨client, there, named, given, rfl⟩ := mem_recordLeases.mp inside
      refine ⟨fun same => listed ⟨client, there, named, same, same ▸ given⟩, fun held => ?_⟩
      -- the holder's entry has the record's address, so it holds no other
      obtain ⟨s, found, current⟩ := state.cache.indexed held
      have reflects := entries client there named
      rw [found] at reflects
      exact listed ⟨client, there, named, (reflects.ip given).symm.trans current,
        fun blank => given ((reflects.ip given).symm.trans (current.trans blank))⟩

theorem cache_eq_iff {first second : SessionCache} :
    first = second ↔ first.byMac = second.byMac ∧ first.ipToMac = second.ipToMac := by
  constructor
  · rintro rfl
    exact ⟨rfl, rfl⟩
  · rcases first with ⟨⟩
    rcases second with ⟨⟩
    rintro ⟨rfl, rfl⟩
    rfl

theorem mergeFrom_firsts (all : String → Option WifiClient) (nowMs : Nat) (seen : List String)
    (sessions : List HotspotClient) :
    mergeFrom all nowMs seen sessions =
      (firsts nowMs seen sessions).map fun session => mergedClient session (all session.mac) := by
  induction sessions generalizing seen with
  | nil => rfl
  | cons session rest ih =>
    simp only [mergeFrom, firsts]
    split
    · rw [ih, List.map_cons]
    · exact ih seen

theorem reflects_iff {session : HotspotClient} {found : Option WifiClient} :
    Reflects (mergedClient session found) s ↔ Shows session found s := by
  constructor
  · rintro ⟨start, sessionEnd, clientId, ip, apMac, ssid, radioId⟩
    refine ⟨start, sessionEnd, clientId, ip, ?_, ?_, ?_⟩
    · rintro client rfl value there
      exact apMac value there
    · rintro client rfl value there
      exact ssid value there
    · rintro client rfl value there
      exact radioId value there
  · rintro ⟨start, sessionEnd, clientId, ip, apMac, ssid, radioId⟩
    refine ⟨start, sessionEnd, clientId, ip, fun value there => ?_, fun value there => ?_, fun value there => ?_⟩
    · obtain ⟨client, own, known⟩ := Option.bind_eq_some_iff.mp there
      exact apMac client own value known
    · obtain ⟨client, own, known⟩ := Option.bind_eq_some_iff.mp there
      exact ssid client own value known
    · obtain ⟨client, own, known⟩ := Option.bind_eq_some_iff.mp there
      exact radioId client own value known

/-- A cache knows the sessions exactly when it has what their records would write. -/
theorem known_iff {nowMs : Nat} {sessions : List HotspotClient} {all : String → Option WifiClient} :
    EntriesHold (mergeFrom all nowMs [] sessions) cache ∧ AddressesHeld (mergeFrom all nowMs [] sessions) cache ↔
      Known nowMs sessions all cache := by
  have entry (session : HotspotClient) (named : session.mac ≠ "") :
      (match cache.byMac session.mac with
        | none => asString (mergedClient session (all session.mac)).ip = ""
        | some s => Reflects (mergedClient session (all session.mac)) s) ↔
      match cache.findByMac session.mac with
        | none => address session (all session.mac) = ""
        | some s => Shows session (all session.mac) s := by
    rw [SessionCache.findByMac, if_neg named]
    cases cache.byMac session.mac with
    | none => exact Iff.rfl
    | some s => exact reflects_iff
  rw [mergeFrom_firsts]
  constructor
  · rintro ⟨entries, addresses⟩
    constructor
    · intro session inside named
      exact (entry session named).mp (entries _ (List.mem_map_of_mem inside) named)
    · intro before session after split named given free
      have merged : (firsts nowMs [] sessions).map (fun session => mergedClient session (all session.mac)) =
          before.map (fun session => mergedClient session (all session.mac)) ++
            mergedClient session (all session.mac) ::
              after.map (fun session => mergedClient session (all session.mac)) := by
        rw [split, List.map_append, List.map_cons]
      refine findByIp_ipToMac.mpr (addresses _ _ _ merged named given fun later inside => ?_)
      obtain ⟨other, there, rfl⟩ := List.mem_map.mp inside
      exact free other there
  · rintro ⟨entries, addresses⟩
    constructor
    · intro client inside named
      obtain ⟨session, there, rfl⟩ := List.mem_map.mp inside
      exact (entry session named).mpr (entries session there named)
    · intro before client after merged named given free
      obtain ⟨front, rest, split, rfl, made⟩ := List.map_eq_append_iff.mp merged
      obtain ⟨session, back, rfl, rfl, rfl⟩ := List.map_eq_cons_iff.mp made
      refine findByIp_ipToMac.mp (addresses front session back split named given fun later inside => ?_)
      exact free _ (List.mem_map_of_mem inside)

/-- Whatever the two fetches come to, the cache, the voucher count and the breach flag are as
    before exactly when they are those of what was read. -/
theorem refresh_same_iff (flash : Flash) (opens : Bool) (config : Config) (clock : Nat)
    (hotspot : Fetch HotspotClient) (live : Fetch WifiClient) (before : Refreshed) :
    refresh flash opens config clock hotspot live before = before ↔
      before.voucherActiveCount = vouchers (getAllClientsJson live) ∧
        (before.mgmtSsidBreach ↔ config.managementSsid ≠ "" ∧
          ∃ session ∈ firsts (nowEpochMillis clock) [] (getHotspotClientsJson hotspot),
            asString ((allMap (getAllClientsJson live) session.mac).bind (·.ssid)) = config.managementSsid) ∧
        Known (nowEpochMillis clock) (getHotspotClientsJson hotspot) (allMap (getAllClientsJson live)) before.cache := by
  have parts : refresh flash opens config clock hotspot live before = before ↔
      (refresh flash opens config clock hotspot live before).cache = before.cache ∧
        (refresh flash opens config clock hotspot live before).voucherActiveCount = before.voucherActiveCount ∧
        (refresh flash opens config clock hotspot live before).mgmtSsidBreach = before.mgmtSsidBreach := by
    rw [← Refreshed.mk.injEq]
  have flag : (refresh flash opens config clock hotspot live before).mgmtSsidBreach = before.mgmtSsidBreach ↔
      (before.mgmtSsidBreach ↔ config.managementSsid ≠ "" ∧
        ∃ session ∈ firsts (nowEpochMillis clock) [] (getHotspotClientsJson hotspot),
          asString ((allMap (getAllClientsJson live) session.mac).bind (·.ssid)) = config.managementSsid) := by
    rw [Bool.eq_iff_iff]
    simpa [refresh, refreshHotspotSessionCache, mergeClientLists, mergeFrom_firsts, mergedClient] using iff_comm
  rw [parts, flag, cache_eq_iff, refresh_entries_iff, ← known_iff]
  constructor
  · rintro ⟨⟨entries, index⟩, count, breach⟩
    exact ⟨count.symm, breach, entries, (refresh_addresses_iff entries).mp index⟩
  · rintro ⟨count, breach, entries, addresses⟩
    exact ⟨⟨entries, (refresh_addresses_iff entries).mpr addresses⟩, count.symm, breach⟩

@[simp] theorem known_nil {nowMs : Nat} {all : String → Option WifiClient} : Known nowMs [] all cache :=
  ⟨nofun, fun before _ _ split => by simp [firsts] at split⟩

end

/-- When one of the two fetches fails, the cache, the voucher count and the breach flag are as
    before exactly in the states for which that failure is harmless. -/
theorem failed_refresh_iff (flash : Flash) (opens : Bool) (config : Config) (clock : Nat)
    (hotspot : Fetch HotspotClient) (live : Fetch WifiClient) (before : Refreshed)
    (_ : ¬ (hotspot.Successful ∧ live.Successful)) :
    refresh flash opens config clock hotspot live before = before ↔ Harmless config clock hotspot live before := by
  rw [refresh_same_iff, getHotspotClientsJson_read, getAllClientsJson_accepted, Harmless]
  cases hotspot.read with
  | none =>
    cases live.accepted with
    | none => simp [firsts, vouchers]
    | some clients => simp [firsts]
  | some sessions =>
    cases live.accepted with
    | none =>
      have networks : (config.managementSsid ≠ "" ∧ ∃ session ∈ firsts (nowEpochMillis clock) [] sessions,
          asString ((allMap [] session.mac).bind (·.ssid)) = config.managementSsid) ↔
          config.managementSsid = "null" ∧ firsts (nowEpochMillis clock) [] sessions ≠ [] := by
        simp only [allMap, List.foldl_nil, Option.bind_none, asString, Option.getD_none]
        constructor
        · rintro ⟨-, session, inside, same⟩
          exact ⟨same.symm, List.ne_nil_of_mem inside⟩
        · rintro ⟨same, some⟩
          obtain ⟨session, inside⟩ := List.exists_mem_of_ne_nil _ some
          exact ⟨by rw [same]; decide, session, inside, same.symm⟩
      rw [Option.getD_some, Option.getD_none, networks]
      exact Iff.rfl
    | some clients => exact Iff.rfl

/-! ## A controller that cannot be reached -/

/-- An earlier refresh has found the session of `A`. -/
def calm : Refreshed :=
  refreshHotspotSessionCache Flash.empty true defaultConfig 1000500 [sessionAt "A" "10.0.0.5"] [] SessionCache.empty

/-- The reply with the session of `A` is cut off, and the live list is not there. -/
theorem failed_refresh_known :
    refresh Flash.empty true defaultConfig 1000500 (.body false 0 [sessionAt "A" "10.0.0.5"]) .loginFailed calm = calm := by
  refine (failed_refresh_iff Flash.empty true defaultConfig 1000500 (.body false 0 [sessionAt "A" "10.0.0.5"])
    .loginFailed calm (fun both => both.2)).mpr ⟨rfl, by decide, ?_, ?_⟩
  · intro session inside _
    obtain rfl : session = sessionAt "A" "10.0.0.5" := List.mem_singleton.mp inside
    exact ⟨rfl, rfl, rfl, fun _ => rfl, nofun, nofun, nofun⟩
  · intro before session after split _ _ _
    have inside : session ∈ [sessionAt "A" "10.0.0.5"] := by
      have there : session ∈ before ++ session :: after := List.mem_append_right _ List.mem_cons_self
      rwa [← split] at there
    obtain rfl := List.mem_singleton.mp inside
    exact ⟨_, rfl, rfl⟩

/-- Three voucher clients are forgotten when the controller cannot be reached. -/
theorem vouchers_forgotten :
    ¬ (Fetch.transport : Fetch WifiClient).Successful ∧
      (refresh Flash.empty true defaultConfig 1000500 .transport .transport
        { cache := .empty, voucherActiveCount := 3, mgmtSsidBreach := true }).voucherActiveCount = 0 ∧
      (refresh Flash.empty true defaultConfig 1000500 .transport .transport
        { cache := .empty, voucherActiveCount := 3, mgmtSsidBreach := true }).mgmtSsidBreach = false := by
  exact ⟨id, by decide, by decide⟩

end EllaFi.FailedRefresh
