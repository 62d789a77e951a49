import EllaFi.Cache
import EllaFi.Files
import EllaFi.Omada

/-!
`refreshHotspotSessionCache`: the controller's two client lists are merged by MAC,
and every merged record is written to the cache. A MAC has at most one merged
record, its first active portal session (`mergeClientLists_nodup`,
`mem_mergeClientLists`), so what a refresh leaves of an entry depends on that
record and on the entry alone (`refreshed_byMac`).
-/
namespace EllaFi.Refresh
open EllaFi.Session EllaFi.Cache EllaFi.Files EllaFi.Omada
open Function (update)

/-- A client in the list of connected WiFi clients; null fields are absent. -/
structure WifiClient where
  mac : String
  ip : Option String
  apMac : Option String
  ssid : Option String
  radioId : Option Int
  authTypes : List Int
deriving DecidableEq, Repr

structure MergedClient where
  mac : String
  id : String
  startMillis : Nat
  endMillis : Nat
  ip : Option String
  apMac : Option String
  ssid : Option String
  radioId : Option Int
deriving DecidableEq, Repr

def omadaAuthTypeVoucher : Int := 3

/-- What the JSON library reads as a string where the value is null. -/
def asString (value : Option String) : String := value.getD "null"

/-! ## The merge -/

/-- The connected clients by MAC; the last record of a MAC is kept. -/
def allMap (allClients : List WifiClient) : String → Option WifiClient :=
  allClients.foldl (fun map client => update map client.mac (some client)) fun _ => none

/-- A portal session that has not ended. -/
def ActivePortal (nowMs : Nat) (session : HotspotClient) : Prop :=
  nowMs < session.endMillis ∧ session.authType = omadaAuthTypeExternalPortal

instance (nowMs : Nat) (session : HotspotClient) : Decidable (ActivePortal nowMs session) :=
  inferInstanceAs (Decidable (_ ∧ _))

/-- The record of a session, with the live address where the client is connected. -/
def mergedClient (session : HotspotClient) (live : Option WifiClient) : MergedClient where
  mac := session.mac
  id := session.id
  startMillis := session.startMillis
  endMillis := session.endMillis
  ip := (live.bind (·.ip)).or session.ip
  apMac := live.bind (·.apMac)
  ssid := live.bind (·.ssid)
  radioId := live.bind (·.radioId)

def mergeFrom (all : String → Option WifiClient) (nowMs : Nat) : List String → List HotspotClient → List MergedClient
  | _, [] => []
  | seen, session :: rest =>
    if ActivePortal nowMs session ∧ session.mac ∉ seen then
      mergedClient session (all session.mac) :: mergeFrom all nowMs (session.mac :: seen) rest
    else mergeFrom all nowMs seen rest

def mergeClientLists (hotspotClients : List HotspotClient) (allClients : List WifiClient) (nowMs : Nat) :
    List MergedClient :=
  mergeFrom (allMap allClients) nowMs [] hotspotClients

section
variable {all : String → Option WifiClient} {nowMs : Nat} {hotspotClients : List HotspotClient}
  {allClients : List WifiClient} {client : MergedClient}

theorem mem_mergeFrom {seen : List String} (inside : client ∈ mergeFrom all nowMs seen hotspotClients) :
    client.mac ∉ seen ∧ ∃ session ∈ hotspotClients,
      ActivePortal nowMs session ∧ client = mergedClient session (all session.mac) := by
  induction hotspotClients generalizing seen with
  | nil => cases inside
  | cons session rest ih =>
    simp only [mergeFrom] at inside
    split at inside
    · next taken =>
      rcases List.mem_cons.mp inside with rfl | later
      · exact ⟨taken.2, session, List.mem_cons_self, taken.1, rfl⟩
      · obtain ⟨unseen, other, there, made⟩ := ih later
        exact ⟨fun before => unseen (List.mem_cons_of_mem _ before), other, List.mem_cons_of_mem _ there, made⟩
    · obtain ⟨unseen, other, there, made⟩ := ih inside
      exact ⟨unseen, other, List.mem_cons_of_mem _ there, made⟩

theorem mergeFrom_nodup (seen : List String) :
    ((mergeFrom all nowMs seen hotspotClients).map (·.mac)).Nodup := by
  induction hotspotClients generalizing seen with
  | nil => exact .nil
  | cons session rest ih =>
    simp only [mergeFrom]
    split
    · rw [List.map_cons, List.nodup_cons]
      refine ⟨?_, ih _⟩
      intro twice
      obtain ⟨other, later, same⟩ := List.mem_map.mp twice
      exact (mem_mergeFrom later).1 (same ▸ List.mem_cons_self)
    · exact ih seen

/-- Every active session's MAC has a merged record. -/
theorem mergeFrom_covers {session : HotspotClient} {seen : List String} (inside : session ∈ hotspotClients)
    (active : ActivePortal nowMs session) (unseen : session.mac ∉ seen) :
    ∃ client ∈ mergeFrom all nowMs seen hotspotClients, client.mac = session.mac := by
  induction hotspotClients generalizing seen with
  | nil => cases inside
  | cons first rest ih =>
    simp only [mergeFrom]
    rcases List.mem_cons.mp inside with rfl | later
    · rw [if_pos ⟨active, unseen⟩]
      exact ⟨_, List.mem_cons_self, rfl⟩
    · split
      · by_cases same : session.mac = first.mac
        · exact ⟨_, List.mem_cons_self, same.symm⟩
        · have unseenBoth : session.mac ∉ first.mac :: seen := by simp [same, unseen]
          obtain ⟨client, there, own⟩ := ih later unseenBoth
          exact ⟨client, List.mem_cons_of_mem _ there, own⟩
      · exact ih later unseen

theorem mem_mergeClientLists (inside : client ∈ mergeClientLists hotspotClients allClients nowMs) :
    ∃ session ∈ hotspotClients,
      ActivePortal nowMs session ∧ client = mergedClient session (allMap allClients session.mac) :=
  (mem_mergeFrom inside).2

theorem mergeClientLists_nodup : ((mergeClientLists hotspotClients allClients nowMs).map (·.mac)).Nodup :=
  mergeFrom_nodup []

end

/-! ## Writing the cache -/

/-- What a merged record assigns to an entry. -/
def refreshed (client : MergedClient) : FieldWrite where
  apply s := { s with
    sessionStartMillis := client.startMillis
    sessionEndMillis := client.endMillis
    clientId := client.id
    apMac := client.apMac.getD s.apMac
    ssidName := client.ssid.getD s.ssidName
    radioId := (client.radioId.map toString).getD s.radioId }
  keepsMac _ := rfl
  keepsIp _ := rfl

section
variable (flash : Flash) (opens : Bool)

/-- The paused time that a new entry finds on disk. -/
def restored (mac : String) : FieldWrite where
  apply s :=
    if hasPausedSessionFile flash mac then { s with pausedRemainingMillis := loadPausedSessionFile flash mac opens }
    else s
  keepsMac s := by split <;> rfl
  keepsIp s := by split <;> rfl

def refreshClient (cache : SessionCache) (client : MergedClient) : SessionCache :=
  let ip := asString client.ip
  let isNew := cache.findByMac client.mac = none
  if client.mac = "" ∨ (ip = "" ∧ isNew) then cache
  else
    let cache := cache.upsert ip client.mac
    let cache := if isNew then cache.write client.mac (restored flash opens client.mac) else cache
    cache.write client.mac (refreshed client)

structure Refreshed where
  cache : SessionCache
  voucherActiveCount : Nat
  /-- A portal client is on the network of the nodes. -/
  mgmtSsidBreach : Bool

def refreshHotspotSessionCache (config : Config) (clock : Nat) (hotspotClients : List HotspotClient)
    (allClients : List WifiClient) (cache : SessionCache) : Refreshed :=
  let merged := mergeClientLists hotspotClients allClients (nowEpochMillis clock)
  { cache := merged.foldl (refreshClient flash opens) cache
    voucherActiveCount := allClients.countP fun client => client.authTypes.contains omadaAuthTypeVoucher
    mgmtSsidBreach :=
      config.managementSsid ≠ "" && merged.any fun client => asString client.ssid = config.managementSsid }

/-- What a merged record makes of the entry under its MAC. -/
def refreshedEntry (client : MergedClient) : Option SessionParams → Option SessionParams
  | none =>
    if asString client.ip = "" then none
    else some ((refreshed client).apply ((restored flash opens client.mac).apply
      { clientMac := client.mac, clientIp := asString client.ip }))
  | some s =>
    some ((refreshed client).apply
      (if asString client.ip = "" then s else { s with clientIp := asString client.ip }))

end

section
variable {flash : Flash} {opens : Bool} {cache : SessionCache} {client : MergedClient}

theorem refreshedEntry_known {before after : SessionParams}
    (made : refreshedEntry flash opens client (some before) = some after) :
    after.sessionEndMillis = client.endMillis ∧ after.clientId = client.id ∧
      after.pausedRemainingMillis = before.pausedRemainingMillis := by
  cases made
  refine ⟨rfl, rfl, ?_⟩
  simp only [refreshed]
  split <;> rfl

theorem refreshedEntry_clientId {before : Option SessionParams} {after : SessionParams}
    (made : refreshedEntry flash opens client before = some after) : after.clientId = client.id := by
  cases before with
  | none =>
    rw [refreshedEntry] at made
    split at made
    · cases made
    · cases made; rfl
  | some s => exact (refreshedEntry_known made).2.1

theorem refreshClient_byMac (named : client.mac ≠ "") (mac : String) :
    (refreshClient flash opens cache client).byMac mac =
      if mac = client.mac then refreshedEntry flash opens client (cache.byMac mac) else cache.byMac mac := by
  have prior : cache.findByMac client.mac = cache.byMac client.mac := if_neg named
  unfold refreshClient
  simp only [named, false_or, prior]
  by_cases here : mac = client.mac
  · subst here
    rw [if_pos rfl]
    cases there : cache.byMac client.mac with
    | none =>
      by_cases blank : asString client.ip = ""
      · simp [blank, refreshedEntry, there]
      · simp [blank, refreshedEntry, SessionCache.write_byMac, SessionCache.upsert_byMac, named,
          SessionCache.upsertEntry, SessionCache.entry, there]
    | some s =>
      have own := SessionCache.entry_of_byMac there
      simp [refreshedEntry, SessionCache.write_byMac, SessionCache.upsert_byMac, named, SessionCache.upsertEntry, own]
  · rw [if_neg here]
    split
    · rfl
    · split <;> simp [SessionCache.write_byMac, SessionCache.upsert_byMac, here, named]

/-- A record of no MAC writes nothing. -/
theorem refreshClient_unnamed (unnamed : client.mac = "") : refreshClient flash opens cache client = cache := by
  simp [refreshClient, unnamed]

theorem refreshClient_byMac_other {mac : String} (other : client.mac ≠ "" → client.mac ≠ mac) :
    (refreshClient flash opens cache client).byMac mac = cache.byMac mac := by
  by_cases named : client.mac = ""
  · rw [refreshClient_unnamed named]
  · rw [refreshClient_byMac named, if_neg (Ne.symm (other named))]

theorem foldl_refreshClient_byMac_other {mac : String} (clients : List MergedClient)
    (absent : ∀ client ∈ clients, client.mac ≠ "" → client.mac ≠ mac) :
    (clients.foldl (refreshClient flash opens) cache).byMac mac = cache.byMac mac := by
  induction clients generalizing cache with
  | nil => rfl
  | cons first rest ih =>
    obtain ⟨head, tail⟩ := List.forall_mem_cons.mp absent
    rw [List.foldl_cons, ih tail, refreshClient_byMac_other head]

theorem foldl_refreshClient_byMac {clients : List MergedClient} (distinct : (clients.map (·.mac)).Nodup)
    (inside : client ∈ clients) (named : client.mac ≠ "") :
    (clients.foldl (refreshClient flash opens) cache).byMac client.mac =
      refreshedEntry flash opens client (cache.byMac client.mac) := by
  induction clients generalizing cache with
  | nil => cases inside
  | cons first rest ih =>
    rw [List.map_cons, List.nodup_cons] at distinct
    rw [List.foldl_cons]
    rcases List.mem_cons.mp inside with rfl | later
    · have absent : ∀ other ∈ rest, other.mac ≠ "" → other.mac ≠ client.mac := by
        intro other there _ same
        exact distinct.1 (List.mem_map.mpr ⟨other, there, same⟩)
      rw [foldl_refreshClient_byMac_other rest absent, refreshClient_byMac named, if_pos rfl]
    · have differs : first.mac ≠ client.mac := by
        intro same
        exact distinct.1 (List.mem_map.mpr ⟨client, later, same.symm⟩)
      rw [ih distinct.2 later, refreshClient_byMac_other fun _ => differs]

/-- What a refresh leaves under a MAC: the entry there was, or what the MAC's one
    merged record makes of it. -/
theorem refreshed_byMac (config : Config) (clock : Nat) (hotspotClients : List HotspotClient)
    (allClients : List WifiClient) (mac : String) :
    (refreshHotspotSessionCache flash opens config clock hotspotClients allClients cache).cache.byMac mac =
        cache.byMac mac ∨
      ∃ session ∈ hotspotClients, session.mac = mac ∧ ActivePortal (nowEpochMillis clock) session ∧
        (refreshHotspotSessionCache flash opens config clock hotspotClients allClients cache).cache.byMac mac =
          refreshedEntry flash opens (mergedClient session (allMap allClients mac)) (cache.byMac mac) := by
  by_cases listed : mac ≠ "" ∧
      ∃ client ∈ mergeClientLists hotspotClients allClients (nowEpochMillis clock), client.mac = mac
  · obtain ⟨named, client, inside, rfl⟩ := listed
    obtain ⟨session, there, active, made⟩ := mem_mergeClientLists inside
    have own : session.mac = client.mac := by rw [made]; rfl
    refine .inr ⟨session, there, own, active, ?_⟩
    rw [← own, ← made, own]
    exact foldl_refreshClient_byMac mergeClientLists_nodup inside named
  · refine .inl (foldl_refreshClient_byMac_other _ ?_)
    intro client inside named same
    exact listed ⟨same ▸ named, client, inside, same⟩

end

end EllaFi.Refresh
