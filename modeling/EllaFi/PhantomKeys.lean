import EllaFi.Noninterference
import EllaFi.Refresh

/-!
The keys of the cache. Every request and every refresh enters what `filed` says, and
nothing else (`step_keys`): the page asks for a MAC or finds one, and a refresh leaves
out the records without one; but the status takes an empty MAC as it is given, and the
cache then files the client under its address. So the keys are MACs that were supplied,
all along a run, exactly when no status is asked for with an empty MAC from an address
that the cache does not know, and no address is supplied as a MAC (`keys_genuine_iff`).
Every record of the controller is taken to have a MAC, as `HotspotClient` has it: the
code makes the key `null` of a record whose MAC is null.
-/
namespace EllaFi.PhantomKeys
open EllaFi.Session EllaFi.Cache EllaFi.Files EllaFi.Refresh EllaFi.Portal EllaFi.Steps
open EllaFi.Omada (HotspotClient Issuer plainIssuer)
open EllaFi.Runs (run Always Throughout watch watch_some run_total always_iff)

/-- What a refresh reads: the files, the clock, and the controller's two lists. -/
structure RefreshInput where
  flash : Flash
  opens : Bool
  clock : Nat
  hotspotClients : List HotspotClient
  allClients : List WifiClient

def RefreshInput.merged (input : RefreshInput) : List MergedClient :=
  mergeClientLists input.hotspotClients input.allClients (nowEpochMillis input.clock)

/-- A request meets what files there are by then. -/
inductive Action where
  | request (flash : Flash) (around : Around) (request : Request)
  | refresh (input : RefreshInput)

section
variable {issuer : Issuer} (address : IPAddress) (config : Config)

def step (server : Server issuer) : Action → Option (Server issuer)
  | .request flash around request =>
    some (serve address config around { server with world := { server.world with flash } } request).1
  | .refresh input =>
    some (server.withCache
      (refreshHotspotSessionCache input.flash input.opens config input.clock input.hotspotClients input.allClients
        server.world.cache).cache)

/-- The MACs that an action supplies. -/
def supplies : Action → List String
  | .request _ _ (.root request) | .request _ _ (.getStatus request) => request.clientMac.toList
  | .request _ _ (.wsOpen _ _) | .request _ _ (.ws _) => []
  | .refresh input => input.hotspotClients.map (·.mac)

def noteSupplied (_ : Server issuer) (a : Action) (supplied : List String) : List String := supplies a ++ supplied

/-- A key that is a client's MAC: supplied as one, and no address. -/
structure Genuine (supplied : List String) (key : String) : Prop where
  nonempty : key ≠ ""
  supplied : key ∈ supplied
  noAddress : address.fromString key = none

def AllGenuine (s : Server issuer × List String) : Prop :=
  ∀ key, (s.1.world.cache.byMac key).isSome → Genuine address s.2 key

/-- What supplies a MAC supplies no address, and a status that is asked for with an empty
    MAC comes from an address that the cache knows (or gives one that was supplied as a
    MAC before, and is no address). -/
def NamesClients (s : Server issuer × List String) : Action → Prop
  | .request _ _ (.root request) => ∀ mac ∈ request.clientMac, mac ≠ "" → address.fromString mac = none
  | .request _ _ (.getStatus request) => ∀ mac ∈ request.clientMac,
      (mac ≠ "" → address.fromString mac = none) ∧
        (mac = "" → (s.1.world.cache.ipToMac request.ip).isSome ∨ Genuine address s.2 request.ip)
  | .request _ _ (.wsOpen _ _) | .request _ _ (.ws _) => True
  | .refresh input => ∀ client ∈ input.merged, client.mac ≠ "" → asString client.ip ≠ "" →
      address.fromString client.mac = none

end

/-! ## What an action enters -/

/-- The keys that an action makes or finds an entry under. -/
def filed (cache : SessionCache) : Action → List String
  | .request _ _ (.root request) => (rootMac cache request).toList
  | .request _ _ (.getStatus request) => (request.clientMac.map (cache.key request.ip)).toList
  | .request _ _ (.wsOpen _ _) | .request _ _ (.ws _) => []
  | .refresh input => (input.merged.filter fun client => client.mac ≠ "" ∧ asString client.ip ≠ "").map (·.mac)

section
variable {issuer : Issuer} {address : IPAddress} {config : Config} {cache : SessionCache} {server next : Server issuer} {a : Action} {key : String}

theorem write_keys {mac : String} {fields : FieldWrite} :
    ((cache.write mac fields).byMac key).isSome ↔ (cache.byMac key).isSome := by
  rw [SessionCache.write_byMac]
  split <;> simp

theorem seed_keys {flash : Flash} {opens : Bool} {request : Redirect} :
    ((seedPortalSession flash opens request cache).byMac key).isSome ↔
      (cache.byMac key).isSome ∨ key = cache.key request.clientIp request.clientMac := by
  simp only [seedPortalSession, write_keys, SessionCache.upsert_byMac]
  split <;> simp_all

theorem handleAction_cache {around : Around} {socketFd : Int} {clientIp action : String} {session : SessionParams} :
    (handleAction address config around socketFd clientIp session action server).1.world.cache =
      server.world.cache := by
  unfold handleAction
  split_ifs
  · rfl
  · split <;> rfl
  · rfl
  · rfl
  · rfl
  · split <;> rfl
  · rfl

theorem refreshClient_keys {flash : Flash} {opens : Bool} {client : MergedClient} :
    ((refreshClient flash opens cache client).byMac key).isSome ↔
      (cache.byMac key).isSome ∨ (client.mac ≠ "" ∧ asString client.ip ≠ "") ∧ client.mac = key := by
  by_cases named : client.mac = ""
  · simp [refreshClient_unnamed named, named]
  · rw [refreshClient_byMac named]
    by_cases own : key = client.mac
    · subst own
      rw [if_pos rfl]
      cases cache.byMac client.mac with
      | none => by_cases blank : asString client.ip = "" <;> simp [refreshedEntry, blank, named]
      | some s => simp [refreshedEntry]
    · simp [own, Ne.symm own]

theorem foldl_refreshClient_keys {flash : Flash} {opens : Bool} (clients : List MergedClient) :
    ((clients.foldl (refreshClient flash opens) cache).byMac key).isSome ↔
      (cache.byMac key).isSome ∨ ∃ client ∈ clients, (client.mac ≠ "" ∧ asString client.ip ≠ "") ∧ client.mac = key := by
  induction clients generalizing cache with
  | nil => simp
  | cons client rest ih =>
    rw [List.foldl_cons, ih, refreshClient_keys, List.exists_mem_cons_iff, or_assoc]

theorem rootMac_nonempty {request : HttpRequest} {mac : String} (found : rootMac cache request = some mac) : mac ≠ "" := by
  unfold rootMac at found
  simp only at found
  split at found
  · obtain ⟨existing, -, own⟩ := Option.bind_eq_some_iff.mp found
    split at own
    · cases own
    · next named =>
      cases own
      exact named
  · next named =>
    cases found
    exact named

/-- The keys after an action are those before it and those that it files. -/
theorem step_keys (taken : step address config server a = some next) :
    (next.world.cache.byMac key).isSome ↔ (server.world.cache.byMac key).isSome ∨ key ∈ filed server.world.cache a := by
  cases a with
  | refresh input =>
    cases taken
    simp only [Server.withCache, refreshHotspotSessionCache, filed, RefreshInput.merged, List.mem_map, List.mem_filter, decide_eq_true_eq,
      and_assoc]
    rw [foldl_refreshClient_keys]
    simp only [and_assoc]
  | request flash around request =>
    cases taken
    cases request with
    | root request =>
      simp only [serve, handleRoot, filed]
      cases found : rootMac server.world.cache request with
      | none => simp
      | some mac => simp [seeded, Server.withCache, seed_keys, HttpRequest.redirect, SessionCache.key, rootMac_nonempty found]
    | getStatus request =>
      simp only [serve, handleGetStatus, filed]
      cases request.clientMac with
      | none => cases server.world.cache.findByIp request.ip <;> simp
      | some mac => simp [seeded, Server.withCache, seed_keys, HttpRequest.redirect]
    | wsOpen remoteIp socketFd =>
      simp only [serve, handleWsOpen, filed, List.not_mem_nil, or_false]
      split
      · exact write_keys
      · exact Iff.rfl
    | ws request =>
      simp only [serve, handleWsRequest, filed, List.not_mem_nil, or_false]
      split
      · exact Iff.rfl
      · split
        · exact Iff.rfl
        · rw [handleAction_cache]
          exact write_keys

/-! ## Which keys are genuine -/

theorem Genuine.later {supplied : List String} (genuine : Genuine address supplied key) (more : List String) :
    Genuine address (more ++ supplied) key :=
  ⟨genuine.nonempty, List.mem_append_right more genuine.supplied, genuine.noAddress⟩

theorem genuine_supplied {supplied : List String} (named : key ≠ "") (inside : key ∈ supplied) :
    Genuine address supplied key ↔ address.fromString key = none :=
  ⟨(·.noAddress), fun other => ⟨named, inside, other⟩⟩

theorem genuine_blank {supplied : List String} : Genuine address ("" :: supplied) key ↔ Genuine address supplied key := by
  refine ⟨fun genuine => ⟨genuine.nonempty, ?_, genuine.noAddress⟩, fun genuine => genuine.later [""]⟩
  exact (List.mem_cons.mp genuine.supplied).resolve_left genuine.nonempty

/-- The MAC that the page finds for an address is a key already. -/
theorem rootMac_known {request : HttpRequest} (unnamed : request.clientMac.getD "" = "")
    (found : rootMac cache request = some key) : (cache.byMac key).isSome := by
  rw [rootMac, if_pos unnamed] at found
  obtain ⟨existing, at_, own⟩ := Option.bind_eq_some_iff.mp found
  split at own
  · cases own
  · cases own
    rw [(SessionCache.findByIp_some.mp at_).2]
    rfl

theorem refresh_genuine_iff {s : Server issuer × List String} {input : RefreshInput} :
    (∀ key ∈ filed s.1.world.cache (.refresh input), Genuine address (supplies (.refresh input) ++ s.2) key) ↔
      NamesClients address s (.refresh input) := by
  have given {client : MergedClient} (inside : client ∈ input.merged) (named : client.mac ≠ "") :
      Genuine address (supplies (.refresh input) ++ s.2) client.mac ↔ address.fromString client.mac = none := by
    refine genuine_supplied named (List.mem_append_left _ ?_)
    obtain ⟨session, there, -, made⟩ := mem_mergeClientLists inside
    exact List.mem_map.mpr ⟨session, there, by rw [made]; rfl⟩
  simp only [filed, NamesClients, List.mem_map, List.mem_filter, decide_eq_true_eq]
  constructor
  · intro genuine client inside named reached
    exact (given inside named).mp (genuine client.mac ⟨client, ⟨inside, named, reached⟩, rfl⟩)
  · rintro noAddress key ⟨client, ⟨inside, named, reached⟩, rfl⟩
    exact (given inside named).mpr (noAddress client inside named reached)

theorem root_genuine_iff {s : Server issuer × List String} (all : AllGenuine address s) {flash : Flash} {around : Around} {request : HttpRequest} :
    (∀ key ∈ filed s.1.world.cache (.request flash around (.root request)),
        Genuine address (supplies (.request flash around (.root request)) ++ s.2) key) ↔
      NamesClients address s (.request flash around (.root request)) := by
  simp only [filed, NamesClients, supplies, Option.mem_toList]
  by_cases unnamed : request.clientMac.getD "" = ""
  · refine iff_of_true (fun key found => (all key (rootMac_known unnamed found)).later _) fun mac given named => ?_
    rw [given] at unnamed
    exact absurd unnamed named
  · obtain ⟨mac, given⟩ : ∃ mac, request.clientMac = some mac := by
      cases there : request.clientMac with
      | none => exact absurd (by rw [there]; rfl) unnamed
      | some mac => exact ⟨mac, rfl⟩
    have named : mac ≠ "" := by simpa [given] using unnamed
    simp [rootMac, given, named, genuine_supplied]

theorem status_genuine_iff {s : Server issuer × List String} (all : AllGenuine address s) {flash : Flash} {around : Around} {request : HttpRequest} :
    (∀ key ∈ filed s.1.world.cache (.request flash around (.getStatus request)),
        Genuine address (supplies (.request flash around (.getStatus request)) ++ s.2) key) ↔
      NamesClients address s (.request flash around (.getStatus request)) := by
  simp only [filed, NamesClients, supplies]
  cases request.clientMac with
  | none => simp
  | some mac =>
    by_cases named : mac = ""
    · subst named
      cases held : s.1.world.cache.ipToMac request.ip with
      | none => simp [SessionCache.key, held, genuine_blank]
      | some key =>
        obtain ⟨session, there, -⟩ := s.1.world.cache.indexed held
        have known : Genuine address s.2 key := all key (by rw [there]; rfl)
        simp [SessionCache.key, held, genuine_blank, known]
    · simp [SessionCache.key, named, genuine_supplied]

theorem filed_genuine_iff {s : Server issuer × List String} (all : AllGenuine address s) :
    (∀ key ∈ filed s.1.world.cache a, Genuine address (supplies a ++ s.2) key) ↔ NamesClients address s a := by
  cases a with
  | refresh input => exact refresh_genuine_iff
  | request flash around request =>
    cases request with
    | wsOpen | ws => simp [filed, NamesClients]
    | root request => exact root_genuine_iff all
    | getStatus request => exact status_genuine_iff all

/-- The keys stay genuine by an action exactly when it names clients. -/
theorem step_genuine_iff {s next : Server issuer × List String} (all : AllGenuine address s)
    (taken : watch (step address config) noteSupplied s a = some next) :
    AllGenuine address next ↔ NamesClients address s a := by
  obtain ⟨taken, noted⟩ := watch_some.mp taken
  rw [← filed_genuine_iff all, AllGenuine, noted]
  constructor
  · intro genuine key inside
    exact genuine key ((step_keys taken).mpr (.inr inside))
  · intro genuine key there
    exact ((step_keys taken).mp there).elim (fun before => (all key before).later _) (genuine key)

/-- In any run of requests and refreshes from an empty cache, every key is a MAC that
    was supplied, and no address, exactly when every action names clients. -/
theorem keys_genuine_iff {issuer : Issuer} (address : IPAddress) (config : Config) (server : Server issuer) (actions : List Action) :
    let start := server.withCache SessionCache.empty
    Always (watch (step address config) noteSupplied) (AllGenuine address) (start, []) actions ↔
      Throughout (watch (step address config) noteSupplied) (NamesClients address) (start, []) actions := by
  intro start
  obtain ⟨last, ran⟩ := @run_total _ _ (watch (step address config) noteSupplied)
    (fun s a => by rcases a with request | input <;> exact ⟨_, rfl⟩) (start, []) actions
  refine @always_iff _ _ _ (fun _ => True) _ _ _ (fun _ _ _ _ _ => trivial)
    (fun s a next _ all names taken => (step_genuine_iff all taken).mpr names) (fun _ => id)
    (fun s a next _ all unnamed taken => mt (step_genuine_iff all taken).mp unnamed) _ _ _ trivial ?_ ran
  intro key there
  cases there

end

/-! ## A status with an empty MAC -/

def blankStatus : Action :=
  .request Flash.empty Noninterference.inService (.getStatus
    { remoteIp := "10.0.0.5", clientIp := none, clientMac := some "", apMac := none, ssidName := none, radioId := none })

def emptyServer : Server plainIssuer := { world := Finalize.powered, tasks := CoinTasks.initial, wsJobs := [] }

/-- The client is filed under its address. -/
theorem blank_status_files_address :
    ∃ s, run (watch (step dottedQuad defaultConfig) noteSupplied) (emptyServer, []) [blankStatus] = some s ∧
      (s.1.world.cache.byMac "10.0.0.5").isSome ∧ s.2 = [""] ∧ ¬ AllGenuine dottedQuad s := by
  refine ⟨_, rfl, by decide +kernel, rfl, fun all => ?_⟩
  have filed : ([""] : List String).contains "10.0.0.5" :=
    List.contains_iff_mem.mpr (all "10.0.0.5" (by decide +kernel)).supplied
  exact absurd filed (by decide)

end EllaFi.PhantomKeys
