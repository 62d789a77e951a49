import EllaFi.Holders
import Mathlib.Data.List.Pairwise

/-!
Whose address is whose after a refresh. The merged records are written in the
order of the hotspot list, a connected client's with its live address and any
other's with the address of its login, so of the records of one address the last
decides (`record_holds`), and where there is none the client that had it before keeps it
(`unwritten_holds`). Every live client has its address exactly when no login address of an
absent client stands behind the live client's own record, or without it, and no absent
client from before is left with it (`live_owner_iff`).
-/
namespace EllaFi.LiveOwner
open EllaFi.Session EllaFi.Cache EllaFi.Files EllaFi.Omada EllaFi.Refresh EllaFi.Holders
open EllaFi.Leases (grant lastWord foldl_grant_iff foldl_grant_taken)
open Function (update)

/-! ## The live list -/

section
variable (allClients : List WifiClient)

/-- The address of a MAC in the list of connected clients. -/
def liveIp (mac : String) : Option String := (allMap allClients mac).bind (·.ip)

/-- No two connected clients share an address. -/
def DistinctLive : Prop :=
  ∀ mac other ip, ip ≠ "" → liveIp allClients mac = some ip → liveIp allClients other = some ip → mac = other

end

theorem allMap_mem {allClients : List WifiClient} {mac : String} {client : WifiClient}
    (found : allMap allClients mac = some client) : client ∈ allClients ∧ client.mac = mac := by
  unfold allMap at found
  induction allClients using List.reverseRecOn with
  | nil => cases found
  | append_singleton before last ih =>
    rw [List.foldl_append, List.foldl_cons, List.foldl_nil] at found
    by_cases here : mac = last.mac
    · subst here
      rw [Function.update_self, Option.some.injEq] at found
      simp [found]
    · rw [Function.update_of_ne here] at found
      obtain ⟨there, own⟩ := ih found
      exact ⟨List.mem_append_left _ there, own⟩

theorem distinctLive_of_nodup {allClients : List WifiClient} (nodup : (allClients.filterMap (·.ip)).Nodup) :
    DistinctLive allClients := by
  intro mac other ip _ live liveToo
  obtain ⟨client, found, own⟩ := Option.bind_eq_some_iff.mp live
  obtain ⟨second, foundToo, ownToo⟩ := Option.bind_eq_some_iff.mp liveToo
  obtain ⟨inside, rfl⟩ := allMap_mem found
  obtain ⟨insideToo, rfl⟩ := allMap_mem foundToo
  have same : client = second := by
    by_contra differs
    have symmetric : Std.Symm fun first last : WifiClient =>
        ∀ ip, first.ip = some ip → ∀ ip', last.ip = some ip' → ip ≠ ip' :=
      ⟨fun _ _ apart ip there ip' here equal => apart ip' here ip there equal.symm⟩
    exact (List.pairwise_filterMap.mp nodup).forall inside insideToo differs ip own ip ownToo rfl
  rw [same]

/-! ## Who holds the address of a record -/

section
variable {flash : Flash} {opens : Bool} {config : Config} {clock : Nat} {cache : SessionCache}
  {hotspotClients : List HotspotClient} {allClients : List WifiClient}

theorem mem_recordLeases {clients : List MergedClient} {lease : String × String} :
    lease ∈ clients.flatMap recordLease ↔
      ∃ client ∈ clients, client.mac ≠ "" ∧ asString client.ip ≠ "" ∧ lease = (asString client.ip, client.mac) := by
  rw [List.mem_flatMap]
  refine exists_congr fun client => and_congr_right fun _ => ?_
  unfold recordLease Holders.lease
  by_cases named : client.mac = ""
  · simp [named]
  · by_cases blank : asString client.ip = ""
    · simp [named, blank]
    · simp [named, blank]

/-- A record's client holds its address exactly when no later record has that address. -/
theorem record_holds {before after : List MergedClient} {client : MergedClient}
    (merged : mergeClientLists hotspotClients allClients (nowEpochMillis clock) = before ++ client :: after)
    (named : client.mac ≠ "") (given : asString client.ip ≠ "") :
    (refreshHotspotSessionCache flash opens config clock hotspotClients allClients cache).cache.ipToMac
        (asString client.ip) = some client.mac ↔
      ∀ later ∈ after, later.mac ≠ "" → asString later.ip ≠ asString client.ip := by
  have nodup := @mergeClientLists_nodup (nowEpochMillis clock) hotspotClients allClients
  rw [merged, List.map_append, List.map_cons, List.nodup_append, List.nodup_cons] at nodup
  have others : ∀ lease ∈ after.flatMap recordLease, lease.2 ≠ client.mac := by
    intro lease inside same
    obtain ⟨later, there, -, -, rfl⟩ := mem_recordLeases.mp inside
    exact nodup.2.1.1 (List.mem_map.mpr ⟨later, there, same⟩)
  have own : recordLease client = [(asString client.ip, client.mac)] := by simp [recordLease, Holders.lease, named, given]
  rw [refresh_leases, merged, List.flatMap_append, List.flatMap_cons, own, List.singleton_append,
    foldl_grant_taken _ _ _ others]
  constructor
  · intro free later there known same
    exact free _ (mem_recordLeases.mpr ⟨later, there, known, same ▸ given, rfl⟩) same
  · intro free lease inside
    obtain ⟨later, there, known, -, rfl⟩ := mem_recordLeases.mp inside
    exact free later there known

/-- Of an address that no record has, a client without a record is the holder if it was. -/
theorem unwritten_holds {mac ip : String}
    (unwritten : ∀ client ∈ mergeClientLists hotspotClients allClients (nowEpochMillis clock),
      client.mac ≠ "" → asString client.ip ≠ "" → client.mac ≠ mac ∧ asString client.ip ≠ ip) :
    (refreshHotspotSessionCache flash opens config clock hotspotClients allClients cache).cache.ipToMac ip = some mac ↔
      cache.ipToMac ip = some mac := by
  have none : lastWord ip mac
      ((mergeClientLists hotspotClients allClients (nowEpochMillis clock)).flatMap recordLease) = none := by
    refine List.getLast?_eq_none_iff.mpr (List.filter_eq_nil_iff.mpr fun lease inside about => ?_)
    obtain ⟨client, there, named, given, rfl⟩ := mem_recordLeases.mp inside
    obtain ⟨notMac, notIp⟩ := unwritten client there named given
    rcases of_decide_eq_true about with same | same
    · exact notIp same
    · exact notMac same
  rw [refresh_leases, foldl_grant_iff, none]

/-- A client that holds an address has it from its record, or from before and is in no record. -/
theorem holder_cases {mac ip : String}
    (held : (refreshHotspotSessionCache flash opens config clock hotspotClients allClients cache).cache.ipToMac ip =
      some mac) :
    (∃ client ∈ mergeClientLists hotspotClients allClients (nowEpochMillis clock),
        client.mac ≠ "" ∧ asString client.ip ≠ "" ∧ client.mac = mac ∧ asString client.ip = ip) ∨
      cache.ipToMac ip = some mac ∧ ∀ client ∈ mergeClientLists hotspotClients allClients (nowEpochMillis clock),
        client.mac ≠ "" → asString client.ip ≠ "" → client.mac ≠ mac ∧ asString client.ip ≠ ip := by
  rw [refresh_leases, foldl_grant_iff] at held
  cases last : lastWord ip mac
      ((mergeClientLists hotspotClients allClients (nowEpochMillis clock)).flatMap recordLease) with
  | some lease =>
    rw [last] at held
    obtain ⟨inside, -⟩ := Leases.lastWord_concerns last
    obtain ⟨client, there, named, given, same⟩ := mem_recordLeases.mp inside
    obtain ⟨ofIp, ofMac⟩ := Prod.mk.inj (held.symm.trans same)
    exact .inl ⟨client, there, named, given, ofMac.symm, ofIp.symm⟩
  | none =>
    rw [last] at held
    refine .inr ⟨held, fun client there named given => ?_⟩
    have quiet := List.filter_eq_nil_iff.mp (List.getLast?_eq_none_iff.mp last) _
      (mem_recordLeases.mpr ⟨client, there, named, given, rfl⟩)
    constructor
    · intro same
      exact quiet (decide_eq_true (.inr same))
    · intro same
      exact quiet (decide_eq_true (.inl same))

theorem mergedClient_live {session : HotspotClient} {ip : String} (live : liveIp allClients session.mac = some ip) :
    asString (mergedClient session (allMap allClients session.mac)).ip = ip := by
  have found : (allMap allClients session.mac).bind (·.ip) = some ip := live
  simp [mergedClient, asString, found]

/-- A connected client's record has its live address. -/
theorem merged_live {client : MergedClient} {ip : String}
    (inside : client ∈ mergeClientLists hotspotClients allClients (nowEpochMillis clock))
    (live : liveIp allClients client.mac = some ip) : asString client.ip = ip := by
  obtain ⟨session, -, -, rfl⟩ := mem_mergeClientLists inside
  exact mergedClient_live live

/-- A record of a live address is its owner's or an absent client's. -/
theorem merged_owner (distinct : DistinctLive allClients) {client : MergedClient} {mac : String}
    (inside : client ∈ mergeClientLists hotspotClients allClients (nowEpochMillis clock))
    (given : asString client.ip ≠ "") (live : liveIp allClients mac = some (asString client.ip)) :
    client.mac = mac ∨ liveIp allClients client.mac = none := by
  cases connected : liveIp allClients client.mac with
  | none => exact .inr rfl
  | some ip =>
    obtain rfl := merged_live inside connected
    exact .inl (distinct _ _ _ given connected live)

end

/-! ## The live owner -/

section
variable (clock : Nat) (hotspotClients : List HotspotClient) (allClients : List WifiClient)

/-- The MAC has a portal session that has not ended. -/
def HasSession (mac : String) : Prop :=
  mac ≠ "" ∧ ∃ session ∈ hotspotClients, session.mac = mac ∧ ActivePortal (nowEpochMillis clock) session

/-- The MAC's session gives it an address. -/
def Recorded (mac : String) : Prop :=
  ∃ client ∈ mergeClientLists hotspotClients allClients (nowEpochMillis clock),
    client.mac = mac ∧ asString client.ip ≠ ""

/-- The MAC is not connected. What is filed under an address is no MAC, unless a session
    has it for one. -/
def Absent (mac ip : String) : Prop :=
  mac ≠ "" ∧ liveIp allClients mac = none ∧ (mac = ip → Recorded clock hotspotClients allClients mac)

/-- A connected client with a session has its address, and an absent client has the
    address of no connected one. -/
structure LiveOwners (cache : SessionCache) : Prop where
  live : ∀ mac ip, ip ≠ "" → liveIp allClients mac = some ip → HasSession clock hotspotClients mac →
    ∃ s, cache.findByIp ip = some s ∧ s.clientMac = mac
  absent : ∀ mac other ip, ip ≠ "" → liveIp allClients other = some ip → Absent clock hotspotClients allClients mac ip →
    ∀ s, cache.findByIp ip = some s → s.clientMac ≠ mac

/-- An absent client whose login address is another's live address stands before
    the record of that other client. -/
def StaleFirst : Prop :=
  ∀ before client after,
    mergeClientLists hotspotClients allClients (nowEpochMillis clock) = before ++ client :: after →
    client.mac ≠ "" → asString client.ip ≠ "" → liveIp allClients client.mac = none →
    ∀ mac, liveIp allClients mac = some (asString client.ip) → ∃ own ∈ after, own.mac ≠ "" ∧ own.mac = mac

/-- Where an absent client had another's live address before, a record moves it, or has the
    address. -/
def ForgottenMoved (before : SessionCache) : Prop :=
  ∀ mac other ip, ip ≠ "" → liveIp allClients other = some ip → mac ≠ "" → mac ≠ ip → liveIp allClients mac = none →
    (∃ s, before.findByIp ip = some s ∧ s.clientMac = mac) →
      ∃ client ∈ mergeClientLists hotspotClients allClients (nowEpochMillis clock),
        client.mac ≠ "" ∧ asString client.ip ≠ "" ∧ (client.mac = mac ∨ asString client.ip = ip)

end

section
variable {flash : Flash} {opens : Bool} {config : Config} {clock : Nat} {cache : SessionCache}
  {hotspotClients : List HotspotClient} {allClients : List WifiClient}

theorem findByIp_ipToMac {cache : SessionCache} {ip mac : String} :
    (∃ s, cache.findByIp ip = some s ∧ s.clientMac = mac) ↔ cache.ipToMac ip = some mac := by
  rw [← SessionCache.findByIp_mac, Option.map_eq_some_iff]

/-- Of the records with one address the last, where the address is some record's. -/
theorem last_of_address {client : MergedClient} {clients : List MergedClient} (inside : client ∈ clients)
    (named : client.mac ≠ "") :
    ∃ before last after, clients = before ++ last :: after ∧ last.mac ≠ "" ∧ asString last.ip = asString client.ip ∧
      ∀ later ∈ after, later.mac ≠ "" → asString later.ip ≠ asString client.ip := by
  induction clients using List.reverseRecOn with
  | nil => cases inside
  | append_singleton front final ih =>
    by_cases here : final.mac ≠ "" ∧ asString final.ip = asString client.ip
    · exact ⟨front, final, [], rfl, here.1, here.2, nofun⟩
    · have there : client ∈ front := by
        rcases List.mem_append.mp inside with there | same
        · exact there
        · rw [List.mem_singleton] at same
          exact absurd ⟨same ▸ named, by rw [same]⟩ here
      obtain ⟨before, last, after, rfl, lastNamed, same, free⟩ := ih there
      refine ⟨before, last, after ++ [final], by simp, lastNamed, same, ?_⟩
      intro later inLater known equal
      rcases List.mem_append.mp inLater with earlier | isFinal
      · exact free later earlier known equal
      · rw [List.mem_singleton] at isFinal
        exact here ⟨isFinal ▸ known, isFinal ▸ equal⟩

/-- The owner of an address that an absent client's record has is in a later record. -/
theorem staleFirst_of_owners (distinct : DistinctLive allClients)
    (owners : LiveOwners clock hotspotClients allClients
      (refreshHotspotSessionCache flash opens config clock hotspotClients allClients cache).cache) :
    StaleFirst clock hotspotClients allClients := by
  intro before client after merged named given gone mac live
  -- the last record of the address is no absent client's, so it is the live client's
  have inside : client ∈ client :: after := List.mem_cons_self
  obtain ⟨early, last, late, split, lastNamed, sameIp, free⟩ := last_of_address inside named
  have whole : mergeClientLists hotspotClients allClients (nowEpochMillis clock) =
      (before ++ early) ++ last :: late := by rw [merged, split, List.append_assoc]
  have lastInside : last ∈ mergeClientLists hotspotClients allClients (nowEpochMillis clock) := by
    rw [whole]; exact List.mem_append_right _ List.mem_cons_self
  have lastGiven : asString last.ip ≠ "" := sameIp ▸ given
  have held := (@record_holds flash opens config clock cache _ _ _ _ _ whole lastNamed lastGiven).mpr
    fun later there known => sameIp ▸ free later there known
  obtain ⟨s, found, own⟩ := findByIp_ipToMac.mpr held
  have present : liveIp allClients last.mac ≠ none := by
    intro lastGone
    exact owners.absent last.mac mac (asString last.ip) lastGiven (sameIp ▸ live)
      ⟨lastNamed, lastGone, fun _ => ⟨last, lastInside, rfl, lastGiven⟩⟩ s found own
  have same : last.mac = mac := (merged_owner distinct lastInside lastGiven (sameIp ▸ live)).resolve_right present
  have notFirst : last ≠ client := by
    rintro rfl
    exact present gone
  have there : last ∈ client :: after := by rw [split]; exact List.mem_append_right _ List.mem_cons_self
  exact ⟨last, (List.mem_cons.mp there).resolve_left notFirst, lastNamed, same⟩

/-- A live client with a session has its address. -/
theorem live_of_staleFirst (distinct : DistinctLive allClients) (staleFirst : StaleFirst clock hotspotClients allClients)
    {mac ip : String} (given : ip ≠ "") (live : liveIp allClients mac = some ip)
    (session : HasSession clock hotspotClients mac) :
    (refreshHotspotSessionCache flash opens config clock hotspotClients allClients cache).cache.ipToMac ip = some mac := by
  have nodup := @mergeClientLists_nodup (nowEpochMillis clock) hotspotClients allClients
  obtain ⟨named, session, inside, rfl, active⟩ := session
  obtain ⟨own, there, same⟩ := @mergeFrom_covers (allMap allClients) _ _ session [] inside active (List.not_mem_nil)
  have current : asString own.ip = ip := merged_live there (same ▸ live)
  obtain ⟨before, after, split⟩ := List.append_of_mem there
  have merged : mergeClientLists hotspotClients allClients (nowEpochMillis clock) = before ++ own :: after := split
  have ownNamed : own.mac ≠ "" := same ▸ named
  rw [← current, ← same]
  refine (record_holds merged ownNamed (current ▸ given)).mpr ?_
  intro later inLater known equal
  -- a later record of the address is an absent client's, which needs the live one behind it
  rw [merged, List.map_append, List.map_cons, List.nodup_append, List.nodup_cons] at nodup
  obtain ⟨early, late, rfl⟩ := List.append_of_mem inLater
  have laterInside : later ∈ mergeClientLists hotspotClients allClients (nowEpochMillis clock) := by
    rw [merged]; exact List.mem_append_right _ (List.mem_cons_of_mem _ inLater)
  have laterGiven : asString later.ip ≠ "" := by rw [equal, current]; exact given
  have notOwn : later.mac ≠ own.mac := fun twice => nodup.2.1.1 (List.mem_map.mpr ⟨later, inLater, twice⟩)
  have liveLater : liveIp allClients own.mac = some (asString later.ip) := by rw [equal, current, same]; exact live
  have gone : liveIp allClients later.mac = none :=
    (merged_owner distinct laterInside laterGiven liveLater).resolve_left notOwn
  have whole : mergeClientLists hotspotClients allClients (nowEpochMillis clock) =
      (before ++ own :: early) ++ later :: late := by rw [merged]; simp
  obtain ⟨second, behind, -, twice⟩ := staleFirst _ later late whole known laterGiven gone own.mac liveLater
  exact nodup.2.1.1 (List.mem_map.mpr ⟨second, List.mem_append_right _ (List.mem_cons_of_mem _ behind), twice⟩)

/-- An absent client does not have from its record what is another's live address. -/
theorem record_not_held (staleFirst : StaleFirst clock hotspotClients allClients) {client : MergedClient} {other : String}
    (inside : client ∈ mergeClientLists hotspotClients allClients (nowEpochMillis clock)) (named : client.mac ≠ "")
    (given : asString client.ip ≠ "") (gone : liveIp allClients client.mac = none)
    (live : liveIp allClients other = some (asString client.ip)) :
    (refreshHotspotSessionCache flash opens config clock hotspotClients allClients cache).cache.ipToMac
      (asString client.ip) ≠ some client.mac := by
  intro held
  obtain ⟨before, after, merged⟩ := List.append_of_mem inside
  obtain ⟨second, behind, secondNamed, rfl⟩ := staleFirst before client after merged named given gone other live
  have secondInside : second ∈ mergeClientLists hotspotClients allClients (nowEpochMillis clock) := by
    rw [merged]; exact List.mem_append_right _ (List.mem_cons_of_mem _ behind)
  exact (record_holds merged named given).mp held second behind secondNamed (merged_live secondInside live)

/-- After a refresh every live client has its address exactly when the login addresses of
    absent clients that are live elsewhere come first, and no absent client is left with one
    that it had before. -/
theorem live_owner_iff (distinct : DistinctLive allClients) :
    LiveOwners clock hotspotClients allClients
        (refreshHotspotSessionCache flash opens config clock hotspotClients allClients cache).cache ↔
      StaleFirst clock hotspotClients allClients ∧ ForgottenMoved clock hotspotClients allClients cache := by
  constructor
  · intro owners
    refine ⟨staleFirst_of_owners distinct owners, fun mac other ip given live named notIp gone held => ?_⟩
    by_contra unmoved
    have unwritten : ∀ client ∈ mergeClientLists hotspotClients allClients (nowEpochMillis clock),
        client.mac ≠ "" → asString client.ip ≠ "" → client.mac ≠ mac ∧ asString client.ip ≠ ip :=
      fun client there known kept => ⟨fun same => unmoved ⟨client, there, known, kept, .inl same⟩,
        fun same => unmoved ⟨client, there, known, kept, .inr same⟩⟩
    obtain ⟨s, found, own⟩ := findByIp_ipToMac.mpr ((unwritten_holds unwritten).mpr (findByIp_ipToMac.mp held))
    exact owners.absent mac other ip given live ⟨named, gone, fun same => absurd same notIp⟩ s found own
  · rintro ⟨staleFirst, moved⟩
    refine ⟨fun mac ip given live session => findByIp_ipToMac.mpr (live_of_staleFirst distinct staleFirst given live session),
      ?_⟩
    rintro mac other ip given live ⟨named, gone, recorded⟩ s found own
    rcases holder_cases (findByIp_ipToMac.mp ⟨s, found, own⟩) with
      ⟨client, there, known, kept, rfl, rfl⟩ | ⟨held, unwritten⟩
    · exact record_not_held staleFirst there known kept gone live (findByIp_ipToMac.mp ⟨s, found, own⟩)
    · by_cases same : mac = ip
      · obtain ⟨client, there, ofMac, kept⟩ := recorded same
        exact (unwritten client there (ofMac ▸ named) kept).1 ofMac
      · obtain ⟨client, there, known, kept, about⟩ :=
          moved mac other ip given live named same gone (findByIp_ipToMac.mpr held)
        obtain ⟨notMac, notIp⟩ := unwritten client there known kept
        exact about.elim notMac notIp

end

/-! ## An address that was given to another client -/

def sessionAt (mac : String) (ip : String) : HotspotClient where
  mac := mac
  id := mac
  startMillis := 0
  endMillis := 2000000
  authType := omadaAuthTypeExternalPortal
  ip := some ip

def connectedAt (mac : String) (ip : String) : WifiClient where
  mac := mac
  ip := some ip
  apMac := none
  ssid := none
  radioId := none
  authTypes := []

/-- The cache of an earlier refresh, in which `D` was at `10.0.0.9`. -/
def earlier : SessionCache := SessionCache.empty.upsert "10.0.0.9" "D"

/-- `B` has left `10.0.0.5` to `A`, and `D` has left `10.0.0.9` to `C`; both are recorded
    before their successors. -/
theorem live_owner_successors :
    LiveOwners 1000500 [sessionAt "B" "10.0.0.5", sessionAt "A" "10.0.0.7", sessionAt "C" "10.0.0.8"]
        [connectedAt "A" "10.0.0.5", connectedAt "C" "10.0.0.9"]
        (refreshHotspotSessionCache Flash.empty true defaultConfig 1000500
          [sessionAt "B" "10.0.0.5", sessionAt "A" "10.0.0.7", sessionAt "C" "10.0.0.8"]
          [connectedAt "A" "10.0.0.5", connectedAt "C" "10.0.0.9"] earlier).cache ↔
      StaleFirst 1000500 [sessionAt "B" "10.0.0.5", sessionAt "A" "10.0.0.7", sessionAt "C" "10.0.0.8"]
          [connectedAt "A" "10.0.0.5", connectedAt "C" "10.0.0.9"] ∧
        ForgottenMoved 1000500 [sessionAt "B" "10.0.0.5", sessionAt "A" "10.0.0.7", sessionAt "C" "10.0.0.8"]
          [connectedAt "A" "10.0.0.5", connectedAt "C" "10.0.0.9"] earlier :=
  live_owner_iff (distinctLive_of_nodup (by decide))

/-- The client at `10.0.0.5` was given the address after another client left it;
    the other's session is listed behind. -/
theorem stale_address_wins :
    DistinctLive [connectedAt "A" "10.0.0.5"] ∧
      ¬ LiveOwners 1000500 [sessionAt "A" "10.0.0.7", sessionAt "B" "10.0.0.5"] [connectedAt "A" "10.0.0.5"]
        (refreshHotspotSessionCache Flash.empty true defaultConfig 1000500
          [sessionAt "A" "10.0.0.7", sessionAt "B" "10.0.0.5"] [connectedAt "A" "10.0.0.5"] SessionCache.empty).cache := by
  refine ⟨distinctLive_of_nodup (by decide), fun owners => ?_⟩
  have hasSession : HasSession 1000500 [sessionAt "A" "10.0.0.7", sessionAt "B" "10.0.0.5"] "A" :=
    ⟨by decide, sessionAt "A" "10.0.0.7", List.mem_cons_self, rfl, by decide⟩
  have held := findByIp_ipToMac.mp (owners.live "A" "10.0.0.5" (by decide) (by decide) hasSession)
  exact absurd held (by decide +kernel)

end EllaFi.LiveOwner
