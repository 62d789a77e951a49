import EllaFi.Leases
import EllaFi.Refresh

/-!
The index from an address to its MAC as a table of leases. An upsert leases its
address to the MAC that it files the entry under (`upsert_leases`), a refresh
leases the addresses of its records in the order of the merged list
(`refresh_leases`), and nothing else touches the index.
-/
namespace EllaFi.Holders
open EllaFi.Cache EllaFi.Omada EllaFi.Files EllaFi.Session EllaFi.Refresh
open EllaFi.Leases (grant)

/-- An address that is given is leased to the MAC. -/
def lease (ip mac : String) : List (String × String) := if ip = "" then [] else [(ip, mac)]

/-- What a merged record leases. -/
def recordLease (client : MergedClient) : List (String × String) :=
  if client.mac = "" then [] else lease (asString client.ip) client.mac

section
variable (cache : SessionCache)

theorem upsert_leases (ip mac : String) :
    (cache.upsert ip mac).ipToMac = (lease ip (cache.key ip mac)).foldl grant cache.ipToMac := by
  unfold lease
  by_cases given : ip = ""
  · simp [given]
  · funext other
    rw [if_neg given, SessionCache.upsert_ipToMac given]
    rfl

variable (flash : Flash) (opens : Bool)

theorem refreshClient_leases (client : MergedClient) :
    (refreshClient flash opens cache client).ipToMac = (recordLease client).foldl grant cache.ipToMac := by
  unfold refreshClient recordLease
  by_cases named : client.mac = ""
  · simp [named]
  · by_cases blank : asString client.ip = ""
    · by_cases isNew : cache.findByMac client.mac = none
      · simp [named, blank, isNew, lease]
      · simp [named, blank, isNew, lease]
    · have upserted := upsert_leases cache (asString client.ip) client.mac
      rw [SessionCache.key_of_mac named] at upserted
      simp only [named, blank, false_or, false_and, if_false]
      split
      · rw [SessionCache.write_ipToMac, SessionCache.write_ipToMac, upserted]
      · rw [SessionCache.write_ipToMac, upserted]

theorem foldl_refreshClient_leases (clients : List MergedClient) :
    (clients.foldl (refreshClient flash opens) cache).ipToMac =
      (clients.flatMap recordLease).foldl grant cache.ipToMac := by
  induction clients generalizing cache with
  | nil => rfl
  | cons client rest ih =>
    rw [List.foldl_cons, ih, refreshClient_leases, List.flatMap_cons, List.foldl_append]

theorem refresh_leases (config : Config) (clock : Nat) (hotspotClients : List HotspotClient)
    (allClients : List WifiClient) :
    (refreshHotspotSessionCache flash opens config clock hotspotClients allClients cache).cache.ipToMac =
      ((mergeClientLists hotspotClients allClients (nowEpochMillis clock)).flatMap recordLease).foldl grant
        cache.ipToMac :=
  foldl_refreshClient_leases cache flash opens _

end

/-- A MAC holds one address at most. -/
theorem one_address {cache : SessionCache} {ip other mac : String} (held : cache.ipToMac ip = some mac)
    (too : cache.ipToMac other = some mac) : ip = other := by
  obtain ⟨s, found, current⟩ := cache.indexed held
  obtain ⟨s', found', current'⟩ := cache.indexed too
  rw [found] at found'
  cases found'
  exact current.symm.trans current'

end EllaFi.Holders
