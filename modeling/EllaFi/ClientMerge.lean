import EllaFi.LiveOwner
import EllaFi.Mirror

/-!
What the merged list says. Its records are those of the MACs that have an active portal
session, one for each, with the identifier and the times of the session that ends last;
the connected client's record gives the address, where it has one, and alone the access
point, the SSID and the radio (`merge_joins`).
-/
namespace EllaFi.ClientMerge
open EllaFi.Omada EllaFi.Refresh EllaFi.Mirror
open EllaFi.LiveOwner (allMap_mem)

section
variable (hotspotClients : List HotspotClient) (allClients : List WifiClient) (nowMs : Nat)

/-- The record is that of a session, and of its MAC's live record. -/
structure Joins (client : MergedClient) (session : HotspotClient) : Prop where
  listed : session ∈ hotspotClients
  own : session.mac = client.mac
  active : ActivePortal nowMs session
  latest : ∀ other ∈ hotspotClients, other.mac = client.mac → ActivePortal nowMs other →
    other.endMillis ≤ session.endMillis
  id : client.id = session.id
  startMillis : client.startMillis = session.startMillis
  endMillis : client.endMillis = session.endMillis
  live : ∀ live ∈ allClients, live.mac = client.mac →
    client.ip = live.ip.or session.ip ∧ client.apMac = live.apMac ∧ client.ssid = live.ssid ∧
      client.radioId = live.radioId
  away : (∀ live ∈ allClients, live.mac ≠ client.mac) →
    client.ip = session.ip ∧ client.apMac = none ∧ client.ssid = none ∧ client.radioId = none

/-- One record for each MAC that has an active portal session, and no others. -/
structure Merges (merged : List MergedClient) : Prop where
  once : (merged.map (·.mac)).Nodup
  every : ∀ session ∈ hotspotClients, ActivePortal nowMs session → ∃ client ∈ merged, client.mac = session.mac
  joins : ∀ client ∈ merged, ∃ session, Joins hotspotClients allClients nowMs client session

end

section
variable {hotspotClients : List HotspotClient} {allClients : List WifiClient} {nowMs : Nat} {client : MergedClient}

theorem allMap_known {live : WifiClient} (inside : live ∈ allClients) :
    ∃ found, allMap allClients live.mac = some found := by
  unfold allMap
  induction allClients using List.reverseRecOn with
  | nil => cases inside
  | append_singleton before last ih =>
    rw [List.foldl_append, List.foldl_cons, List.foldl_nil]
    by_cases here : live.mac = last.mac
    · exact ⟨last, by rw [here, Function.update_self]⟩
    · rw [Function.update_of_ne here]
      rcases List.mem_append.mp inside with there | there
      · exact ih there
      · exact absurd (congrArg WifiClient.mac (List.mem_singleton.mp there)) here

/-- A connected client's record is found under its MAC. -/
theorem allMap_of_mem {live : WifiClient} (inside : live ∈ allClients) (distinct : (allClients.map (·.mac)).Nodup) :
    allMap allClients live.mac = some live := by
  obtain ⟨found, is⟩ := allMap_known inside
  obtain ⟨there, same⟩ := allMap_mem is
  rw [is, List.inj_on_of_nodup_map distinct there inside same]

/-- The record that the first active session of a MAC makes. -/
theorem joins_of_mem (sorted : LatestFirst hotspotClients) (distinct : (allClients.map (·.mac)).Nodup)
    (inside : client ∈ mergeClientLists hotspotClients allClients nowMs) :
    ∃ session, Joins hotspotClients allClients nowMs client session := by
  have latest := mergeFrom_latest sorted inside
  obtain ⟨session, listed, active, rfl⟩ := mem_mergeClientLists inside
  refine ⟨session, listed, rfl, active, latest, rfl, rfl, rfl, ?_, ?_⟩
  · intro live there own
    have same : live.mac = session.mac := own
    have found := allMap_of_mem there distinct
    rw [same] at found
    simp [mergedClient, found]
  · intro absent
    have unknown : allMap allClients session.mac = none := by
      by_contra known
      obtain ⟨live, found⟩ := Option.ne_none_iff_exists'.mp known
      exact absent live (allMap_mem found).1 (allMap_mem found).2
    simp [mergedClient, unknown]

theorem merge_joins (sorted : LatestFirst hotspotClients) (distinct : (allClients.map (·.mac)).Nodup) :
    Merges hotspotClients allClients nowMs (mergeClientLists hotspotClients allClients nowMs) where
  once := mergeClientLists_nodup
  every _ listed active := mergeFrom_covers listed active List.not_mem_nil
  joins _ inside := joins_of_mem sorted distinct inside

end

/-! ## A list of five sessions -/

def sessionOf (mac : String) (endMillis : Nat) (authType : Int) : HotspotClient where
  mac := mac
  id := toString endMillis
  startMillis := 0
  endMillis := endMillis
  authType := authType
  ip := none

/-- A voucher that ends later, an older session and an expired one among them. -/
def fiveSessions : List HotspotClient :=
  [sessionOf "A" 9000 omadaAuthTypeVoucher, sessionOf "A" 3000 omadaAuthTypeExternalPortal,
    sessionOf "A" 2000 omadaAuthTypeExternalPortal, sessionOf "B" 1500 omadaAuthTypeExternalPortal,
    sessionOf "B" 500 omadaAuthTypeExternalPortal]

def connectedA : WifiClient where
  mac := "A"
  ip := none
  apMac := some "AP"
  ssid := none
  radioId := some 1
  authTypes := []

theorem merge_joins_five : Merges fiveSessions [connectedA] 1000 (mergeClientLists fiveSessions [connectedA] 1000) :=
  merge_joins (by unfold LatestFirst; decide) (by decide)

end EllaFi.ClientMerge
