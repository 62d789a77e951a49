import EllaFi.Refresh

/-!
What the cache says of a client after a refresh that read both lists. An entry
whose MAC has an active portal session in the list shows the first of them, which
ends last since the list is asked for in that order; every other entry is what it
was (`refresh_mirrors`). So a client is shown as active exactly when it is listed or
was shown so before and is not listed (`cache_follows_list`): a session that the
controller has dropped stays until its old end (`dropped_session_stays`).
-/
namespace EllaFi.Mirror
open EllaFi.Session EllaFi.Cache EllaFi.Files EllaFi.Omada EllaFi.Refresh

section
variable (clock : Nat) (hotspotClients : List HotspotClient)

/-- The session is in the list, belongs to the MAC and has not ended. -/
def Listed (mac : String) (session : HotspotClient) : Prop :=
  session ∈ hotspotClients ∧ session.mac = mac ∧ ActivePortal (nowEpochMillis clock) session

/-- The order that the list is asked for in. -/
def LatestFirst : Prop := hotspotClients.Pairwise fun earlier later => later.endMillis ≤ earlier.endMillis

/-- The entry shows the session, and no session of the MAC ends later. -/
structure Shows (mac : String) (session : HotspotClient) (s : SessionParams) : Prop where
  listed : Listed clock hotspotClients mac session
  sessionEnd : s.sessionEndMillis = session.endMillis
  clientId : s.clientId = session.id
  latest : LatestFirst hotspotClients →
    ∀ other, Listed clock hotspotClients mac other → other.endMillis ≤ session.endMillis

end

section
variable {flash : Flash} {opens : Bool} {config : Config} {clock : Nat} {cache : SessionCache}
  {hotspotClients : List HotspotClient} {allClients : List WifiClient} {mac : String} {s : SessionParams}

/-- A merged record is its MAC's first active session. -/
theorem mergeFrom_latest {all : String → Option WifiClient} {nowMs : Nat} {seen : List String} {client : MergedClient}
    (sorted : LatestFirst hotspotClients) (inside : client ∈ mergeFrom all nowMs seen hotspotClients) :
    ∀ session ∈ hotspotClients, session.mac = client.mac → ActivePortal nowMs session →
      session.endMillis ≤ client.endMillis := by
  induction hotspotClients generalizing seen with
  | nil => nofun
  | cons first rest ih =>
    obtain ⟨ahead, sortedRest⟩ := List.pairwise_cons.mp sorted
    intro session there own active
    simp only [mergeFrom] at inside
    split at inside
    · rcases List.mem_cons.mp inside with rfl | later
      · rcases List.mem_cons.mp there with rfl | behind
        · exact Nat.le_refl _
        · exact ahead session behind
      · rcases List.mem_cons.mp there with rfl | behind
        · exact absurd List.mem_cons_self (own ▸ (mem_mergeFrom later).1)
        · exact ih sortedRest later session behind own active
    · next skipped =>
      rcases List.mem_cons.mp there with rfl | behind
      · have before : session.mac ∈ seen := by
          by_contra unseen
          exact skipped ⟨active, unseen⟩
        exact absurd before (own ▸ (mem_mergeFrom inside).1)
      · exact ih sortedRest inside session behind own active

theorem refreshedEntry_sessionEnd {client : MergedClient} {before : Option SessionParams}
    (made : refreshedEntry flash opens client before = some s) : s.sessionEndMillis = client.endMillis := by
  cases before with
  | none =>
    rw [refreshedEntry] at made
    split at made
    · cases made
    · cases made; rfl
  | some prior => exact (refreshedEntry_known made).1

/-- What an entry shows after a refresh: a listed session, or what it showed before. -/
theorem refresh_mirrors (named : mac ≠ "")
    (found : (refreshHotspotSessionCache flash opens config clock hotspotClients allClients cache).cache.byMac mac =
      some s) :
    (∃ session, Shows clock hotspotClients mac session s) ∨
      ((∀ session, ¬ Listed clock hotspotClients mac session) ∧ cache.byMac mac = some s) := by
  by_cases listed : ∃ session, Listed clock hotspotClients mac session
  · obtain ⟨session, there, own, active⟩ := listed
    obtain ⟨client, inside, same⟩ :=
      @mergeFrom_covers (allMap allClients) (nowEpochMillis clock) hotspotClients session [] there active List.not_mem_nil
    have clientNamed : client.mac ≠ "" := by rw [same, own]; exact named
    have made := @foldl_refreshClient_byMac flash opens cache _ _ (mergeFrom_nodup []) inside clientNamed
    rw [same, own] at made
    have shown : refreshedEntry flash opens client (cache.byMac mac) = some s := made.symm.trans found
    obtain ⟨-, first, firstThere, firstActive, rfl⟩ := mem_mergeFrom inside
    refine .inl ⟨first, ⟨firstThere, same.trans own, firstActive⟩, refreshedEntry_sessionEnd shown,
      refreshedEntry_clientId shown, ?_⟩
    rintro sorted other ⟨otherThere, otherOwn, otherActive⟩
    exact mergeFrom_latest sorted inside other otherThere (otherOwn.trans (same.trans own).symm) otherActive
  · refine .inr ⟨not_exists.mp listed, ?_⟩
    rcases @refreshed_byMac flash opens cache config clock hotspotClients allClients mac with
      kept | ⟨session, there, own, active, -⟩
    · exact kept ▸ found
    · exact absurd ⟨session, there, own, active⟩ listed

/-- After a refresh an entry is active exactly when its MAC is listed, or is not
    listed and was active before. A listed one shows its latest-ending session, and
    one that is not listed is unchanged. -/
theorem cache_follows_list (named : mac ≠ "")
    (found : (refreshHotspotSessionCache flash opens config clock hotspotClients allClients cache).cache.byMac mac =
      some s) :
    (nowEpochMillis clock < s.sessionEndMillis ↔
      (∃ session, Listed clock hotspotClients mac session) ∨
        ∃ prior, cache.byMac mac = some prior ∧ nowEpochMillis clock < prior.sessionEndMillis ∧
          ∀ session, ¬ Listed clock hotspotClients mac session) ∧
    ((∃ session, Listed clock hotspotClients mac session) → ∃ session, Shows clock hotspotClients mac session s) ∧
    ((∀ session, ¬ Listed clock hotspotClients mac session) → cache.byMac mac = some s) := by
  rcases refresh_mirrors named found with ⟨session, shows⟩ | ⟨unlisted, kept⟩
  · have listed := shows.listed
    refine ⟨⟨fun _ => .inl ⟨session, listed⟩, fun _ => ?_⟩, fun _ => ⟨session, shows⟩, fun none => ?_⟩
    · rw [shows.sessionEnd]
      exact listed.2.2.1
    · exact absurd listed (none session)
  · refine ⟨⟨fun active => .inr ⟨s, kept, active, unlisted⟩, ?_⟩, fun listed => ?_, fun _ => kept⟩
    · rintro (⟨session, listed⟩ | ⟨prior, there, active, -⟩)
      · exact absurd listed (unlisted session)
      · rw [kept] at there
        cases there
        exact active
    · obtain ⟨session, there⟩ := listed
      exact absurd there (unlisted session)

end

/-! ## A session that the controller has dropped -/

def running : SessionParams :=
  { clientMac := "02:00:00:00:00:01", clientIp := "10.0.0.5", sessionEndMillis := 2000000, clientId := "c" }

/-- A cache with one running client. -/
def oneRunning : SessionCache :=
  (SessionCache.empty.upsert running.clientIp running.clientMac).write running.clientMac
    { apply := fun s => { s with sessionEndMillis := 2000000, clientId := "c" }, keepsMac := fun _ => rfl,
      keepsIp := fun _ => rfl }

/-- The controller lists two sessions of another client, and of this one none. -/
def another : List HotspotClient :=
  [{ mac := "02:00:00:00:00:02", id := "d", startMillis := 900000, endMillis := 3000000
     authType := omadaAuthTypeExternalPortal, ip := some "10.0.0.6" },
    { mac := "02:00:00:00:00:02", id := "e", startMillis := 800000, endMillis := 2500000
      authType := omadaAuthTypeExternalPortal, ip := some "10.0.0.6" }]

def shown : SessionParams :=
  { clientMac := "02:00:00:00:00:02", clientIp := "10.0.0.6", sessionStartMillis := 900000, sessionEndMillis := 3000000
    clientId := "d" }

/-- After the refresh the client has this entry, which is active where the list says so. -/
def FollowsList (s : SessionParams) : Prop :=
  (refreshHotspotSessionCache Flash.empty true defaultConfig 1000500 another [] oneRunning).cache.byMac s.clientMac =
      some s ∧
    (nowEpochMillis 1000500 < s.sessionEndMillis ↔
      (∃ session, Listed 1000500 another s.clientMac session) ∨
        ∃ prior, oneRunning.byMac s.clientMac = some prior ∧
          nowEpochMillis 1000500 < prior.sessionEndMillis ∧ ∀ session, ¬ Listed 1000500 another s.clientMac session)

theorem cache_follows_list_dropped : FollowsList running ∧ FollowsList shown := by
  have stays : (refreshHotspotSessionCache Flash.empty true defaultConfig 1000500 another [] oneRunning).cache.byMac
      running.clientMac = some running := by decide +kernel
  have listed : (refreshHotspotSessionCache Flash.empty true defaultConfig 1000500 another [] oneRunning).cache.byMac
      shown.clientMac = some shown := by decide +kernel
  exact ⟨⟨stays, (cache_follows_list (by decide) stays).1⟩, ⟨listed, (cache_follows_list (by decide) listed).1⟩⟩

/-- The controller lists no session any more; the entry still shows the old one. -/
theorem dropped_session_stays :
    (∀ session, ¬ Listed 1000500 [] running.clientMac session) ∧
      ∃ s, (refreshHotspotSessionCache Flash.empty true defaultConfig 1000500 [] [] oneRunning).cache.byMac
          running.clientMac = some s ∧ nowEpochMillis 1000500 < s.sessionEndMillis := by
  refine ⟨fun session listed => List.not_mem_nil listed.1, running, ?_, ?_⟩
  · decide +kernel
  · decide

end EllaFi.Mirror
