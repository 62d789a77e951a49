import EllaFi.CoinSlot
import EllaFi.Holders
import EllaFi.Ledgers
import EllaFi.Steps

/-!
Whose coins a window takes. The slot keeps the claimant's address and not the
MAC, and the index decides at the end of the window whose address it is. So the
time goes to the claimant exactly when the last upsert since the claim that is
about the slot's address or the claimant leases the one to the other
(`claimant_credited_iff`).
-/
namespace EllaFi.Claimant
open EllaFi.Session EllaFi.Cache EllaFi.Coins EllaFi.Omada EllaFi.Refresh EllaFi.Finalize EllaFi.PauseResume
open EllaFi.Holders EllaFi.Ledgers EllaFi.CoinSlot
open EllaFi.Leases (grant lastWord foldl_grant_iff)
open EllaFi.Runs (run run_keeps watch watch_some)

/-! ## What runs beside a window -/

/-- A job of another task, or one record of a refresh that others run between. -/
inductive Action where
  | job (action : Steps.Action)
  | refreshClient (loadOpens : Bool) (client : MergedClient)

section
variable {issuer : Issuer} (config : Config) (address : IPAddress)

def step (world : World issuer) : Action → Option (World issuer)
  | .job action => Steps.step config address world action
  | .refreshClient loadOpens client =>
    some { world with cache := refreshClient world.flash loadOpens world.cache client }

/-- The leases of the records that a refresh writes. -/
def refreshLeases (world : World issuer) (hotspotClients : List HotspotClient) (allClients : List WifiClient) :
    List (String × String) :=
  (mergeClientLists hotspotClients allClients (nowEpochMillis world.clock)).flatMap recordLease

/-- The addresses that a step leases, in order. -/
def leases (world : World issuer) : Action → List (String × String)
  | .job (.seed _ request) => lease request.clientIp (world.cache.key request.clientIp request.clientMac)
  | .job (.refresh _ hotspotClients allClients) => refreshLeases world hotspotClients allClients
  | .job (.resume around hotspotClients allClients mac) =>
    if (resumeSession config around mac world).2.2 then refreshLeases world hotspotClients allClients else []
  | .job (.finalize ..) | .job (.pause ..) | .job (.elapse _) => []
  | .refreshClient _ client => recordLease client

/-- The machine beside the leases of its steps. -/
def leasing : World issuer × List (String × String) → Action → Option (World issuer × List (String × String)) :=
  watch (step config address) fun world action log => log ++ leases config world action

/-- The address that a window looks its client up under: the slot's, printed. -/
def slotIp (clientIp : String) : String := coinU32ToIp address (coinIpToU32 address (claimant clientIp))

/-- The last lease since the claim that is about the slot's address or the claimant
    gives the one to the other; without any, the slot's address reads as the
    claimant's. -/
def Undisturbed (clientIp mac : String) (log : List (String × String)) : Prop :=
  match lastWord (slotIp address clientIp) mac log with
  | some last => last = (slotIp address clientIp, mac)
  | none => slotIp address clientIp = clientIp

instance (clientIp mac : String) (log : List (String × String)) : Decidable (Undisturbed address clientIp mac log) :=
  match last : lastWord (slotIp address clientIp) mac log with
  | some lease => decidable_of_iff (lease = (slotIp address clientIp, mac)) (by simp [Undisturbed, last])
  | none => decidable_of_iff (slotIp address clientIp = clientIp) (by simp [Undisturbed, last])

end

/-! ## The index along a run -/

section
variable {issuer : Issuer} {config : Config} {address : IPAddress} {world next start : World issuer}

theorem seed_leases (flash : Files.Flash) (opens : Bool) (request : Steps.Redirect) (cache : SessionCache) :
    (Steps.seedPortalSession flash opens request cache).ipToMac =
      (lease request.clientIp (cache.key request.clientIp request.clientMac)).foldl grant cache.ipToMac := by
  rw [Steps.seedPortalSession, SessionCache.write_ipToMac, SessionCache.write_ipToMac, upsert_leases]

theorem refreshWorld_leases (loadOpens : Bool) (hotspotClients : List HotspotClient) (allClients : List WifiClient) :
    (refreshWorld config loadOpens hotspotClients allClients world).cache.ipToMac =
      (refreshLeases world hotspotClients allClients).foldl grant world.cache.ipToMac :=
  refresh_leases world.cache world.flash loadOpens config world.clock hotspotClients allClients

theorem finalize_ipToMac (around : Surroundings) (window : Window) :
    (finalizeSession config address around window world).1.cache.ipToMac = world.cache.ipToMac := by
  rcases @Steps.finalizeSession_cases _ config address around window world with
    ⟨_, _, _, _, -, -, -, after⟩ | ⟨_, _, _, _, -, -, -, after⟩ | ⟨-, after⟩ <;> rw [after]
  rfl

theorem pause_ipToMac (around : JobSurroundings) (mac : String) :
    (processPause around mac world).1.cache.ipToMac = world.cache.ipToMac := by
  rcases @processPause_cases _ around mac world with
    ⟨_, _, _, -, -, -, -, after⟩ | ⟨_, _, _, _, -, -, -, -, after⟩ | after <;> rw [after]
  rfl

theorem resumeSession_ipToMac (around : JobSurroundings) (mac : String) :
    (resumeSession config around mac world).1.cache.ipToMac = world.cache.ipToMac ∧
      (resumeSession config around mac world).1.clock = world.clock := by
  rcases @resumeSession_cases _ config around mac world with
    ⟨_, _, _, _, -, -, -, after, -⟩ | ⟨_, _, _, -, -, -, after, -⟩ | ⟨after, -⟩ <;> rw [after] <;> exact ⟨rfl, rfl⟩

theorem step_leases {action : Action} (took : step config address world action = some next) :
    next.cache.ipToMac = (leases config world action).foldl grant world.cache.ipToMac := by
  cases action with
  | refreshClient loadOpens client =>
    cases took
    exact refreshClient_leases _ _ _ _
  | job action =>
    cases action with
    | finalize around window =>
      cases took
      exact finalize_ipToMac around window
    | pause around mac =>
      cases took
      exact pause_ipToMac around mac
    | resume around hotspotClients allClients mac =>
      simp only [step, Steps.step, Option.ite_none_right_eq_some, Option.some.injEq] at took
      obtain ⟨-, rfl⟩ := took
      obtain ⟨sameIndex, sameClock⟩ := @resumeSession_ipToMac _ config world around mac
      rw [Steps.processResume_world, leases]
      split
      · rw [refreshWorld_leases, sameIndex, refreshLeases, sameClock, refreshLeases]
      · exact sameIndex
    | refresh loadOpens hotspotClients allClients =>
      simp only [step, Steps.step, Option.ite_none_right_eq_some, Option.some.injEq] at took
      obtain ⟨-, rfl⟩ := took
      exact refreshWorld_leases loadOpens hotspotClients allClients
    | seed loadOpens request =>
      cases took
      exact seed_leases _ _ _ _
    | elapse millis =>
      cases took
      rfl

theorem run_leases {actions : List Action} {log : List (String × String)}
    (ran : run (leasing config address) (start, []) actions = some (world, log)) :
    world.cache.ipToMac = log.foldl grant start.cache.ipToMac := by
  refine @run_keeps _ _ _ (fun here => here.1.cache.ipToMac = here.2.foldl grant start.cache.ipToMac) ?_ _ _ actions
    rfl ran
  rintro ⟨world, log⟩ action ⟨next, longer⟩ sofar took
  obtain ⟨moved, rfl⟩ := watch_some.mp took
  rw [List.foldl_append, ← sofar]
  exact step_leases moved

/-! ## The end of the window -/

/-- The controller grants what it is asked for, whoever the entry belongs to. -/
def Granting (around : Surroundings) (window : Window) (address : IPAddress) (world : World issuer) : Prop :=
  ∀ session, beneficiary address world.cache window.slot = some session → Accepts around.link world session

theorem granted_beneficiary {around : Surroundings} {window : Window} (fair : window.fraudEnded = false)
    (inserted : 0 < window.tally.coinCount) (granting : Granting around window address world) :
    (finalizeSession config address around window world).2.granted =
      (beneficiary address world.cache window.slot).map (·.clientMac) := by
  unfold finalizeSession
  rw [if_neg (by simp [fair]), if_neg (by omega)]
  cases found : beneficiary address world.cache window.slot with
  | none => rfl
  | some session =>
    obtain ⟨fields, controller, called⟩ :=
      (@grantCall_ok _ config world session around.link window.tally.coinCount).mpr (granting session found)
    simp only [called]
    rfl

/-- Where a window's time goes: after any interleaving since the claim, to the MAC
    that the claimant's address led to exactly when no lease came between. -/
theorem claimant_credited_iff {actions : List Action} {log : List (String × String)} {around : Surroundings}
    {window : Window} {clientIp mac : String} (claimed : start.cache.ipToMac clientIp = some mac)
    (ran : run (leasing config address) (start, []) actions = some (world, log))
    (slot : window.slot.clientIpV4 = coinIpToU32 address (claimant clientIp)) (fair : window.fraudEnded = false)
    (inserted : 0 < window.tally.coinCount) (granting : Granting around window address world) :
    (finalizeSession config address around window world).2.granted = some mac ↔ Undisturbed address clientIp mac log := by
  have looked : beneficiary address world.cache window.slot = world.cache.findByIp (slotIp address clientIp) := by
    rw [beneficiary, slot, slotIp]
  rw [granted_beneficiary fair inserted granting, looked, SessionCache.findByIp_mac, run_leases ran, foldl_grant_iff,
    Undisturbed]
  cases lastWord (slotIp address clientIp) mac log with
  | some last => rfl
  | none =>
    constructor
    · intro held
      exact one_address held claimed
    · rintro same
      exact same.symm ▸ claimed

end

/-- A portal request of another client, and a refresh. -/
def othersMeanwhile : List Action :=
  [.job (.seed true { clientIp := "10.0.0.6", clientMac := "02:00:00:00:00:02"
                      apMac := none, ssidName := none, radioId := none }),
    .job (.refresh true [] [])]

theorem claimant_credited_meanwhile : ∃ world log,
    run (leasing defaultConfig dottedQuad) (visited, []) othersMeanwhile = some (world, log) ∧
      (finalizeSession defaultConfig dottedQuad answered oneCoin world).2.granted = some visitor.clientMac := by
  refine ⟨_, _, rfl, ?_⟩
  refine (@claimant_credited_iff _ defaultConfig dottedQuad _ visited othersMeanwhile _ answered oneCoin visitor.clientIp
    visitor.clientMac (by decide) rfl rfl rfl (by decide) ?_).mpr (by decide)
  intro session found
  refine ⟨rfl, fun extends_ => ?_⟩
  have ended := congrArg (Option.map (·.sessionEndMillis)) found
  have unused : session.sessionEndMillis = 0 := (Option.some.inj (Eq.trans (by decide) ended)).symm
  have running := extends_.1
  omega

/-- A portal request that names another device at the claimant's address. -/
def addressTaken : List Action :=
  [.job (.seed true { clientIp := visitor.clientIp, clientMac := "02:00:00:00:00:02"
                      apMac := none, ssidName := none, radioId := none })]

/-- The time that the visitor's coin bought goes to the other device. -/
theorem coin_credited_elsewhere : ∃ world log,
    run (leasing defaultConfig dottedQuad) (visited, []) addressTaken = some (world, log) ∧
      visited.cache.ipToMac visitor.clientIp = some visitor.clientMac ∧
      oneCoin.slot = slotOf dottedQuad 7 (claimant visitor.clientIp) ∧
      (finalizeSession defaultConfig dottedQuad answered oneCoin world).2.granted = some "02:00:00:00:00:02" := by
  refine ⟨_, _, rfl, by decide, by decide, ?_⟩
  decide +kernel

end EllaFi.Claimant
