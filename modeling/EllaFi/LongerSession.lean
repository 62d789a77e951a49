import EllaFi.PaidTime

/-!
What a client's coins do to the session that the controller enforces. A granted
window should leave it ending the coins' time after its old end, or after now if
it was over. It does exactly when the choice between extending and
authenticating, which is made on the cached entry, agrees with the controller
(`coins_lengthen_iff`); along runs that lose nothing of the client's time it
always agrees (`lossless_agrees`).
-/
namespace EllaFi.LongerSession
open EllaFi.Session EllaFi.Cache EllaFi.Coins EllaFi.Omada EllaFi.Finalize EllaFi.Steps EllaFi.PaidTime
open EllaFi.Prepaid (Sound)
open EllaFi.Runs (run)

section
variable {issuer : Issuer} {config : Config} {address : IPAddress} {around : Surroundings} {window : Window}
  {boot world : World issuer} {mac : String}

/-- The end that a client's session should have after `coinCount` coins. -/
def lengthened (config : Config) (world : World issuer) (mac : String) (coinCount : Nat) : Nat :=
  max world.clock (world.controller.sessionEnd mac) + coinMillis config coinCount

/-- A session that is extended is not over for more than a second at the controller,
    and one that is authenticated anew has at most a second left there. -/
def Agreed (world : World issuer) (mac : String) : Prop :=
  if Extends world.clock (world.cache.entry mac) then world.clock ≤ world.controller.sessionEnd mac + 1000
  else world.controller.sessionEnd mac ≤ world.clock + 1000

instance (world : World issuer) (mac : String) : Decidable (Agreed world mac) :=
  inferInstanceAs (Decidable
    (if Extends world.clock (world.cache.entry mac) then world.clock ≤ world.controller.sessionEnd mac + 1000
    else world.controller.sessionEnd mac ≤ world.clock + 1000))

/-- In every reachable state, a granted window lengthens its client's session by the
    time of its coins, to one second, exactly when the cached entry and the controller
    agree on whether the client has a session. -/
theorem coins_lengthen_iff {actions : List Action} (booted : Booted boot)
    (reached : run (step config address) boot actions = some world)
    (granted : (finalizeSession config address around window world).2.granted = some mac) :
    |((finalizeSession config address around window world).1.controller.sessionEnd mac : Int) -
        lengthened config world mac window.tally.coinCount| ≤ 1000 ↔ Agreed world mac := by
  have named := reachable_named booted reached
  rcases @finalizeSession_cases _ config address around window world with
    ⟨session, fields, controller, flash, grants, called, client, after⟩ | ⟨_, _, _, _, -, -, nobody, -⟩ | ⟨nobody, -⟩
  · obtain ⟨-, there⟩ := SessionCache.findByIp_some.mp grants.found
    obtain rfl : session.clientMac = mac := Option.some.inj (client.symm.trans granted)
    rw [after, abs_le, Agreed, SessionCache.entry_of_byMac there, lengthened]
    rcases grantCall_granted grants.inserted (named _ _ there) called with ⟨cached, -, ends⟩ | ⟨fresh, -, ends⟩
    · rw [if_pos cached, ends]
      omega
    · rw [if_neg fresh, ends]
      omega
  · rw [nobody] at granted
    cases granted
  · rw [nobody] at granted
    cases granted

/-- A window that loses nothing of its client's time finds the cached entry and the
    controller in agreement. -/
theorem lossless_agrees (sound : Sound seconds (meterOf mac world))
    (lossless : Lossless address mac world (.finalize around window))
    (granted : (finalizeSession config address around window world).2.granted = some mac) : Agreed world mac := by
  have below := nowEpochMillis_le world.clock
  have close := clock_lt_nowEpochMillis world.clock
  rcases @finalizeSession_cases _ config address around window world with
    ⟨session, fields, controller, flash, grants, called, client, -⟩ | ⟨_, _, _, _, -, -, nobody, -⟩ | ⟨nobody, -⟩
  · obtain ⟨-, there⟩ := SessionCache.findByIp_some.mp grants.found
    obtain rfl : session.clientMac = mac := Option.some.inj (client.symm.trans granted)
    rw [meterOf_eq there] at sound
    simp only [Sound, seconds, reduceCtorEq, true_and, false_implies, and_true] at sound
    rw [Agreed, SessionCache.entry_of_byMac there]
    split
    · next cached =>
      have running := cached.1
      omega
    · next fresh =>
      unfold grantCall at called
      rw [if_neg fresh] at called
      have named := (lossless session grants rfl).2 (authenticate_ok.mp called).1
      have finished : session.sessionEndMillis ≤ nowEpochMillis world.clock := by
        by_contra still
        exact fresh ⟨by omega, named (by omega)⟩
      omega
  · rw [nobody] at granted
    cases granted
  · rw [nobody] at granted
    cases granted

end

/-- A first coin: the session ends its time from now. -/
theorem coins_lengthen_first :
    |((finalizeSession defaultConfig dottedQuad answered oneCoin
          ((run (step defaultConfig dottedQuad) powered [visit]).getD powered)).1.controller.sessionEnd
            visitor.clientMac : Int) -
        lengthened defaultConfig ((run (step defaultConfig dottedQuad) powered [visit]).getD powered)
          visitor.clientMac 1| ≤ 1000 :=
  (@coins_lengthen_iff _ defaultConfig dottedQuad answered oneCoin powered _ visitor.clientMac [visit] rfl rfl
    (by decide)).mpr (by decide)

/-- The client's phone is gone when its coin is granted, so no refresh is queued. -/
def phoneGone : Surroundings := { answered with getClient := fun _ => false }

/-- A second coin then authenticates again and leaves the session as it was. -/
theorem second_coin_lost :
    ∃ world, run (step defaultConfig dottedQuad) powered [visit, .finalize phoneGone oneCoin] = some world ∧
      Booted powered ∧
      (finalizeSession defaultConfig dottedQuad answered oneCoin world).2.granted = some visitor.clientMac ∧
      ¬ |((finalizeSession defaultConfig dottedQuad answered oneCoin world).1.controller.sessionEnd
            visitor.clientMac : Int) -
          lengthened defaultConfig world visitor.clientMac oneCoin.tally.coinCount| ≤ 1000 := by
  refine ⟨_, rfl, rfl, by decide, ?_⟩
  decide +kernel

end EllaFi.LongerSession
