import EllaFi.CrashPoints

/-!
The remaining minutes in the activity log. `finalizeSession` reads the time before it calls
the controller, an authentication takes the new end from the time of the reply, and the line
is written later still. An authentication's line shows the minutes to the new end; an
extension's counts the coins twice, once in the end that the call has already moved and once
more (`remain_iff`).
-/
namespace EllaFi.LoggedRemain
open EllaFi.Session EllaFi.Cache EllaFi.Files EllaFi.Omada EllaFi.Finalize
open EllaFi.CrashPoints (bought runningSession)

/-- When `finalizeSession` reads the time, when the controller's reply is there, and when
    the line is written. -/
structure Moments where
  started : Nat
  replied : Nat
  written : Nat
  called : started ≤ replied
  returned : replied ≤ written

/-- All of it in one instant. -/
def Moments.at_ (clock : Nat) : Moments where
  started := clock
  replied := clock
  written := clock
  called := le_rfl
  returned := le_rfl

section
variable {issuer : Issuer} (config : Config)

/-- The call is chosen by the time that was read before it. -/
def grantAt (m : Moments) (link : Link) (controller : Controller issuer) (session : SessionParams) (coinCount : Nat) :
    Except String FieldWrite × Controller issuer :=
  if Extends m.started session then
    extendOmadaClient link m.replied controller session (coinMillis config coinCount)
  else authenticateOmadaClient link m.replied controller config session (coinMillis config coinCount)

/-- The activity log after a successful grant. -/
def logGrant (m : Moments) (opens : Bool) (flash : Flash) (session : SessionParams) (fields : FieldWrite) (coinCount : Nat) :
    Flash :=
  appendActivityLog flash m.written opens (grantAction m.started session) session.clientMac coinCount
    (grantRemain config m.started session (fields.apply session) coinCount)

/-- The minutes from the line to the end of the session. -/
def minutesLeft (m : Moments) (session : SessionParams) : Int :=
  ((session.sessionEndMillis : Int) - nowEpochMillis m.written) / millisPerMinute

/-- The line shows how long the session that the client has now goes on. -/
def ShowsRemaining (m : Moments) (flash : Flash) (session : SessionParams) (fields : FieldWrite) (coinCount : Nat) : Prop :=
  ∃ line, (logGrant config m true flash session fields coinCount).activity = flash.activity ++ [line] ∧
    line.remain = some (minutesLeft m (fields.apply session))

theorem appendSales_activity (flash : Flash) (clock : Nat) (opens : String → Bool) (nodeCounts : List (String × Nat)) :
    (appendSales config flash clock opens nodeCounts).activity = flash.activity := by
  induction nodeCounts generalizing flash with
  | nil => rfl
  | cons node rest ih =>
    refine (ih _).trans ?_
    dsimp only [appendSaleLog]
    split <;> rfl

/-- In one instant this is what `finalizeSession` does. -/
theorem finalizeSession_logs (address : IPAddress) (around : Surroundings) (window : Window) (world : World issuer)
    {session : SessionParams} (fair : ¬ window.fraudEnded) (coins : window.tally.coinCount ≠ 0)
    (found : beneficiary address world.cache window.slot = some session) {fields : FieldWrite} {after : Controller issuer}
    (granted : grantAt config (.at_ world.clock) around.link world.controller session window.tally.coinCount =
      (.ok fields, after)) :
    (finalizeSession config address around window world).1.flash.activity =
      (logGrant config (.at_ world.clock) around.activityOpens world.flash session fields window.tally.coinCount).activity := by
  have call : grantCall config around.link world session window.tally.coinCount = (.ok fields, after) := granted
  simp only [finalizeSession, if_neg fair, if_neg coins, found, call, sell, appendSales_activity]
  rfl

end

section
variable {issuer : Issuer} {config : Config} {m : Moments} {link : Link} {controller after : Controller issuer}
  {session : SessionParams} {fields : FieldWrite} {coinCount : Nat} {flash : Flash}

theorem showsRemaining_iff : ShowsRemaining config m flash session fields coinCount ↔
    grantRemain config m.started session (fields.apply session) coinCount = minutesLeft m (fields.apply session) := by
  have shown : 0 ≤ grantRemain config m.started session (fields.apply session) coinCount := by
    unfold grantRemain
    split <;> exact Int.natCast_nonneg _
  simp [ShowsRemaining, logGrant, appendActivityLog, shown]

/-- The coins are counted twice. -/
theorem extend_remain (coins : 0 < coinCount) (running : Extends m.started session)
    (granted : grantAt config m link controller session coinCount = (.ok fields, after)) :
    minutesLeft m (fields.apply session) < grantRemain config m.started session (fields.apply session) coinCount := by
  rw [grantAt, if_pos running] at granted
  obtain ⟨-, -, rfl, -⟩ := calling_ok.mp granted
  have order := nowEpochMillis_mono (m.called.trans m.returned)
  have paid := coinMillis_pos config coins
  have more : 0 < coinCount * config.minutesPerCoin := Nat.mul_pos coins config.paid
  have minute : millisPerMinute = 60000 := rfl
  have future := running.1
  rw [minutesLeft, grantRemain, if_pos running]
  simp only [extended, minute, Nat.cast_add, Nat.cast_ofNat]
  omega

/-- An authentication's minutes start with the reply. -/
theorem auth_remain (idle : ¬ Extends m.started session)
    (granted : grantAt config m link controller session coinCount = (.ok fields, after)) :
    grantRemain config m.started session (fields.apply session) coinCount = minutesLeft m (fields.apply session) ↔
      nowEpochMillis m.written = nowEpochMillis m.replied := by
  rw [grantAt, if_neg idle] at granted
  obtain ⟨-, -, rfl, -⟩ := calling_ok.mp granted
  have order := nowEpochMillis_mono m.returned
  have minute : millisPerMinute = 60000 := rfl
  rw [minutesLeft, grantRemain, if_neg idle]
  simp only [authenticated, coinMillis, minute, Nat.cast_ofNat]
  omega

/-- The line of a successful grant shows the minutes to the new end exactly when the entry
    is not extended and the second of the reply is not over. -/
theorem remain_iff (coins : 0 < coinCount)
    (granted : grantAt config m link controller session coinCount = (.ok fields, after)) :
    ShowsRemaining config m flash session fields coinCount ↔
      ¬ Extends m.started session ∧ nowEpochMillis m.written = nowEpochMillis m.replied := by
  rw [showsRemaining_iff]
  by_cases running : Extends m.started session
  · have more := extend_remain coins running granted
    constructor
    · intro same
      omega
    · exact fun holds => absurd running holds.1
  · rw [auth_remain running granted, and_iff_right running]

end

/-- The first coin of a client. -/
theorem remain_iff_visitor :
    ShowsRemaining defaultConfig (.at_ powered.clock) .empty visitor
        (authenticated (nowEpochMillis powered.clock) (coinMillis defaultConfig 1)) 1 ↔
      ¬ Extends powered.clock visitor ∧ nowEpochMillis powered.clock = nowEpochMillis powered.clock := by
  have granted : grantAt defaultConfig (.at_ powered.clock) .up powered.controller visitor 1 =
      (.ok (authenticated (nowEpochMillis powered.clock) (coinMillis defaultConfig 1)), _) :=
    (if_neg (by decide)).trans (calling_ok.mpr ⟨rfl, rfl, rfl, rfl⟩)
  exact remain_iff Nat.one_pos granted

/-- A client whose first coin's time is running buys with a second one: the line shows 72
    minutes, and the session goes on for 48. -/
theorem extension_counts_twice :
    Extends bought.clock runningSession ∧
      (∃ after, grantAt defaultConfig (.at_ bought.clock) .up bought.controller runningSession 1 =
        (.ok (extended (coinMillis defaultConfig 1)), after)) ∧
      ¬ ShowsRemaining defaultConfig (.at_ bought.clock) bought.flash runningSession (extended (coinMillis defaultConfig 1)) 1 := by
  have running : Extends bought.clock runningSession := by decide +kernel
  have granted : grantAt defaultConfig (.at_ bought.clock) .up bought.controller runningSession 1 =
      (.ok (extended (coinMillis defaultConfig 1)), _) :=
    (if_pos running).trans (calling_ok.mpr ⟨rfl, by decide +kernel, rfl, rfl⟩)
  refine ⟨running, ⟨_, granted⟩, ?_⟩
  rw [showsRemaining_iff]
  decide +kernel

end EllaFi.LoggedRemain
