import EllaFi.CoinSlot

/-!
Whose rejects end a session. `coinPulseTask` counts the pulses that it rejects
and forgets them at a pulse that arrives while no window is open. So the count
is that of the open session, and a session is ended for its own rejects, as long
as each claim comes after such a pulse, or before any reject
(`fraud_judged_iff`). A claim that comes straight after a window with rejects
inherits them.
-/
namespace EllaFi.FraudCount
open EllaFi.Session EllaFi.Coins EllaFi.CoinTasks EllaFi.CoinSlot
open EllaFi.Runs (run watch watch_some Always Throughout always_iff)

/-! ## Rejects -/

/-- The pulses rejected since the slot was last claimed, and whether the last reject
    came after the last pulse outside a window. -/
structure Rejects where
  sinceOpened : Nat
  remembered : Bool
deriving DecidableEq, Repr

/-- `coinPulseTask` rejects the pulse that it holds. -/
def RejectedAt (s : Tasks) (millis : UInt32) : Prop :=
  ∃ pulse, s.pulseTask = .filtering pulse ∧ ¬ millis < s.coinSlotReadyMillis ∧
    (TooShort pulse ∨ TooSoon s.prevAcceptedTimestampMicros pulse)

instance (s : Tasks) (millis : UInt32) : Decidable (RejectedAt s millis) :=
  match doing : s.pulseTask with
  | .filtering pulse => decidable_of_iff
      (¬ millis < s.coinSlotReadyMillis ∧ (TooShort pulse ∨ TooSoon s.prevAcceptedTimestampMicros pulse))
      (by simp [RejectedAt, doing])
  | .receiving | .checking _ | .posting _ => .isFalse (by simp [RejectedAt, doing])

def recordRejects (s : Tasks) : CoinTasks.Action → Rejects → Rejects
  | .tryClaim bootTestRunning _ _, rejects =>
    if bootTestRunning ∨ s.coinInsertActive then rejects else { rejects with sinceOpened := 0 }
  | .filterPulse millis, rejects =>
    if RejectedAt s millis then { sinceOpened := rejects.sinceOpened + 1, remembered := true } else rejects
  | .checkActive bootTestRunning, rejects =>
    if bootTestRunning ∨ s.coinInsertActive then rejects else { rejects with remembered := false }
  | _, rejects => rejects

/-- The machine beside the record of its rejects. -/
def judging (address : IPAddress) (macAddress : String) :
    Tasks × Rejects → CoinTasks.Action → Option (Tasks × Rejects) :=
  watch (step address macAddress) recordRejects

def noRejects : Rejects := { sinceOpened := 0, remembered := false }

/-- Fraud is judged by what happened in the session that is open. -/
structure Judged (s : Tasks) (rejects : Rejects) : Prop where
  counted : s.coinInsertActive = true → s.fraudCountThisSession = rejects.sinceOpened
  ended : ∀ nodes, s.sessionTask = .closing true nodes → coinslotMaxFraudPerSession ≤ rejects.sinceOpened

/-- A claim that succeeds finds that a pulse came outside every window since the last
    reject. -/
def Fresh (here : Tasks × Rejects) : CoinTasks.Action → Prop
  | .tryClaim bootTestRunning _ _ =>
    bootTestRunning = true ∨ here.1.coinInsertActive = true ∨ here.2.remembered = false
  | _ => True

instance (here : Tasks × Rejects) : ∀ action, Decidable (Fresh here action)
  | .tryClaim .. => inferInstanceAs (Decidable (_ ∨ _ ∨ _))
  | .pulse _ | .receivePulse | .checkActive _ | .filterPulse _ | .postEvent | .postStart _ | .rollBack _ | .loadSlot ..
  | .swapSlot .. | .receiveEvent _ | .timeout | .clearActive | .beginFinalize | .endFinalize =>
    inferInstanceAs (Decidable True)

/-! ## Invariants -/

/-- What holds whatever the claims find. -/
structure Remembers (address : IPAddress) (s : Tasks) (rejects : Rejects) : Prop where
  held : Held address s
  forgotten : s.fraudCountThisSession = 0 ↔ rejects.remembered = false
  reached : s.pulseTask = .posting .fraudEnd → coinslotMaxFraudPerSession ≤ s.fraudCountThisSession

/-- What holds besides as long as every claim finds no reject remembered. -/
structure Own (s : Tasks) (rejects : Rejects) : Prop where
  judged : Judged s rejects
  coming : .fraudEnd ∈ ahead s.sessionTask s.coinSessionQueue → coinslotMaxFraudPerSession ≤ rejects.sinceOpened

section
variable {address : IPAddress} {macAddress : String} {s next : Tasks} {rejects : Rejects}

theorem not_rejected {millis : UInt32} {pulse : CoinPulse} (filtering : s.pulseTask = .filtering pulse)
    (passes : millis < s.coinSlotReadyMillis ∨ (¬ TooShort pulse ∧ ¬ TooSoon s.prevAcceptedTimestampMicros pulse)) :
    ¬ RejectedAt s millis := by
  rintro ⟨_, same, ready, fraud⟩
  rw [filtering, PulseTask.filtering.injEq] at same
  subst same
  exact passes.elim ready fun ⟨wide, slow⟩ => fraud.elim wide slow

theorem recordRejects_counts {millis : UInt32} (counts : RejectedAt s millis) :
    recordRejects s (.filterPulse millis) rejects = { sinceOpened := rejects.sinceOpened + 1, remembered := true } :=
  if_pos counts

theorem recordRejects_passes {millis : UInt32} (passes : ¬ RejectedAt s millis) :
    recordRejects s (.filterPulse millis) rejects = rejects :=
  if_neg passes

theorem remembers_step {action : CoinTasks.Action} (remembers : Remembers address s rejects)
    (took : step address macAddress s action = some next) :
    Remembers address next (recordRejects s action rejects) := by
  have held := held_step remembers.held took
  obtain ⟨-, forgotten, reached⟩ := remembers
  cases step_cases took with
  | outside checking inactive => exact ⟨held, by simp [recordRejects, inactive], nofun⟩
  | @rejected pulse millis _ _ _ filtering ready fraud =>
    have counts : RejectedAt s millis := ⟨pulse, filtering, ready, fraud⟩
    refine ⟨held, by simp [recordRejects, counts], fun posting => ?_⟩
    by_contra few
    simp [afterReject, few] at posting
  | suppressed filtering booting =>
    rw [recordRejects_passes (not_rejected filtering (.inl booting))]
    exact ⟨held, forgotten, nofun⟩
  | @accepted pulse millis filtering ready wide slow =>
    rw [recordRejects_passes (not_rejected filtering (.inr ⟨wide, slow⟩))]
    exact ⟨held, forgotten, by simp [coinEvent]⟩
  | won socketFd clientIp inactive => exact ⟨held, by simpa [recordRejects, inactive] using forgotten, reached⟩
  | taken socketFd clientIp busy => exact ⟨held, by simpa [recordRejects, busy] using forgotten, reached⟩
  | inside checking active => exact ⟨held, by simpa [recordRejects, active] using forgotten, nofun⟩
  | receivePulse | diverted | posted | dropped => exact ⟨held, by simpa [recordRejects] using forgotten, nofun⟩
  | _ => exact ⟨held, forgotten, reached⟩

/-- An event that is sent reaches a session that is open or queued, or none. -/
theorem mem_ahead_append {event : CoinSessionEvent} (held : Held address s)
    (coming : .fraudEnd ∈ ahead s.sessionTask (s.coinSessionQueue ++ [event])) :
    .fraudEnd ∈ ahead s.sessionTask s.coinSessionQueue ∨ (event = .fraudEnd ∧ s.coinInsertActive = true) := by
  rcases List.mem_append.mp (ahead_append _ _ _ coming) with before | now
  · exact .inl before
  · obtain rfl := List.mem_singleton.mp now
    refine .inr ⟨rfl, ?_⟩
    by_contra inactive
    obtain ⟨-, noStart, noWindow⟩ := held_inactive held (by simpa using inactive)
    rw [ahead_quiet noStart (not_counting noWindow) (by simp [startIp])] at coming
    cases coming

theorem own_frame (own : Own s rejects) (active : next.coinInsertActive = true →
      s.coinInsertActive = true ∧ next.fraudCountThisSession = s.fraudCountThisSession)
    (ended : ∀ nodes, next.sessionTask = .closing true nodes → coinslotMaxFraudPerSession ≤ rejects.sinceOpened)
    (fewer : .fraudEnd ∈ ahead next.sessionTask next.coinSessionQueue → .fraudEnd ∈ ahead s.sessionTask s.coinSessionQueue) : Own next rejects where
  judged.counted isActive := (active isActive).2.trans (own.judged.counted (active isActive).1)
  judged.ended := ended
  coming inside := own.coming (fewer inside)

theorem own_step {action : CoinTasks.Action} (remembers : Remembers address s rejects) (own : Own s rejects)
    (fresh : Fresh (s, rejects) action) (took : step address macAddress s action = some next) :
    Own next (recordRejects s action rejects) := by
  have once := held_once remembers.held
  have frame := @own_frame s next rejects own
  have ended := own.judged.ended
  cases step_cases took with
  | outside checking inactive =>
    rw [show recordRejects s _ rejects = { rejects with remembered := false } by simp [recordRejects, inactive]]
    exact ⟨⟨fun active => absurd (active.symm.trans inactive) (by simp), ended⟩, own.coming⟩
  | @rejected pulse millis _ _ _ filtering ready fraud =>
    have counts : RejectedAt s millis := ⟨pulse, filtering, ready, fraud⟩
    rw [recordRejects_counts counts]
    exact
      ⟨⟨fun active => congrArg (· + 1) (own.judged.counted active), fun nodes closing => Nat.le_succ_of_le (ended nodes closing)⟩,
        fun inside => Nat.le_succ_of_le (own.coming inside)⟩
  | suppressed filtering booting =>
    rw [recordRejects_passes (not_rejected filtering (.inl booting))]
    exact ⟨⟨own.judged.counted, ended⟩, own.coming⟩
  | @accepted pulse millis filtering ready wide slow =>
    rw [recordRejects_passes (not_rejected filtering (.inr ⟨wide, slow⟩))]
    exact ⟨⟨own.judged.counted, ended⟩, own.coming⟩
  | posted posting room =>
    refine ⟨⟨own.judged.counted, ended⟩, fun inside => ?_⟩
    rcases mem_ahead_append remembers.held inside with before | ⟨rfl, active⟩
    · exact own.coming before
    · exact own.judged.counted active ▸ remembers.reached posting
  | won socketFd clientIp inactive =>
    obtain ⟨-, noStart, noWindow⟩ := held_inactive remembers.held inactive
    have forgotten : rejects.remembered = false := by simpa [Fresh, inactive] using fresh
    rw [show recordRejects s _ rejects = { rejects with sinceOpened := 0 } by simp [recordRejects, inactive]]
    refine ⟨⟨fun _ => remembers.forgotten.mpr forgotten, fun nodes closing => ?_⟩, fun inside => ?_⟩
    · exact absurd (by rw [closing]; rfl) noWindow
    · exact absurd inside (by simp [ahead_nil noStart (not_counting noWindow)])
  | taken socketFd clientIp busy =>
    rw [show recordRejects s _ rejects = rejects by simp [recordRejects, busy]]
    exact own
  | inside checking active =>
    rw [show recordRejects s _ rejects = rejects by simp [recordRejects, active]]
    exact ⟨⟨own.judged.counted, ended⟩, own.coming⟩
  | started =>
    refine ⟨⟨own.judged.counted, ended⟩, fun inside => ?_⟩
    rcases mem_ahead_append remembers.held inside with before | ⟨other, -⟩
    · exact own.coming before
    · cases other
  | rolledBack pending refused => exact frame (by simp) ended id
  | opened free queued =>
    refine frame (fun active => ⟨active, rfl⟩) (by simp) fun inside => ?_
    simp only [ahead, free, queued, List.dropWhile_cons, startIp]
    exact List.mem_cons_of_mem _ inside
  | @stray event rest _ free queued other =>
    refine frame (fun active => ⟨active, rfl⟩) (by simp [free]) fun inside => ?_
    have passed := startIp_stray other
    simpa [ahead, free, queued, List.dropWhile_cons, passed] using inside
  | counted counting queued =>
    refine frame (fun active => ⟨active, rfl⟩) (by simp) fun inside => ?_
    simp only [ahead, counting, queued]
    exact List.mem_cons_of_mem _ inside
  | aborted counting queued =>
    have coming : .fraudEnd ∈ ahead s.sessionTask s.coinSessionQueue := by
      simp only [ahead, counting, queued]
      exact List.mem_cons_self
    refine frame (fun active => ⟨active, rfl⟩) (fun _ _ => own.coming coming) fun _ => coming
  | restarted counting queued =>
    refine frame (fun active => ⟨active, rfl⟩) (by simp [counting]) fun inside => ?_
    simp only [ahead, counting, queued] at inside ⊢
    exact List.mem_cons_of_mem _ inside
  | timedOut counting drained =>
    refine frame (fun active => ⟨active, rfl⟩) (by simp) fun inside => ?_
    simp [ahead, drained] at inside
  | cleared closing => exact frame (by simp) (by simp) (by simp only [ahead, closing]; exact id)
  | began finalizing => exact frame (fun active => ⟨active, rfl⟩) (by simp) (by simp only [ahead, finalizing]; exact id)
  | finalized granting => exact frame (fun active => ⟨active, rfl⟩) (by simp) (by simp only [ahead, granting]; exact id)
  | _ => exact ⟨⟨own.judged.counted, ended⟩, own.coming⟩

/-- A claim that inherits rejects shows a count that is not its own. -/
theorem claim_inherits {action : CoinTasks.Action} (remembers : Remembers address s rejects)
    (stale : ¬ Fresh (s, rejects) action) (took : step address macAddress s action = some next) :
    ¬ Judged next (recordRejects s action rejects) := by
  cases step_cases took with
  | won socketFd clientIp inactive =>
    intro judged
    have none : s.fraudCountThisSession = 0 := by simpa [recordRejects, inactive] using judged.counted rfl
    exact stale (.inr (.inr (remembers.forgotten.mp none)))
  | taken socketFd clientIp busy => exact absurd (busy.imp_right .inl) stale
  | _ => exact absurd trivial stale

/-- In every run the count of rejects is the open session's, and sessions are ended
    for their own rejects, exactly when every claim comes after a pulse outside the
    windows, or before any reject since the last one. -/
theorem fraud_judged_iff {actions : List CoinTasks.Action} {last : Tasks × Rejects}
    (ran : run (judging address macAddress) (initial, noRejects) actions = some last) :
    Always (judging address macAddress) (fun here => Judged here.1 here.2) (initial, noRejects) actions ↔
      Throughout (judging address macAddress) Fresh (initial, noRejects) actions := by
  refine @always_iff _ _ _ (fun here => Remembers address here.1 here.2) (fun here => Own here.1 here.2) _ _
    ?_ ?_ (fun _ own => own.judged) ?_ _ _ _ ⟨held_initial, by simp [initial, noRejects], by simp [initial]⟩
    ⟨⟨by simp [initial], by simp [initial]⟩, by simp [initial, ahead]⟩ ran
  · rintro ⟨s, rejects⟩ action ⟨next, after⟩ remembers took
    obtain ⟨moved, rfl⟩ := watch_some.mp took
    exact remembers_step remembers moved
  · rintro ⟨s, rejects⟩ action ⟨next, after⟩ remembers own fresh took
    obtain ⟨moved, rfl⟩ := watch_some.mp took
    exact own_step remembers own fresh moved
  · rintro ⟨s, rejects⟩ action ⟨next, after⟩ remembers - stale took
    obtain ⟨moved, rfl⟩ := watch_some.mp took
    exact claim_inherits remembers stale moved

end

/-- A spike, too short for a coin. -/
def spike (millis : UInt32) : List CoinTasks.Action := handled 40 millis

/-- Two spikes in one window, one between the windows, and one in the next. -/
def spikesBetween : List CoinTasks.Action :=
  windowStart 7 "10.0.0.5" 100 ++ spike 1000 ++ spike 2000 ++ windowEnd ++ (spike 15000).take 3 ++
    windowStart 8 "10.0.0.6" 20000 ++ spike 21000

theorem fraud_judged_spikes_between :
    Always (judging dottedQuad "AA") (fun here => Judged here.1 here.2) (initial, noRejects) spikesBetween := by
  have ran : (run (judging dottedQuad "AA") (initial, noRejects) spikesBetween).isSome := by decide +kernel
  obtain ⟨last, reached⟩ := Option.isSome_iff_exists.mp ran
  exact (fraud_judged_iff reached).mpr (by decide +kernel)

/-- Two spikes in one window, and a third in the next one. -/
def spikesAcross : List CoinTasks.Action :=
  windowStart 7 "10.0.0.5" 100 ++ spike 1000 ++ spike 2000 ++ windowEnd ++ windowStart 8 "10.0.0.6" 20000 ++ spike 21000 ++
    [.postEvent, .receiveEvent 22000]

def fraudClosing : SessionTask → Bool
  | .closing true _ => true
  | _ => false

theorem fraudClosing_iff {task : SessionTask} : fraudClosing task = true ↔ ∃ nodes, task = .closing true nodes := by
  rcases task with _ | _ | ⟨_ | _, nodes⟩ | _ | _ <;> simp [fraudClosing]

/-- The second session is ended for one reject of its own. -/
theorem spikes_inherited : ∃ s rejects,
    run (judging dottedQuad "AA") (initial, noRejects) spikesAcross = some (s, rejects) ∧
      (∃ nodes, s.sessionTask = .closing true nodes) ∧ rejects.sinceOpened = 1 ∧ ¬ Judged s rejects := by
  have ran : (run (judging dottedQuad "AA") (initial, noRejects) spikesAcross).map (fun last =>
      (fraudClosing last.1.sessionTask, last.2.sinceOpened)) = some (true, 1) := by
    decide +kernel
  obtain ⟨⟨s, rejects⟩, reached, shown⟩ := Option.map_eq_some_iff.mp ran
  obtain ⟨ended, own⟩ : fraudClosing s.sessionTask = true ∧ rejects.sinceOpened = 1 := by
    simpa only [Prod.mk.injEq] using shown
  have closing := fraudClosing_iff.mp ended
  refine ⟨s, rejects, reached, closing, own, fun judged => ?_⟩
  obtain ⟨nodes, here⟩ := closing
  have enough := judged.ended nodes here
  rw [own] at enough
  exact absurd enough (by decide)

end EllaFi.FraudCount
