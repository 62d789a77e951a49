import EllaFi.MoneyStore
import EllaFi.Runs

/-!
The nightly schedule. The master's loop looks at the clock when more than a minute of
uptime has passed since it did so last. It runs the rollup where it reads 02:45 of
local time, and reboots where it reads 03:00, or where the rollup has left a 03:00 in
the buffer of `localtime`. Every night has one rollup and one reboot exactly when no
02:45 and no 03:00 lies between two looks at the clock, none is looked at twice, and
no rollup leaves a 03:00 (`nightly_iff`). Two looks are more than a minute apart
(`checks_apart`), so that none is looked at twice unless the zone turns back over it,
or the uptime of the first look is read before it (`repeated_only`).
-/
namespace EllaFi.Nightly
open EllaFi.Files EllaFi.MoneyStore
open EllaFi.Runs (run Always Throughout always_iff always_last run_keeps)

/-! ## Clocks -/

/-- Broken-down local time: the fields that the loop reads, and the day. -/
structure Tm where
  day : Int
  hour : Int
  min : Int
deriving DecidableEq, Repr

/-- The offset of the local time in each minute of UTC, in minutes. -/
structure Zone where
  offset : Nat → Int

def localtime (zone : Zone) (t : Nat) : Tm :=
  let minutes : Int := (t / 60 : Nat) + zone.offset (t / 60)
  { day := minutes / 1440, hour := minutes % 1440 / 60, min := minutes % 60 }

/-- Seconds of Unix time, at a moment in milliseconds. -/
def time (moment : Nat) : Nat := moment / 1000

/-- The 32-bit counter of milliseconds since a boot. -/
def millis (booted moment : Nat) : Nat := (moment - booted) % 2 ^ 32

/-! ## The loop -/

/-- The moments at which an iteration reads its clocks, and what a rollup finds. -/
structure Iteration where
  /-- `millis()` is compared with the last check. -/
  started : Nat
  /-- `millis()` is stored for the next one. -/
  marked : Nat
  /-- `time(NULL)` is read. -/
  read : Nat
  marked_after : started ≤ marked
  read_after : marked ≤ read
  reply : VoucherReply
  /-- What a login leaves in the buffer of `localtime`, if the rollup has to log in. -/
  login : Option Tm
  sales : List Sale

/-- A look at the clock. -/
structure Check where
  marked : Nat
  read : Nat
deriving DecidableEq, Repr

structure Master where
  up : Bool
  booted : Nat
  lastRebootCheck : Nat
  now : Nat
  /-- The next iteration starts before this. -/
  pace : Nat
  checks : List Check
  /-- When the rollup ran. -/
  rollups : List Nat
  /-- When the scheduled reboot fired. -/
  reboots : List Nat
  /-- The boot and the end of each earlier life. -/
  past : List (Nat × Nat)
deriving DecidableEq, Repr

/-- Setup takes its time, but less than it takes `millis()` to wrap. -/
def boot (moment : Nat) (master : Master) : Master :=
  { master with
    up := true
    booted := moment
    lastRebootCheck := 0
    now := moment
    pace := moment + 2 ^ 32
    past := (master.booted, master.now) :: master.past }

def firstBoot (moment : Nat) : Master where
  up := true
  booted := moment
  lastRebootCheck := 0
  now := moment
  pace := moment + 2 ^ 32
  checks := []
  rollups := []
  reboots := []
  past := []

section
variable (zone : Zone)

/-- The times of which a rollup takes the month, in order. -/
def formatted (iteration : Iteration) : List Nat :=
  let created :=
    match getVoucherGroupsJson iteration.reply with
    | none => []
    | some document =>
      if document.errorCode = 0 then
        (document.data.filter fun group => IsAutogen group.name).map fun group => group.createdMillis / 1000
      else []
  created ++ (iteration.sales.filter fun sale => Counted sale).map (·.ts)

/-- The buffer of `localtime`, which the loop still points to, after a rollup. -/
def leaves (iteration : Iteration) : Tm :=
  match (formatted iteration).getLast? with
  | some t => localtime zone t
  | none => iteration.login.getD (localtime zone (time iteration.read))

/-- More than a minute has passed since the last check. -/
def Due (master : Master) (iteration : Iteration) : Prop :=
  60000 < (millis master.booted iteration.started + 2 ^ 32 - master.lastRebootCheck) % 2 ^ 32

instance (master : Master) (iteration : Iteration) : Decidable (Due master iteration) :=
  inferInstanceAs (Decidable (_ < _))

def IsRollup (t : Tm) : Prop := t.hour = 2 ∧ t.min = 45

def IsReboot (t : Tm) : Prop := t.hour = 3 ∧ t.min = 0

instance (t : Tm) : Decidable (IsRollup t) := inferInstanceAs (Decidable (_ ∧ _))
instance (t : Tm) : Decidable (IsReboot t) := inferInstanceAs (Decidable (_ ∧ _))

/-- The body of the check. -/
def check (iteration : Iteration) (master : Master) : Master :=
  let master := { master with
    lastRebootCheck := millis master.booted iteration.marked
    now := iteration.read
    checks := master.checks ++ [{ marked := iteration.marked, read := iteration.read }] }
  let t := localtime zone (time iteration.read)
  let rolls := IsRollup t
  let master := if rolls then { master with rollups := master.rollups ++ [iteration.read] } else master
  let t := if rolls then leaves zone iteration else t
  if IsReboot t then { master with up := false, reboots := master.reboots ++ [iteration.read] } else master

def loop (iteration : Iteration) (master : Master) : Master :=
  let started := { master with now := iteration.started, pace := iteration.started + 60000 }
  if Due master iteration then check zone iteration started else started

inductive Action where
  | iterate (iteration : Iteration)
  /-- The device starts again: after the scheduled reboot, or for any other reason. -/
  | boot (moment : Nat)

/-- Iterations are less than a minute apart, and time does not go back. -/
def step (master : Master) : Action → Option Master
  | .iterate iteration =>
    if master.up ∧ master.now ≤ iteration.started ∧ iteration.started < master.pace then
      some (loop zone iteration master)
    else none
  | .boot moment => if master.now ≤ moment then some (boot moment master) else none

/-! ## The schedule -/

/-- The local time at a moment. -/
def Shows (tm : Tm) (moment : Nat) : Prop := localtime zone (time moment) = tm

instance (tm : Tm) (moment : Nat) : Decidable (Shows zone tm moment) := inferInstanceAs (Decidable (_ = _))

def rollupTime (day : Int) : Tm := { day, hour := 2, min := 45 }

def rebootTime (day : Int) : Tm := { day, hour := 3, min := 0 }

/-- A local time comes, and one life of the device lasts from before it until after it. -/
def UpThrough (tm : Tm) (master : Master) : Prop :=
  (∃ moment, Shows zone tm moment) ∧
    ∃ life ∈ (master.booted, master.now) :: master.past,
      ∀ moment, Shows zone tm moment → life.1 < moment ∧ moment < life.2

/-- At most once at the same time of a day, and once where the device was up. -/
def OnceEachDay (timeOf : Int → Tm) (done : List Nat) (master : Master) : Prop :=
  ∀ day, (done.countP fun moment => Shows zone (timeOf day) moment) ≤ 1 ∧
    (UpThrough zone (timeOf day) master → (done.countP fun moment => Shows zone (timeOf day) moment) = 1)

structure Kept (master : Master) : Prop where
  rollups : OnceEachDay zone rollupTime master.rollups master
  reboots : OnceEachDay zone rebootTime master.reboots master
  only : ∀ moment ∈ master.reboots, ∃ day, Shows zone (rebootTime day) moment

/-- A local time during which the device was up is over, and no check has read it. -/
def Missed (tm : Tm) (master : Master) (iteration : Iteration) : Prop :=
  (∃ moment, Shows zone tm moment) ∧
    (∀ moment, Shows zone tm moment → master.booted < moment ∧ moment < iteration.read) ∧
      ∀ earlier ∈ master.checks, ¬ Shows zone tm earlier.read

/-- A local time is read that an earlier check has read. -/
def Repeated (tm : Tm) (master : Master) (iteration : Iteration) : Prop :=
  Shows zone tm iteration.read ∧ ∃ earlier ∈ master.checks, Shows zone tm earlier.read

/-- No check misses or repeats a time of the schedule, and no rollup leaves the time of
    the reboot in the buffer. -/
def OnTime (master : Master) : Action → Prop
  | .iterate iteration => Due master iteration →
      (∀ day, ¬ Missed zone (rollupTime day) master iteration ∧ ¬ Repeated zone (rollupTime day) master iteration) ∧
        (∀ day, ¬ Missed zone (rebootTime day) master iteration ∧ ¬ Repeated zone (rebootTime day) master iteration) ∧
          ¬ (IsRollup (localtime zone (time iteration.read)) ∧ IsReboot (leaves zone iteration))
  | .boot _ => True

/-! ## What a check does -/

section
variable {zone} {master next : Master} {iteration : Iteration} {tm : Tm}

theorem timeOfDay_iff {t : Tm} {hour min : Int} : (∃ day, t = { day, hour, min }) ↔ t.hour = hour ∧ t.min = min := by
  constructor
  · rintro ⟨day, rfl⟩
    exact ⟨rfl, rfl⟩
  · rintro ⟨rfl, rfl⟩
    exact ⟨t.day, rfl⟩

theorem rollup_not_reboot {t : Tm} (rolls : IsRollup t) : ¬ IsReboot t := by
  intro reboots
  have hour := rolls.1.symm.trans reboots.1
  omega

/-- The local time for which a check fires the reboot. -/
def Fires (zone : Zone) (iteration : Iteration) : Prop :=
  IsReboot (localtime zone (time iteration.read)) ∨
    (IsRollup (localtime zone (time iteration.read)) ∧ IsReboot (leaves zone iteration))

instance (zone : Zone) (iteration : Iteration) : Decidable (Fires zone iteration) := inferInstanceAs (Decidable (_ ∨ _))

theorem check_eq :
    check zone iteration master =
      { master with
        up := if Fires zone iteration then false else master.up
        lastRebootCheck := millis master.booted iteration.marked
        now := iteration.read
        checks := master.checks ++ [{ marked := iteration.marked, read := iteration.read }]
        rollups :=
          if IsRollup (localtime zone (time iteration.read)) then master.rollups ++ [iteration.read] else master.rollups
        reboots := if Fires zone iteration then master.reboots ++ [iteration.read] else master.reboots } := by
  unfold check
  by_cases rolls : IsRollup (localtime zone (time iteration.read))
  · by_cases reboots : IsReboot (leaves zone iteration)
    · simp [Fires, rolls, reboots]
    · simp [Fires, rolls, reboots, rollup_not_reboot rolls]
  · by_cases reboots : IsReboot (localtime zone (time iteration.read))
    · simp [Fires, rolls, reboots]
    · simp [Fires, rolls, reboots]

/-- The local time is the same at all moments of a minute of UTC. -/
theorem shows_congr {first second : Nat} (same : first / 60000 = second / 60000) :
    Shows zone tm first ↔ Shows zone tm second := by
  have minute : time first / 60 = time second / 60 := by
    simp only [time]
    omega
  simp only [Shows, localtime, minute]

end

/-! ## The record of a run -/

/-- The uptime that is stored for the next check is that of `mark`: the last check or
    the boot. -/
structure Marked (master : Master) (mark : Nat) : Prop where
  stored : master.lastRebootCheck = millis master.booted mark
  booted : master.booted ≤ mark
  pace : master.pace ≤ mark + 2 ^ 32
  last : mark ≤ master.now ∧
    (mark = master.booted ∨ ∃ earlier ∈ master.checks, mark ≤ earlier.read ∧ earlier.read ≤ master.now)
  earlier : ∀ earlier ∈ master.checks, earlier.marked ≤ mark

/-- How many checks have read a local time. -/
def reads (tm : Tm) (master : Master) : Nat := master.checks.countP fun earlier => Shows zone tm earlier.read

structure Recorded (master : Master) : Prop where
  rollups : ∀ day, (master.rollups.countP fun moment => Shows zone (rollupTime day) moment) =
    reads zone (rollupTime day) master
  reboots : ∀ day, (master.reboots.countP fun moment => Shows zone (rebootTime day) moment) =
    reads zone (rebootTime day) master
  marked : ∃ mark, Marked master mark

section
variable {zone} {master next : Master} {iteration : Iteration} {tm : Tm} {mark : Nat}

theorem due_iff (marked : Marked master mark) (after : master.now ≤ iteration.started)
    (before : iteration.started < master.pace) : Due master iteration ↔ mark + 60000 < iteration.started := by
  have booted := marked.booted
  have pace := marked.pace
  have now := marked.last.1
  rw [Due, marked.stored, millis, millis]
  omega

theorem notDue_le (marked : Marked master mark) (after : master.now ≤ iteration.started)
    (before : iteration.started < master.pace) (notDue : ¬ Due master iteration) : iteration.started ≤ mark + 60000 :=
  Nat.le_of_not_lt fun late => notDue ((due_iff marked after before).mpr late)

theorem marked_idle (marked : Marked master mark) (after : master.now ≤ iteration.started)
    (soon : iteration.started ≤ mark + 60000) :
    Marked { master with now := iteration.started, pace := iteration.started + 60000 } mark where
  stored := marked.stored
  booted := marked.booted
  pace := by
    simp only
    omega
  last := by
    refine ⟨Nat.le_trans marked.last.1 after, ?_⟩
    rcases marked.last.2 with boot | ⟨earlier, inside, first, last⟩
    · exact .inl boot
    · exact .inr ⟨earlier, inside, first, Nat.le_trans last after⟩
  earlier := marked.earlier

theorem marked_check (marked : Marked master mark) (after : master.now ≤ iteration.started) {pace : Nat}
    (soon : pace = iteration.started + 60000) {up : Bool} {rollups reboots : List Nat} :
    Marked { master with
      up
      pace
      lastRebootCheck := millis master.booted iteration.marked
      now := iteration.read
      checks := master.checks ++ [{ marked := iteration.marked, read := iteration.read }]
      rollups
      reboots } iteration.marked where
  stored := rfl
  booted := by
    have booted := marked.booted
    have now := marked.last.1
    have started := iteration.marked_after
    simp only
    omega
  pace := by
    have started := iteration.marked_after
    simp only
    omega
  last := by
    refine ⟨iteration.read_after, .inr ⟨_, List.mem_append_right _ (List.mem_singleton.mpr rfl), ?_, Nat.le_refl _⟩⟩
    exact iteration.read_after
  earlier := by
    intro earlier inside
    rcases List.mem_append.mp inside with before | last
    · have first := marked.earlier earlier before
      have now := marked.last.1
      have started := iteration.marked_after
      omega
    · rw [List.mem_singleton.mp last]

theorem reads_check (tm : Tm) {up : Bool} {lastRebootCheck now pace : Nat} {rollups reboots : List Nat} {look : Check} :
    reads zone tm { master with up, lastRebootCheck, now, pace, checks := master.checks ++ [look], rollups, reboots } =
      reads zone tm master + if Shows zone tm look.read then 1 else 0 := by
  simp [reads, List.countP_append, List.countP_singleton]

theorem times_snoc (tm : Tm) (moments : List Nat) (moment : Nat) :
    ((moments ++ [moment]).countP fun moment => Shows zone tm moment) =
      (moments.countP fun moment => Shows zone tm moment) + if Shows zone tm moment then 1 else 0 := by
  simp [List.countP_append, List.countP_singleton]

theorem recorded_loop (recorded : Recorded zone master) (after : master.now ≤ iteration.started)
    (before : iteration.started < master.pace) : Recorded zone (loop zone iteration master) := by
  obtain ⟨mark, marked⟩ := recorded.marked
  unfold loop
  by_cases due : Due master iteration
  · rw [if_pos due, check_eq]
    refine ⟨fun day => ?_, fun day => ?_, iteration.marked, marked_check marked after rfl⟩
    · rw [reads_check]
      change _ = reads zone (rollupTime day) master + _
      rw [← recorded.rollups day]
      by_cases rolls : IsRollup (localtime zone (time iteration.read))
      · simp only [if_pos rolls]
        exact times_snoc _ _ _
      · have other : ¬ Shows zone (rollupTime day) iteration.read := fun shows => rolls (timeOfDay_iff.mp ⟨day, shows⟩)
        simp only [if_neg rolls, if_neg other, Nat.add_zero]
    · rw [reads_check]
      change _ = reads zone (rebootTime day) master + _
      rw [← recorded.reboots day]
      by_cases fires : Fires zone iteration
      · simp only [if_pos fires]
        exact times_snoc _ _ _
      · have other : ¬ Shows zone (rebootTime day) iteration.read :=
          fun shows => fires (.inl (timeOfDay_iff.mp ⟨day, shows⟩))
        simp only [if_neg fires, if_neg other, Nat.add_zero]
  · rw [if_neg due]
    exact ⟨recorded.rollups, recorded.reboots, mark, marked_idle marked after (notDue_le marked after before due)⟩

theorem recorded_boot (recorded : Recorded zone master) {moment : Nat} (later : master.now ≤ moment) :
    Recorded zone (boot moment master) where
  rollups := recorded.rollups
  reboots := recorded.reboots
  marked := by
    obtain ⟨mark, marked⟩ := recorded.marked
    refine ⟨moment, by simp [boot, millis], Nat.le_refl _, Nat.le_refl _, ⟨Nat.le_refl _, .inl rfl⟩, fun earlier inside => ?_⟩
    exact Nat.le_trans (marked.earlier earlier inside) (Nat.le_trans marked.last.1 later)

theorem step_iterate (taken : step zone master (.iterate iteration) = some next) :
    master.now ≤ iteration.started ∧ iteration.started < master.pace ∧ next = loop zone iteration master := by
  simp only [step] at taken
  split at taken
  · next guard =>
    cases taken
    exact ⟨guard.2.1, guard.2.2, rfl⟩
  · cases taken

theorem step_boot {moment : Nat} (taken : step zone master (.boot moment) = some next) :
    master.now ≤ moment ∧ next = boot moment master := by
  simp only [step] at taken
  split at taken
  · next later =>
    cases taken
    exact ⟨later, rfl⟩
  · cases taken

theorem recorded_step {action : Action} (recorded : Recorded zone master) (taken : step zone master action = some next) :
    Recorded zone next := by
  cases action with
  | iterate iteration =>
    obtain ⟨after, before, rfl⟩ := step_iterate taken
    exact recorded_loop recorded after before
  | boot moment =>
    obtain ⟨later, rfl⟩ := step_boot taken
    exact recorded_boot recorded later

theorem recorded_first (moment : Nat) : Recorded zone (firstBoot moment) where
  rollups _ := rfl
  reboots _ := rfl
  marked := ⟨moment, by simp [firstBoot, millis], Nat.le_refl _, Nat.le_refl _, ⟨Nat.le_refl _, .inl rfl⟩, by simp [firstBoot]⟩

/-! ## Nights -/

/-- A local time that is over when an iteration is not yet due was over before, or a
    check has read it. -/
theorem upThrough_idle (marked : Marked master mark) (soon : iteration.started ≤ mark + 60000)
    (up : UpThrough zone tm { master with now := iteration.started, pace := iteration.started + 60000 }) :
    UpThrough zone tm master ∨ 0 < reads zone tm master := by
  obtain ⟨comes, life, inside, all⟩ := up
  rcases List.mem_cons.mp inside with rfl | earlier
  · by_cases passed : ∀ moment, Shows zone tm moment → moment < master.now
    · exact .inl ⟨comes, _, List.mem_cons_self, fun moment shows => ⟨(all moment shows).1, passed moment shows⟩⟩
    · push Not at passed
      obtain ⟨moment, shows, late⟩ := passed
      have begins := all (moment / 60000 * 60000) ((shows_congr (by omega)).mp shows)
      have ends := all (moment / 60000 * 60000 + 59999) ((shows_congr (by omega)).mp shows)
      simp only at begins ends
      have now := marked.last.1
      rcases marked.last.2 with boot | ⟨earlier, looked, first, last⟩
      · omega
      · refine .inr (List.countP_pos_iff.mpr ⟨earlier, looked, ?_⟩)
        have read : Shows zone tm earlier.read := (shows_congr (by omega)).mp shows
        simpa using read
  · exact .inl ⟨comes, life, List.mem_cons_of_mem _ earlier, all⟩

theorem reads_eq_zero : reads zone tm master = 0 ↔ ∀ earlier ∈ master.checks, ¬ Shows zone tm earlier.read := by
  simp [reads, List.countP_eq_zero]

/-- A check that misses nothing comes after a night only if a check has read it. -/
theorem upThrough_check {up : Bool} {lastRebootCheck pace : Nat} {checks : List Check} {rollups reboots : List Nat}
    (notMissed : ¬ Missed zone tm master iteration)
    (through : UpThrough zone tm { master with up, lastRebootCheck, now := iteration.read, pace, checks, rollups, reboots }) :
    UpThrough zone tm master ∨ 0 < reads zone tm master := by
  obtain ⟨comes, life, inside, all⟩ := through
  rcases List.mem_cons.mp inside with rfl | earlier
  · refine .inr (Nat.pos_of_ne_zero fun none => notMissed ⟨comes, all, reads_eq_zero.mp none⟩)
  · exact .inl ⟨comes, life, List.mem_cons_of_mem _ earlier, all⟩

theorem upThrough_boot {moment : Nat} (up : UpThrough zone tm (boot moment master)) : UpThrough zone tm master := by
  obtain ⟨⟨shown, shows⟩, life, inside, all⟩ := up
  rcases List.mem_cons.mp inside with rfl | earlier
  · have both := all shown shows
    simp only [boot] at both
    omega
  · exact ⟨⟨shown, shows⟩, life, earlier, all⟩

/-- One night as the checks have it. -/
def Once (zone : Zone) (tm : Tm) (master : Master) : Prop :=
  reads zone tm master ≤ 1 ∧ (UpThrough zone tm master → reads zone tm master = 1)

theorem kept_iff (recorded : Recorded zone master) :
    Kept zone master ↔ (∀ day, Once zone (rollupTime day) master) ∧ (∀ day, Once zone (rebootTime day) master) ∧
      ∀ moment ∈ master.reboots, IsReboot (localtime zone (time moment)) := by
  constructor
  · intro kept
    refine ⟨fun day => ?_, fun day => ?_, fun moment fired => ?_⟩
    · rw [Once, ← recorded.rollups day]
      exact kept.rollups day
    · rw [Once, ← recorded.reboots day]
      exact kept.reboots day
    · exact timeOfDay_iff.mp (kept.only moment fired)
  · rintro ⟨rollups, reboots, only⟩
    refine ⟨fun day => ?_, fun day => ?_, fun moment fired => ?_⟩
    · rw [recorded.rollups day]
      exact rollups day
    · rw [recorded.reboots day]
      exact reboots day
    · exact timeOfDay_iff.mpr (only moment fired)

/-- A night is kept by a check exactly if the check neither misses nor repeats it. -/
theorem once_check_iff (once : Once zone tm master) {up : Bool} {lastRebootCheck pace marked : Nat}
    {rollups reboots : List Nat} :
    Once zone tm { master with
        up, lastRebootCheck, now := iteration.read, pace
        checks := master.checks ++ [{ marked, read := iteration.read }], rollups, reboots } ↔
      ¬ Missed zone tm master iteration ∧ ¬ Repeated zone tm master iteration := by
  rw [Once, reads_check]
  constructor
  · rintro ⟨most, through⟩
    constructor
    · rintro ⟨comes, all, none⟩
      have one := through ⟨comes, _, List.mem_cons_self, all⟩
      have other : ¬ Shows zone tm iteration.read := fun shows => Nat.lt_irrefl _ (all _ shows).2
      rw [if_neg other, reads_eq_zero.mpr none] at one
      omega
    · rintro ⟨shows, look, inside, read⟩
      have positive : reads zone tm master ≠ 0 := fun none => reads_eq_zero.mp none look inside read
      rw [if_pos shows] at most
      omega
  · rintro ⟨notMissed, notRepeated⟩
    by_cases shows : Shows zone tm iteration.read
    · have none : reads zone tm master = 0 := reads_eq_zero.mpr fun look inside read =>
        notRepeated ⟨shows, look, inside, read⟩
      rw [if_pos shows, none]
      exact ⟨Nat.le_refl _, fun _ => rfl⟩
    · rw [if_neg shows]
      refine ⟨once.1, fun through => ?_⟩
      rcases upThrough_check notMissed through with before | positive
      · exact once.2 before
      · have most := once.1
        omega

theorem once_idle (once : Once zone tm master) (marked : Marked master mark)
    (soon : iteration.started ≤ mark + 60000) :
    Once zone tm { master with now := iteration.started, pace := iteration.started + 60000 } := by
  refine ⟨once.1, fun through => ?_⟩
  rcases upThrough_idle marked soon through with before | positive
  · exact once.2 before
  · exact Nat.le_antisymm once.1 positive

/-- Where every reboot was fired at its time, this one is exactly if no rollup has left
    that time. -/
theorem fired_iff (only : ∀ moment ∈ master.reboots, IsReboot (localtime zone (time moment))) :
    (∀ moment ∈ if Fires zone iteration then master.reboots ++ [iteration.read] else master.reboots,
        IsReboot (localtime zone (time moment))) ↔
      ¬ (IsRollup (localtime zone (time iteration.read)) ∧ IsReboot (leaves zone iteration)) := by
  by_cases fires : Fires zone iteration
  · rw [if_pos fires]
    constructor
    · rintro all ⟨rolls, -⟩
      exact rollup_not_reboot rolls (all _ (List.mem_append_right _ (List.mem_singleton.mpr rfl)))
    · intro notLeft moment fired
      rcases List.mem_append.mp fired with before | last
      · exact only moment before
      · rw [List.mem_singleton.mp last]
        rcases fires with reboots | left
        · exact reboots
        · exact absurd left notLeft
  · rw [if_neg fires]
    exact iff_of_true only fun left => fires (.inr left)

theorem kept_loop_iff (recorded : Recorded zone master) (kept : Kept zone master) (after : master.now ≤ iteration.started)
    (before : iteration.started < master.pace) :
    Kept zone (loop zone iteration master) ↔ OnTime zone master (.iterate iteration) := by
  obtain ⟨mark, marked⟩ := recorded.marked
  obtain ⟨rollups, reboots, only⟩ := (kept_iff recorded).mp kept
  rw [kept_iff (recorded_loop recorded after before), OnTime]
  by_cases due : Due master iteration
  · rw [loop, if_pos due, check_eq]
    simp only [due, true_imp_iff]
    exact and_congr (forall_congr' fun day => once_check_iff (rollups day))
      (and_congr (forall_congr' fun day => once_check_iff (reboots day)) (fired_iff only))
  · rw [loop, if_neg due]
    have soon := notDue_le marked after before due
    exact iff_of_true ⟨fun day => once_idle (rollups day) marked soon, fun day => once_idle (reboots day) marked soon, only⟩
      fun isDue => absurd isDue due

theorem kept_boot (kept : Kept zone master) (moment : Nat) : Kept zone (boot moment master) where
  rollups day := ⟨(kept.rollups day).1, fun through => (kept.rollups day).2 (upThrough_boot through)⟩
  reboots day := ⟨(kept.reboots day).1, fun through => (kept.reboots day).2 (upThrough_boot through)⟩
  only := kept.only

theorem kept_step_iff {action : Action} (recorded : Recorded zone master) (kept : Kept zone master)
    (taken : step zone master action = some next) : Kept zone next ↔ OnTime zone master action := by
  cases action with
  | iterate iteration =>
    obtain ⟨after, before, rfl⟩ := step_iterate taken
    exact kept_loop_iff recorded kept after before
  | boot moment =>
    obtain ⟨later, rfl⟩ := step_boot taken
    exact iff_of_true (kept_boot kept moment) trivial

theorem kept_first (moment : Nat) : Kept zone (firstBoot moment) := by
  have nothing (tm : Tm) : ¬ UpThrough zone tm (firstBoot moment) := by
    rintro ⟨⟨shown, shows⟩, life, inside, all⟩
    rw [firstBoot, List.mem_singleton] at inside
    subst inside
    have both := all shown shows
    simp only at both
    omega
  exact ⟨fun day => ⟨Nat.zero_le _, fun through => absurd through (nothing _)⟩,
    fun day => ⟨Nat.zero_le _, fun through => absurd through (nothing _)⟩, by simp [firstBoot]⟩

end

/-! ## When a night is repeated -/

section
variable {zone} {master : Master} {iteration : Iteration} {tm : Tm}

theorem checks_apart (recorded : Recorded zone master) (after : master.now ≤ iteration.started)
    (before : iteration.started < master.pace) (due : Due master iteration) {earlier : Check}
    (looked : earlier ∈ master.checks) : earlier.marked + 60000 < iteration.read := by
  obtain ⟨mark, marked⟩ := recorded.marked
  have late := (due_iff marked after before).mp due
  have first := marked.earlier earlier looked
  have started := iteration.marked_after
  have read := iteration.read_after
  omega

/-- Where a local time lasts a minute only, a second check reads it only if the first
    has taken its uptime before. -/
theorem repeated_only (recorded : Recorded zone master) (after : master.now ≤ iteration.started)
    (before : iteration.started < master.pace) (due : Due master iteration) (repeated : Repeated zone tm master iteration)
    (minute : ∀ first second, Shows zone tm first → Shows zone tm second → second < first + 60000) :
    ∃ earlier ∈ master.checks, Shows zone tm earlier.read ∧ ¬ Shows zone tm earlier.marked := by
  obtain ⟨shows, earlier, looked, read⟩ := repeated
  refine ⟨earlier, looked, read, fun marked => ?_⟩
  have apart := checks_apart recorded after before due looked
  have close := minute _ _ marked shows
  omega

/-- A time that is missed lasts a whole minute of UTC in which no check reads the clock. -/
theorem missed_minute (missed : Missed zone tm master iteration) :
    ∃ minute, master.booted < minute * 60000 ∧ minute * 60000 + 59999 < iteration.read ∧
      ∀ earlier ∈ master.checks, earlier.read / 60000 ≠ minute := by
  obtain ⟨⟨moment, shows⟩, all, none⟩ := missed
  have begins := all (moment / 60000 * 60000) ((shows_congr (by omega)).mp shows)
  have ends := all (moment / 60000 * 60000 + 59999) ((shows_congr (by omega)).mp shows)
  exact ⟨moment / 60000, begins.1, ends.2, fun earlier looked same => none earlier looked ((shows_congr same.symm).mp shows)⟩

end

/-- In every run from a boot at any moment, every day has its rollup and its reboot,
    once each and at no other time, if and only if no check misses or repeats a 02:45 or
    a 03:00 and no rollup leaves a 03:00 in the buffer. -/
theorem nightly_iff (zone : Zone) {moment : Nat} {actions : List Action} {last : Master}
    (ran : run (step zone) (firstBoot moment) actions = some last) :
    Always (step zone) (Kept zone) (firstBoot moment) actions ↔
      Throughout (step zone) (OnTime zone) (firstBoot moment) actions :=
  always_iff (fun _ _ _ recorded taken => recorded_step recorded taken)
    (fun _ _ _ recorded kept onTime taken => (kept_step_iff recorded kept taken).mpr onTime) (fun _ kept => kept)
    (fun _ _ _ recorded kept late taken keeps => late ((kept_step_iff recorded kept taken).mp keeps))
    (recorded_first moment) (kept_first moment) ran

end

/-! ## Two nights -/

def utc8 : Zone := ⟨fun _ => 480⟩

/-- An iteration that takes no time, at a moment near 02:45 of the second of January
    2025. -/
def quick (moment : Nat) (sales : List Sale) : Action :=
  .iterate {
    started := moment
    marked := moment
    read := moment
    marked_after := Nat.le_refl _
    read_after := Nat.le_refl _
    reply := .transport
    login := none
    sales }

def quarterToThree : Nat := 1735757100000

def metNight : List Action :=
  [quick (quarterToThree - 30000) [], quick (quarterToThree + 1) [], quick (quarterToThree + 30000) [],
    quick (quarterToThree + 60500) []]

/-- A check half a second before the minute, and iterations half a minute apart. -/
def missedNight : List Action :=
  [quick (quarterToThree - 50500) [], quick (quarterToThree - 20500) [], quick (quarterToThree - 500) [],
    quick (quarterToThree + 29500) [], quick (quarterToThree + 59500) [], quick (quarterToThree + 89500) []]

/-- A coin sale of another night, at 03:00. -/
def saleAtThree : Sale := { ts := 1735671600, coins := 1, min := 12, node := "" }

def leftNight : List Action :=
  [quick (quarterToThree - 30000) [], quick (quarterToThree + 1) [saleAtThree]]

/-- A check is on time if every whole minute since the boot has a check, and no check has
    read the same time. -/
theorem onTime_of_minutes {zone : Zone} {master : Master} {iteration : Iteration}
    (minutes : ∀ minute, master.booted < minute * 60000 → minute * 60000 + 59999 < iteration.read →
      ∃ earlier ∈ master.checks, earlier.read / 60000 = minute)
    (fresh : ∀ earlier ∈ master.checks, localtime zone (time earlier.read) ≠ localtime zone (time iteration.read))
    (notLeft : ¬ (IsRollup (localtime zone (time iteration.read)) ∧ IsReboot (leaves zone iteration))) :
    OnTime zone master (.iterate iteration) := by
  have notMissed (tm : Tm) : ¬ Missed zone tm master iteration := by
    intro missed
    obtain ⟨minute, after, before, none⟩ := missed_minute missed
    obtain ⟨earlier, looked, same⟩ := minutes minute after before
    exact none earlier looked same
  have notRepeated (tm : Tm) : ¬ Repeated zone tm master iteration := by
    rintro ⟨shows, earlier, looked, read⟩
    exact fresh earlier looked (read.trans shows.symm)
  exact fun _ => ⟨fun day => ⟨notMissed _, notRepeated _⟩, fun day => ⟨notMissed _, notRepeated _⟩, notLeft⟩

theorem metNight_onTime : Throughout (step utc8) (OnTime utc8) (firstBoot (quarterToThree - 60000)) metNight := by
  refine ⟨fun due => absurd due (by decide +kernel), fun next taken => ?_⟩
  obtain rfl := (Option.some.inj taken).symm
  refine ⟨onTime_of_minutes ?_ (by decide +kernel) (by decide +kernel), fun next taken => ?_⟩
  · intro minute after before
    change quarterToThree - 60000 < minute * 60000 at after
    change minute * 60000 + 59999 < quarterToThree + 1 at before
    simp only [quarterToThree] at after before
    omega
  obtain rfl := (Option.some.inj taken).symm
  refine ⟨fun due => absurd due (by decide +kernel), fun next taken => ?_⟩
  obtain rfl := (Option.some.inj taken).symm
  refine ⟨onTime_of_minutes ?_ (by decide +kernel) (by decide +kernel), fun next taken => trivial⟩
  intro minute after before
  change quarterToThree - 60000 < minute * 60000 at after
  change minute * 60000 + 59999 < quarterToThree + 60500 at before
  refine ⟨{ marked := quarterToThree + 1, read := quarterToThree + 1 }, by decide +kernel, ?_⟩
  simp only [quarterToThree] at after before ⊢
  omega

theorem nightly_met :
    (run (step utc8) (firstBoot (quarterToThree - 60000)) metNight).map Master.rollups = some [quarterToThree + 1] ∧
      Always (step utc8) (Kept utc8) (firstBoot (quarterToThree - 60000)) metNight :=
  ⟨by decide +kernel, (nightly_iff utc8 rfl).mpr metNight_onTime⟩

/-- A night without a rollup, and one with a reboot at 02:45. -/
theorem night_missed :
    ¬ Always (step utc8) (Kept utc8) (firstBoot (quarterToThree - 60600)) missedNight ∧
      ¬ Always (step utc8) (Kept utc8) (firstBoot (quarterToThree - 60000)) leftNight := by
  refine ⟨fun always => ?_, fun always => ?_⟩
  · have kept := always_last always rfl
    refine absurd ((kept.rollups 20090).2 ⟨⟨quarterToThree, rfl⟩, _, List.mem_cons_self, ?_⟩) (by decide +kernel)
    intro moment shows
    change quarterToThree - 60600 < moment ∧ moment < quarterToThree + 89500
    simp only [Shows, localtime, time, utc8, rollupTime, quarterToThree, Tm.mk.injEq] at shows ⊢
    omega
  · have kept := always_last always rfl
    obtain ⟨day, shows⟩ := kept.only (quarterToThree + 1) (by decide +kernel)
    have hour : (2 : Int) = 3 := congrArg Tm.hour shows
    exact absurd hour (by decide)

end EllaFi.Nightly
