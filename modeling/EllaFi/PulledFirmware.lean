import EllaFi.Uploads

/-!
Firmware that a node downloads: a slave from its master, the master from a release. Both
loops write what arrives and count what they have read, not what the update library has
taken, and a slave takes a reply of 404 for success. So a download is committed whole, or
ends with nothing committed, no restart and no open session, exactly when the reply is not
that and a committed image is as long as was declared (`pulled_firmware_iff`). Whatever the
announcements, only one worker of a slave downloads at a time (`one_worker`).
-/
namespace EllaFi.PulledFirmware
open EllaFi.Uploads (UpdateLib)
open EllaFi.Runs (Always throughout_always throughout_all always_mono)
universe u

abbrev Millis : Type := BitVec 32

/-- The update library with its sessions: one is open from a successful `begin` until it is
    aborted or ended, and there is only one. -/
structure Updater extends UpdateLib.{u} where
  abort : State → State
  running : State → Bool
  begin_alone : ∀ {size state}, (begin_ size state).2 = true → running state = false
  begin_refused : ∀ {size state}, (begin_ size state).2 = false → running (begin_ size state).1 = running state
  end_released : ∀ {state}, running (end_ state).1 = false
  abort_released : ∀ {state}, running (abort state) = false

/-! ## The transfer -/

/-- One turn of a download loop while the server is connected. -/
structure Turn where
  avail : Int
  /-- What can be read. -/
  data : List UInt8
  /-- The counter of milliseconds. -/
  now : Millis

/-- How a loop reads. -/
structure Reader where
  bufSize : Nat
  stallMillis : Nat
  /-- Any read counts as progress, or only one that brings something. -/
  anyRead : Bool

def Turn.chunk (reader : Reader) (turn : Turn) : List UInt8 := turn.data.take reader.bufSize

/-- Whether the turn is one of a reader that waits too long. -/
def Turn.Stalls (reader : Reader) (turn : Turn) (lastProgress : Millis) : Prop :=
  turn.avail ≤ 0 ∧ reader.stallMillis < (turn.now - lastProgress).toNat

instance (reader : Reader) (turn : Turn) (lastProgress : Millis) : Decidable (turn.Stalls reader lastProgress) :=
  inferInstanceAs (Decidable (_ ∧ _))

/-- When the reader last saw progress, after the turn. -/
def Turn.progress (reader : Reader) (turn : Turn) (lastProgress : Millis) : Millis :=
  if 0 < turn.avail ∧ (reader.anyRead ∨ turn.chunk reader ≠ []) then turn.now else lastProgress

section
variable (lib : Updater.{u})

/-- A download under way. The library has taken `accepted` bytes of it. -/
structure Transfer where
  update : lib.State
  accepted : Nat
  remaining : Int
  lastProgress : Millis

end

section
variable {lib : Updater.{u}}

/-- What is read is written, and counted as written. -/
def Transfer.store (t : Transfer lib) (chunk : List UInt8) : Transfer lib :=
  if chunk = [] then t
  else
    { t with
      update := (lib.write chunk t.update).1
      accepted := t.accepted + (lib.write chunk t.update).2
      remaining := t.remaining - chunk.length }

/-- The turns of the loop; behind the last one the connection is closed. -/
def Transfer.pull (reader : Reader) (t : Transfer lib) : List Turn → Transfer lib
  | [] => t
  | turn :: rest =>
    if t.remaining ≤ 0 ∨ turn.Stalls reader t.lastProgress then t
    else
      let stored := if 0 < turn.avail then t.store (turn.chunk reader) else t
      ({ stored with lastProgress := turn.progress reader t.lastProgress }).pull reader rest

/-- How a download ends: what was committed, and whether it is reported as a success. -/
structure Flashed (lib : Updater.{u}) where
  update : lib.State
  committed : Option Nat
  success : Bool

/-- A session is ended when nothing remains, and aborted otherwise. -/
def Transfer.finish (t : Transfer lib) : Flashed lib :=
  if 0 < t.remaining then { update := lib.abort t.update, committed := none, success := false }
  else if (lib.end_ t.update).2 then { update := (lib.end_ t.update).1, committed := some t.accepted, success := true }
  else { update := (lib.end_ t.update).1, committed := none, success := false }

end

/-! ## The two downloads -/

/-- A server's answer. -/
structure Response where
  /-- The server is reached. -/
  connects : Bool
  code : Int
  size : Int
  turns : List Turn
  /-- The counter of milliseconds before the first turn. -/
  started : Millis

section
variable {lib : Updater.{u}}

def slaveReader : Reader where
  bufSize := 8192
  stallMillis := 5000
  anyRead := true

/-- `bufAllocated` says whether there is memory for the buffer. -/
def slaveFlashFromUrl (response : Response) (bufAllocated : Bool) (update : lib.State) : Flashed lib :=
  if response.code = 404 then { update, committed := none, success := true }
  else if response.code ≠ 200 then { update, committed := none, success := false }
  else if response.size ≤ 0 then { update, committed := none, success := false }
  else if ¬ (lib.begin_ response.size.toNat update).2 then
    { update := (lib.begin_ response.size.toNat update).1, committed := none, success := false }
  else if ¬ bufAllocated then
    { update := lib.abort (lib.begin_ response.size.toNat update).1, committed := none, success := false }
  else
    let t : Transfer lib :=
      { update := (lib.begin_ response.size.toNat update).1, accepted := 0, remaining := response.size,
        lastProgress := response.started }
    (t.pull slaveReader response.turns).finish

def githubReader : Reader where
  bufSize := 1024
  stallMillis := 10000
  anyRead := false

/-- A stall leaves bytes to be read, so that the session is aborted. -/
def flashFirmwareFromUrl (response : Response) (update : lib.State) : Flashed lib :=
  if ¬ response.connects then { update, committed := none, success := false }
  else if response.code ≠ 200 then { update, committed := none, success := false }
  else if response.size ≤ 0 then { update, committed := none, success := false }
  else if ¬ (lib.begin_ response.size.toNat update).2 then
    { update := (lib.begin_ response.size.toNat update).1, committed := none, success := false }
  else
    let t : Transfer lib :=
      { update := (lib.begin_ response.size.toNat update).1, accepted := 0, remaining := response.size,
        lastProgress := response.started }
    (t.pull githubReader response.turns).finish

/-- What a task leaves. -/
structure Ended (lib : Updater.{u}) where
  update : lib.State
  committed : Option Nat
  rebooted : Bool

def slaveOtaTask (response : Response) (bufAllocated : Bool) (update : lib.State) : Ended lib :=
  let flashed := slaveFlashFromUrl response bufAllocated update
  { update := flashed.update, committed := flashed.committed, rebooted := flashed.success }

/-- None is a release without firmware. -/
def githubOtaTask (response : Option Response) (update : lib.State) : Ended lib :=
  match response with
  | none => { update, committed := none, rebooted := false }
  | some response =>
    let flashed := flashFirmwareFromUrl response update
    { update := flashed.update, committed := flashed.committed, rebooted := flashed.success }

end

/-! ## What arrives and what is taken -/

/-- What the loop reads, turn by turn. -/
def chunks (reader : Reader) (remaining : Int) (lastProgress : Millis) : List Turn → List (List UInt8)
  | [] => []
  | turn :: rest =>
    if remaining ≤ 0 ∨ turn.Stalls reader lastProgress then []
    else
      let chunk := if 0 < turn.avail then turn.chunk reader else []
      chunk :: chunks reader (remaining - chunk.length) (turn.progress reader lastProgress) rest

/-- What a response brings before it stalls or closes. -/
def Response.brings (response : Response) (reader : Reader) : List (List UInt8) :=
  chunks reader response.size response.started response.turns

/-- All declared bytes arrive. -/
def Response.Arrives (response : Response) (reader : Reader) : Prop :=
  response.size ≤ ((response.brings reader).flatten.length : Int)

section
variable {lib : Updater.{u}}

/-- The library after the writes, and how many bytes they have taken. -/
def writeAll (before : lib.State × Nat) (data : List (List UInt8)) : lib.State × Nat :=
  data.foldl (fun s chunk => if chunk = [] then s else ((lib.write chunk s.1).1, s.2 + (lib.write chunk s.1).2)) before

/-- The download begins to read. -/
def Begins (response : Response) (update : lib.State) : Prop :=
  response.code = 200 ∧ 0 < response.size ∧ (lib.begin_ response.size.toNat update).2 = true

/-- If all of the download arrives and is committed, the writes have taken as many bytes as
    were declared. -/
def TakenWhole (reader : Reader) (response : Response) (update : lib.State) : Prop :=
  let written := writeAll (lib.begin_ response.size.toNat update |>.1, 0) (response.brings reader)
  response.Arrives reader → (lib.end_ written.1).2 = true → (written.2 : Int) = response.size

theorem pull_eq (reader : Reader) (t : Transfer lib) (turns : List Turn) :
    ((t.pull reader turns).update, (t.pull reader turns).accepted) =
        writeAll (t.update, t.accepted) (chunks reader t.remaining t.lastProgress turns) ∧
      (t.pull reader turns).remaining = t.remaining - (chunks reader t.remaining t.lastProgress turns).flatten.length := by
  induction turns generalizing t with
  | nil => exact ⟨rfl, (Int.sub_zero _).symm⟩
  | cons turn rest ih =>
    unfold Transfer.pull chunks
    by_cases ended : t.remaining ≤ 0 ∨ turn.Stalls reader t.lastProgress
    · rw [if_pos ended, if_pos ended]
      exact ⟨rfl, (Int.sub_zero _).symm⟩
    · rw [if_neg ended, if_neg ended]
      have stored : (if 0 < turn.avail then t.store (turn.chunk reader) else t) =
          t.store (if 0 < turn.avail then turn.chunk reader else []) := by
        split
        · rfl
        · rfl
      simp only [stored]
      generalize (if 0 < turn.avail then turn.chunk reader else []) = chunk
      obtain ⟨written, remaining⟩ := ih { t.store chunk with lastProgress := turn.progress reader t.lastProgress }
      have left : (t.store chunk).remaining = t.remaining - chunk.length := by
        unfold Transfer.store
        split
        · next empty => simp [empty]
        · rfl
      rw [written, remaining, left, List.flatten_cons, List.length_append]
      refine ⟨?_, by push_cast; omega⟩
      rw [writeAll, writeAll, List.foldl_cons]
      congr 1
      unfold Transfer.store
      split <;> rfl

theorem writeAll_full (full : ∀ data (state : lib.State), (lib.write data state).2 = data.length) (before : lib.State × Nat)
    (data : List (List UInt8)) : (writeAll before data).2 = before.2 + data.flatten.length := by
  induction data generalizing before with
  | nil => rfl
  | cons chunk rest ih =>
    rw [writeAll, List.foldl_cons, ← writeAll, ih, List.flatten_cons, List.length_append]
    split
    · next empty => simp [empty]
    · rw [full, Nat.add_assoc]

/-- Where every write takes all that it is given, and no more arrives than was declared, the
    writes take what was declared. -/
theorem takenWhole_of_full (full : ∀ data (state : lib.State), (lib.write data state).2 = data.length) {reader : Reader}
    {response : Response} {update : lib.State} (most : ((response.brings reader).flatten.length : Int) ≤ response.size) :
    TakenWhole reader response update := by
  intro arrives _
  rw [writeAll_full full, Nat.zero_add]
  exact le_antisymm most arrives

/-! ## Downloads -/

/-- A download is committed whole, or leaves everything as it was. -/
def Sound (size : Int) (before : lib.State) (ended : Ended lib) : Prop :=
  (∃ n : Nat, ended.committed = some n ∧ (n : Int) = size) ∨
    (ended.committed = none ∧ ¬ ended.rebooted ∧ lib.running ended.update = lib.running before)

def Flashed.ended (flashed : Flashed lib) : Ended lib :=
  { update := flashed.update, committed := flashed.committed, rebooted := flashed.success }

theorem sound_refused {size : Int} {before update : lib.State} (released : lib.running update = lib.running before) :
    Sound size before { update, committed := none, rebooted := false } := .inr ⟨rfl, Bool.false_ne_true, released⟩

/-- From the first read on, all depends on what the library takes. -/
theorem sound_pulled {reader : Reader} {response : Response} {update : lib.State}
    (begun : (lib.begin_ response.size.toNat update).2 = true) :
    Sound response.size update (Flashed.ended (Transfer.finish (Transfer.pull reader
      { update := (lib.begin_ response.size.toNat update).1, accepted := 0, remaining := response.size,
        lastProgress := response.started } response.turns))) ↔ TakenWhole reader response update := by
  have alone := lib.begin_alone begun
  obtain ⟨written, remaining⟩ := pull_eq reader
    { update := (lib.begin_ response.size.toNat update).1, accepted := 0, remaining := response.size,
      lastProgress := response.started : Transfer lib } response.turns
  generalize Transfer.pull reader _ response.turns = t at written remaining ⊢
  change (t.update, t.accepted) = writeAll ((lib.begin_ response.size.toNat update).1, 0) (response.brings reader) at written
  change t.remaining = response.size - (response.brings reader).flatten.length at remaining
  unfold TakenWhole Transfer.finish Response.Arrives
  rw [← written]
  dsimp only
  by_cases short : 0 < t.remaining
  · rw [if_pos short]
    refine iff_of_true (sound_refused (lib.abort_released.trans alone.symm)) fun arrives => ?_
    omega
  · rw [if_neg short]
    by_cases ends : (lib.end_ t.update).2 = true
    · rw [if_pos ends]
      constructor
      · rintro (⟨n, same, whole⟩ | ⟨none_, -⟩) - -
        · obtain rfl := Option.some.inj same
          exact whole
        · cases none_
      · exact fun whole => .inl ⟨t.accepted, rfl, whole (by omega) ends⟩
    · rw [if_neg ends]
      exact iff_of_true (sound_refused (lib.end_released.trans alone.symm)) fun _ ended => absurd ended ends

/-- Until the session has begun, a download that goes no further leaves everything. -/
theorem sound_begins {response : Response} {update : lib.State} {rest : Flashed lib} {Faultless : Prop}
    (begun : Begins response update → (Sound response.size update rest.ended ↔ Faultless)) :
    Sound response.size update (Flashed.ended
        (if response.code ≠ 200 then { update, committed := none, success := false }
        else if response.size ≤ 0 then { update, committed := none, success := false }
        else if ¬ (lib.begin_ response.size.toNat update).2 then
          { update := (lib.begin_ response.size.toNat update).1, committed := none, success := false }
        else rest)) ↔
      (Begins response update → Faultless) := by
  by_cases answered : response.code = 200
  · rw [if_neg (not_not.mpr answered)]
    by_cases known : response.size ≤ 0
    · rw [if_pos known]
      exact iff_of_true (sound_refused rfl) fun begins => absurd begins.2.1 (by omega)
    · rw [if_neg known]
      by_cases opened : (lib.begin_ response.size.toNat update).2 = true
      · have begins : Begins response update := ⟨answered, by omega, opened⟩
        rw [if_neg (not_not.mpr opened), begun begins]
        exact (imp_iff_right begins).symm
      · rw [if_pos opened]
        refine iff_of_true (sound_refused (lib.begin_refused (Bool.eq_false_of_not_eq_true opened))) fun begins => ?_
        exact absurd begins.2.2 opened
  · rw [if_pos answered]
    exact iff_of_true (sound_refused rfl) fun begins => absurd begins.1 answered

theorem slaveOtaTask_eq (response : Response) (bufAllocated : Bool) (update : lib.State) :
    slaveOtaTask response bufAllocated update = (slaveFlashFromUrl response bufAllocated update).ended := rfl

/-- A slave takes a missing image for a whole one. -/
theorem slave_sound_iff (response : Response) (bufAllocated : Bool) (update : lib.State) :
    Sound response.size update (slaveOtaTask response bufAllocated update) ↔
      response.code ≠ 404 ∧ (Begins response update → bufAllocated → TakenWhole slaveReader response update) := by
  rw [slaveOtaTask_eq, slaveFlashFromUrl]
  by_cases missing : response.code = 404
  · rw [if_pos missing]
    refine iff_of_false ?_ fun faultless => faultless.1 missing
    rintro (⟨n, same, -⟩ | ⟨-, stays, -⟩)
    · cases same
    · exact stays rfl
  · rw [if_neg missing, and_iff_right missing]
    refine sound_begins fun begins => ?_
    by_cases room : bufAllocated = true
    · rw [if_neg (not_not.mpr room), imp_iff_right room]
      exact sound_pulled begins.2.2
    · rw [if_pos room]
      exact iff_of_true (sound_refused (lib.abort_released.trans (lib.begin_alone begins.2.2).symm)) fun has => absurd has room

theorem github_sound_iff (response : Option Response) (update : lib.State) :
    Sound ((response.map (·.size)).getD 0) update (githubOtaTask response update) ↔
      ∀ r ∈ response, r.connects → Begins r update → TakenWhole githubReader r update := by
  cases response with
  | none => exact iff_of_true (sound_refused rfl) nofun
  | some response =>
    have ended : githubOtaTask (some response) update = (flashFirmwareFromUrl response update).ended := rfl
    simp only [ended, Option.mem_def, Option.some.injEq, forall_eq', Option.map_some, Option.getD_some]
    rw [flashFirmwareFromUrl]
    by_cases connects : response.connects = true
    · rw [if_neg (not_not.mpr connects), imp_iff_right connects]
      exact sound_begins fun begins => sound_pulled begins.2.2
    · rw [if_pos connects]
      exact iff_of_true (sound_refused rfl) fun connected => absurd connected connects

end

/-! ## A slave's workers -/

/-- A worker downloads; then it has failed, or is about to restart the slave; a failed one
    clears the flag and is deleted. -/
inductive Phase where
  | downloading
  | failed
  | rebooting
  | leaving
deriving DecidableEq, Repr

structure Slave (lib : Updater.{u}) where
  update : lib.State
  otaInProgress : Bool
  workers : List Phase

inductive Action where
  /-- An announcement: whether it names this slave, and whether memory and a task are found. -/
  | announced (forUs allocated created : Bool)
  | flashed (worker : Nat) (response : Response) (bufAllocated : Bool)
  | cleared (worker : Nat)
  | deleted (worker : Nat)
  | restarted

section
variable {lib : Updater.{u}}

def boot (lib : Updater.{u}) : Slave lib := { update := lib.booted, otaInProgress := false, workers := [] }

/-- The branch of `networkLoop` for an announcement. -/
def receiveAnnouncement (forUs allocated created : Bool) (s : Slave lib) : Slave lib :=
  if s.otaInProgress then s
  else if ¬ forUs then s
  else if ¬ allocated then s
  else if created then { s with otaInProgress := true, workers := s.workers ++ [Phase.downloading] }
  else { s with otaInProgress := false }

/-- The slave restarts at any time, and after a download that is reported as a success. -/
def step (s : Slave lib) : Action → Option (Slave lib)
  | .announced forUs allocated created => some (receiveAnnouncement forUs allocated created s)
  | .flashed worker response bufAllocated =>
    if s.workers[worker]? = some .downloading then
      let flashed := slaveFlashFromUrl response bufAllocated s.update
      some { s with
        update := flashed.update
        workers := s.workers.set worker (if flashed.success then .rebooting else .failed) }
    else none
  | .cleared worker =>
    if s.workers[worker]? = some .failed then some { s with otaInProgress := false, workers := s.workers.set worker .leaving }
    else none
  | .deleted worker =>
    if s.workers[worker]? = some .leaving then some { s with workers := s.workers.eraseIdx worker } else none
  | .restarted => some (boot lib)

/-- The workers that have not given up yet. -/
def Slave.active (s : Slave lib) : Nat := s.workers.countP (· ≠ .leaving)

def AtMostOne (s : Slave lib) : Prop := s.active ≤ 1

/-- A worker holds the flag for as long as it is active. -/
structure Guarded (s : Slave lib) : Prop where
  atMostOne : AtMostOne s
  flagged : s.otaInProgress = false → s.active = 0

theorem active_set {s : Slave lib} {worker : Nat} {phase : Phase} (found : s.workers[worker]? = some phase) (new : Phase) :
    (s.workers.set worker new).countP (· ≠ .leaving) + (if phase ≠ .leaving then 1 else 0) =
      s.active + (if new ≠ .leaving then 1 else 0) := by
  obtain ⟨inside, rfl⟩ := List.getElem?_eq_some_iff.mp found
  have here := List.boole_getElem_le_countP (p := fun phase => decide (phase ≠ Phase.leaving)) inside
  rw [List.countP_set inside, Slave.active]
  simp only [decide_eq_true_eq] at here ⊢
  omega

theorem guarded_announcement {s : Slave lib} (guarded : Guarded s) (forUs allocated created : Bool) :
    Guarded (receiveAnnouncement forUs allocated created s) := by
  unfold receiveAnnouncement
  by_cases busy : s.otaInProgress = true
  · rw [if_pos busy]
    exact guarded
  · have none_ := guarded.flagged (Bool.eq_false_of_not_eq_true busy)
    have idle : s.workers.countP (· ≠ .leaving) = 0 := none_
    rw [if_neg busy]
    split
    · exact guarded
    · split
      · exact guarded
      · split
        · refine ⟨?_, nofun⟩
          rw [AtMostOne, Slave.active, List.countP_append, idle]
          exact le_rfl
        · exact ⟨guarded.atMostOne, fun _ => none_⟩

theorem guarded_step {s next : Slave lib} {a : Action} (guarded : Guarded s) (taken : step s a = some next) : Guarded next := by
  have atMostOne : s.active ≤ 1 := guarded.atMostOne
  cases a with
  | announced forUs allocated created =>
    obtain rfl := Option.some.inj taken
    exact guarded_announcement guarded forUs allocated created
  | flashed worker response bufAllocated =>
    simp only [step] at taken
    split at taken
    · next found =>
      obtain rfl := Option.some.inj taken
      have stays : (if (slaveFlashFromUrl response bufAllocated s.update).success then Phase.rebooting else .failed) ≠ .leaving := by
        split <;> decide
      generalize (if (slaveFlashFromUrl response bufAllocated s.update).success then Phase.rebooting else .failed) = new at stays ⊢
      have counts := active_set found new
      rw [if_pos (by decide), if_pos stays] at counts
      have same := Nat.add_right_cancel counts
      exact ⟨same.le.trans atMostOne, fun clear => same.trans (guarded.flagged clear)⟩
    · cases taken
  | cleared worker =>
    simp only [step] at taken
    split at taken
    · next found =>
      obtain rfl := Option.some.inj taken
      have counts := active_set found .leaving
      rw [if_pos (by decide), if_neg (by decide)] at counts
      have none_ : (s.workers.set worker .leaving).countP (· ≠ .leaving) = 0 := by omega
      exact ⟨none_.le.trans (Nat.zero_le 1), fun _ => none_⟩
    · cases taken
  | deleted worker =>
    simp only [step] at taken
    split at taken
    · obtain rfl := Option.some.inj taken
      have fewer : (s.workers.eraseIdx worker).countP (· ≠ .leaving) ≤ s.active := (List.eraseIdx_sublist _ _).countP_le
      exact ⟨fewer.trans atMostOne, fun clear => Nat.le_zero.mp (fewer.trans (guarded.flagged clear).le)⟩
    · cases taken
  | restarted =>
    obtain rfl := Option.some.inj taken
    exact ⟨Nat.zero_le 1, fun _ => rfl⟩

/-- Whatever is announced, one worker at most is active. -/
theorem one_worker (actions : List Action) : Always step AtMostOne (boot lib) actions :=
  always_mono (fun _ guarded => guarded.atMostOne)
    (throughout_always (fun _ _ _ guarded _ taken => guarded_step guarded taken) ⟨Nat.zero_le 1, fun _ => rfl⟩
      (throughout_all fun _ _ => trivial))

/-- A slave's download is committed whole, or leaves everything as it was, exactly when the
    image is not missing and what is committed has the declared length; the master's exactly
    when the latter holds; and one worker of a slave downloads at a time. -/
theorem pulled_firmware_iff (lib : Updater.{u}) :
    (∀ (response : Response) (bufAllocated : Bool) (update : lib.State),
      Sound response.size update (slaveOtaTask response bufAllocated update) ↔
        response.code ≠ 404 ∧ (Begins response update → bufAllocated → TakenWhole slaveReader response update)) ∧
    (∀ (response : Option Response) (update : lib.State),
      Sound ((response.map (·.size)).getD 0) update (githubOtaTask response update) ↔
        ∀ r ∈ response, r.connects → Begins r update → TakenWhole githubReader r update) ∧
    ∀ actions : List Action, Always step AtMostOne (boot lib) actions :=
  ⟨slave_sound_iff, github_sound_iff, one_worker⟩

end

/-! ## Two downloads -/

/-- The library of the uploads, with its sessions. -/
def flashUpdater : Updater :=
  { Uploads.flashLib with
    abort := fun _ => none
    running := Option.isSome
    begin_alone := by
      rintro size (_ | bytes) begun
      · rfl
      · cases begun
    begin_refused := by
      rintro size (_ | bytes) refused
      · cases refused
      · rfl
    end_released := rfl
    abort_released := rfl }

/-- The same, but no write takes anything. -/
def stuckUpdater : Updater :=
  { flashUpdater with
    write := fun _ state => (state, 0)
    write_session := by
      intro data state written
      obtain rfl : data = [] := List.length_eq_zero_iff.mp written.symm
      exact (List.append_nil _).symm }

/-- The master has no image to serve. -/
def missing : Response := { connects := true, code := 404, size := -1, turns := [], started := 0 }

def threeBytes : Response where
  connects := true
  code := 200
  size := 3
  turns := [{ avail := 3, data := [1, 2, 3], now := 0 }]
  started := 0

/-- The slave restarts with nothing committed; and an image of which no byte was taken is
    committed. -/
theorem missing_image_restarts :
    ((slaveOtaTask missing true none : Ended flashUpdater).rebooted ∧
      (slaveOtaTask missing true none : Ended flashUpdater).committed = none ∧
      ¬ Sound missing.size none (slaveOtaTask missing true none : Ended flashUpdater)) ∧
    ((githubOtaTask (some threeBytes) none : Ended stuckUpdater).committed = some 0 ∧
      ¬ Sound threeBytes.size none (githubOtaTask (some threeBytes) none : Ended stuckUpdater)) := by
  refine ⟨⟨rfl, rfl, fun sound => ?_⟩, rfl, fun sound => ?_⟩
  · exact ((slave_sound_iff missing true _).mp sound).1 rfl
  · have taken := (github_sound_iff (some threeBytes) _).mp sound threeBytes rfl rfl ⟨rfl, by decide, rfl⟩
    have arrives : threeBytes.Arrives githubReader := by
      unfold Response.Arrives
      decide
    exact absurd (taken arrives rfl) (by decide)

end EllaFi.PulledFirmware
