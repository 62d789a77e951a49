import EllaFi.Runs

/-!
Uploads of firmware and of the filesystem. The first chunk of an upload is refused
without an admin's cookie, the last one ends it, and the request that follows restarts
the device. But a request without a body has no chunk: it restarts the device without
being asked for a cookie, or flashes what an upload that broke off has left. Every
other request acts for itself only, so that in a run without such requests all that
is flashed and every restart are those of an authorized and complete upload
(`uploads_justified`).
-/
namespace EllaFi.Uploads
open EllaFi.Runs (run Always Throughout throughout_always always_mono always_last)
universe u

/-! ## The update library -/

/-- The library that writes an image to flash, as its documentation has it. It is in
    some state between the calls; `session` is what it has taken since `begin`. -/
structure UpdateLib where
  State : Type u
  booted : State
  session : State → List UInt8
  begin_ : Nat → State → State × Bool
  /-- The second component is how many bytes were taken. -/
  write : List UInt8 → State → State × Nat
  /-- Commits what was taken, if the call succeeds. -/
  end_ : State → State × Bool
  begin_session : ∀ {size state}, (begin_ size state).2 = true → session (begin_ size state).1 = []
  write_session : ∀ {data state}, (write data state).2 = data.length →
    session (write data state).1 = session state ++ data

/-! ## Requests -/

inductive Route where
  | update
  | updateFs
deriving DecidableEq, Repr

/-- A request with the part of its body that arrives. -/
structure Upload where
  route : Route
  /-- It carries a valid admin cookie. -/
  authorized : Bool
  contentLength : Nat
  chunks : List (List UInt8)
  received : ∀ chunk ∈ chunks, chunk ≠ []
  within : chunks.flatten.length ≤ contentLength

def Upload.body (upload : Upload) : List UInt8 := upload.chunks.flatten

/-- All declared bytes were delivered. -/
def Upload.Complete (upload : Upload) : Prop := upload.body.length = upload.contentLength

instance (upload : Upload) : Decidable upload.Complete := inferInstanceAs (Decidable (_ = _))

/-- What the allocations of a request come to. -/
structure Fates where
  /-- Fresh memory of some length, with what happens to be in it. -/
  allocates : Nat → Option (List UInt8)
  allocates_length : ∀ {size memory}, allocates size = some memory → memory.length = size
  timerCreated : Bool

inductive Event where
  | commitFirmware (bytes : List UInt8)
  | commitFilesystem (bytes : List UInt8)
  | reboot
deriving DecidableEq, Repr

/-- What a timer is to do, for the request that started it. -/
inductive Job where
  | otaReboot
  | fsFlash (bytes : List UInt8)
deriving DecidableEq, Repr

section
variable (lib : UpdateLib.{u})

structure Device where
  update : lib.State
  /-- `FS_PSRAM_BUFFER`, as long as `FS_PSRAM_BUFFER_LEN`. -/
  fsBuffer : Option (List UInt8)
  fsBufferPos : Nat
  timers : List (Job × Upload)
  /-- What was committed and when the device restarted, with the requests that led to it. -/
  log : List (Event × Upload)

def booted (log : List (Event × Upload)) : Device lib :=
  { update := lib.booted, fsBuffer := none, fsBufferPos := 0, timers := [], log }

end

section
variable {lib : UpdateLib.{u}}

def restart (upload : Upload) (device : Device lib) : Device lib := booted lib (device.log ++ [(.reboot, upload)])

/-! ## Callbacks -/

/-- `onUpload` of `/update`; `false` is `ESP_FAIL`. -/
def otaUpload (upload : Upload) (index : Nat) (data : List UInt8) (final : Bool) (device : Device lib) :
    Device lib × Bool :=
  if index = 0 ∧ ¬ upload.authorized then (device, false)
  else
    let begun := if index = 0 then lib.begin_ upload.contentLength device.update else (device.update, true)
    if ¬ begun.2 then ({ device with update := begun.1 }, false)
    else
      let written := lib.write data begun.1
      if written.2 ≠ data.length then ({ device with update := written.1 }, false)
      else if final then
        let ended := lib.end_ written.1
        if ended.2 then
          ({ device with update := ended.1, log := device.log ++ [(.commitFirmware (lib.session written.1), upload)] }, true)
        else ({ device with update := ended.1 }, false)
      else ({ device with update := written.1 }, true)

/-- `onRequest` of `/update`. -/
def otaRequest (upload : Upload) (fates : Fates) (device : Device lib) : Device lib :=
  if fates.timerCreated then { device with timers := device.timers ++ [(.otaReboot, upload)] }
  else restart upload device

/-- Bytes copied into a buffer at a position. -/
def memcpy (buffer : List UInt8) (pos : Nat) (data : List UInt8) : List UInt8 :=
  buffer.take pos ++ data ++ buffer.drop (pos + data.length)

/-- `onUpload` of `/update-fs`; the last chunk is treated like any other. -/
def fsUpload (upload : Upload) (fates : Fates) (index : Nat) (data : List UInt8) (device : Device lib) :
    Device lib × Bool :=
  if index = 0 ∧ ¬ upload.authorized then (device, false)
  else
    let device :=
      if index = 0 then { device with fsBuffer := fates.allocates upload.contentLength, fsBufferPos := 0 } else device
    match device.fsBuffer with
    | some buffer =>
      if device.fsBufferPos + data.length ≤ buffer.length then
        ({ device with
            fsBuffer := some (memcpy buffer device.fsBufferPos data)
            fsBufferPos := device.fsBufferPos + data.length }, true)
      else (device, true)
    | none => (device, true)

/-- `onRequest` of `/update-fs`: what is in the buffer is flashed. -/
def fsRequest (upload : Upload) (fates : Fates) (device : Device lib) : Device lib :=
  match device.fsBuffer with
  | none | some [] => device
  | some buffer =>
    if fates.timerCreated then { device with fsBuffer := none, timers := device.timers ++ [(.fsFlash buffer, upload)] }
    else restart upload device

/-! ## The server -/

/-- The upload callback of a request's route. -/
def uploadChunk (upload : Upload) (fates : Fates) (index : Nat) (chunk : List UInt8) (device : Device lib) :
    Device lib × Bool :=
  match upload.route with
  | .update => otaUpload upload index chunk (index + chunk.length = upload.contentLength) device
  | .updateFs => fsUpload upload fates index chunk device

/-- The callbacks for the chunks of a request, until one of them fails. -/
def uploadChunks (upload : Upload) (fates : Fates) : Nat → List (List UInt8) → Device lib → Device lib × Bool
  | _, [], device => (device, true)
  | index, chunk :: rest, device =>
    let after := uploadChunk upload fates index chunk device
    if after.2 then uploadChunks upload fates (index + chunk.length) rest after.1 else after

/-- The request callback comes after a body that arrived whole, if no upload callback
    failed. -/
def serve (upload : Upload) (fates : Fates) (device : Device lib) : Device lib :=
  let after := uploadChunks upload fates 0 upload.chunks device
  if after.2 ∧ upload.Complete then
    match upload.route with
    | .update => otaRequest upload fates after.1
    | .updateFs => fsRequest upload fates after.1
  else after.1

/-- What a timer does. A flash that fails at any call restarts without a commit. -/
def fire (job : Job) (upload : Upload) (device : Device lib) : Device lib :=
  match job with
  | .otaReboot => restart upload device
  | .fsFlash bytes =>
    let begun := lib.begin_ bytes.length device.update
    let written := lib.write bytes begun.1
    if begun.2 ∧ written.2 = bytes.length ∧ (lib.end_ written.1).2 then
      restart upload { device with log := device.log ++ [(.commitFilesystem (lib.session written.1), upload)] }
    else restart upload device

inductive Action where
  | request (upload : Upload) (fates : Fates)
  /-- The first timer expires. -/
  | timer

def step (device : Device lib) : Action → Option (Device lib)
  | .request upload fates => some (serve upload fates device)
  | .timer =>
    match device.timers with
    | [] => none
    | (job, upload) :: rest => some (fire job upload { device with timers := rest })

/-! ## Authority and completeness -/

/-- The request was authorized and complete, and what is committed is its body. -/
def Justified : Event → Upload → Prop
  | .commitFirmware bytes, upload => upload.authorized ∧ upload.Complete ∧ bytes = upload.body
  | .commitFilesystem bytes, upload => upload.authorized ∧ upload.Complete ∧ bytes = upload.body
  | .reboot, upload => upload.authorized ∧ upload.Complete

instance : ∀ (event : Event) (upload : Upload), Decidable (Justified event upload)
  | .commitFirmware _, _ => inferInstanceAs (Decidable (_ ∧ _))
  | .commitFilesystem _, _ => inferInstanceAs (Decidable (_ ∧ _))
  | .reboot, _ => inferInstanceAs (Decidable (_ ∧ _))

def AllJustified (device : Device lib) : Prop := ∀ entry ∈ device.log, Justified entry.1 entry.2

instance (device : Device lib) : Decidable (AllJustified device) := inferInstanceAs (Decidable (∀ _ ∈ _, _))

/-- A request without a body is an authorized one for firmware, or one for the
    filesystem that finds no buffer. -/
def NoStray (device : Device lib) : Action → Prop
  | .request upload _ =>
    upload.contentLength = 0 →
      (upload.route = .update → upload.authorized) ∧
        (upload.route = .updateFs → device.fsBuffer = none ∨ device.fsBuffer = some [])
  | .timer => True

instance : ∀ (device : Device lib) (action : Action), Decidable (NoStray device action)
  | _, .request _ _ => inferInstanceAs (Decidable (_ → _))
  | _, .timer => instDecidableTrue

/-- Everything that is logged or waits for a timer is justified. -/
structure Sound (device : Device lib) : Prop where
  log : AllJustified device
  timers : ∀ entry ∈ device.timers, Justified .reboot entry.2 ∧ ∀ bytes, entry.1 = .fsFlash bytes → bytes = entry.2.body

/-! ## One request -/

section
variable {upload : Upload} {fates : Fates} {device next : Device lib} {sent chunk : List UInt8}

theorem sound_logged {event : Event} {timers : List (Job × Upload)} {log : List (Event × Upload)}
    {update : lib.State} {fsBuffer : Option (List UInt8)} {fsBufferPos : Nat}
    (sound : Sound { update, fsBuffer, fsBufferPos, timers, log : Device lib }) (justified : Justified event upload) :
    Sound { update, fsBuffer, fsBufferPos, timers, log := log ++ [(event, upload)] : Device lib } where
  log := by
    intro entry inside
    rcases List.mem_append.mp inside with before | last
    · exact sound.log entry before
    · rw [List.mem_singleton.mp last]
      exact justified
  timers := sound.timers

theorem sound_update (sound : Sound device) (update : lib.State) : Sound { device with update } :=
  ⟨sound.log, sound.timers⟩

theorem sound_restart (sound : Sound device) (justified : Justified .reboot upload) :
    Sound (restart upload device) where
  log := (sound_logged sound justified).log
  timers _ inside := absurd inside List.not_mem_nil

theorem sound_timer {job : Job} (sound : Sound device) (justified : Justified .reboot upload)
    (own : ∀ bytes, job = .fsFlash bytes → bytes = upload.body) (fsBuffer : Option (List UInt8)) :
    Sound { device with fsBuffer, timers := device.timers ++ [(job, upload)] } where
  log := sound.log
  timers := by
    intro entry inside
    rcases List.mem_append.mp inside with before | last
    · exact sound.timers entry before
    · rw [List.mem_singleton.mp last]
      exact ⟨justified, own⟩

/-- The library has taken what was sent, as long as more is to come. -/
def OtaTaken (upload : Upload) (sent : List UInt8) (device : Device lib) : Prop :=
  sent = [] ∨ (upload.authorized = true ∧ (sent.length < upload.contentLength → lib.session device.update = sent))

/-- A buffer, if there is one, begins with what was sent. -/
def FsTaken (upload : Upload) (sent : List UInt8) (device : Device lib) : Prop :=
  sent = [] ∨ (upload.authorized = true ∧ ∀ buffer, device.fsBuffer = some buffer →
    buffer.length = upload.contentLength ∧ device.fsBufferPos = sent.length ∧ buffer.take sent.length = sent)

/-- More is to come before a chunk. -/
theorem sent_lt {rest : List UInt8} (whole : sent ++ (chunk ++ rest) = upload.body) (some : chunk ≠ []) :
    sent.length < upload.contentLength := by
  have within := upload.within
  have length := congrArg List.length whole
  have positive := List.length_pos_iff.mpr some
  simp only [List.length_append, Upload.body] at length
  omega

/-- The last chunk ends the body. -/
theorem body_of_final {rest : List UInt8} (whole : sent ++ (chunk ++ rest) = upload.body)
    (final : sent.length + chunk.length = upload.contentLength) : upload.body = sent ++ chunk := by
  have within := upload.within
  have length := congrArg List.length whole
  simp only [List.length_append, Upload.body] at length
  have nothing : rest = [] := List.length_eq_zero_iff.mp (by omega)
  rw [← whole, nothing, List.append_nil]

/-- The first chunk passes only with a cookie. -/
theorem authorized_of_passed (passed : ¬ (sent.length = 0 ∧ ¬ upload.authorized)) (first : sent.length = 0) :
    upload.authorized = true :=
  Bool.of_not_eq_false fun refused => passed ⟨first, by simp [refused]⟩

/-- What the library has taken before a chunk is what was sent before it. -/
theorem ota_begun (taken : OtaTaken upload sent device) (more : sent.length < upload.contentLength)
    (passed : ¬ (sent.length = 0 ∧ ¬ upload.authorized)) {begun : lib.State × Bool}
    (isBegun : begun = if sent.length = 0 then lib.begin_ upload.contentLength device.update else (device.update, true))
    (succeeds : begun.2 = true) : upload.authorized = true ∧ lib.session begun.1 = sent := by
  subst isBegun
  by_cases first : sent.length = 0
  · rw [if_pos first] at succeeds ⊢
    refine ⟨authorized_of_passed passed first, ?_⟩
    rw [lib.begin_session succeeds, List.length_eq_zero_iff.mp first]
  · rw [if_neg first]
    rcases taken with none | ⟨authorized, session⟩
    · exact absurd (List.length_eq_zero_iff.mpr none) first
    · exact ⟨authorized, session more⟩

theorem otaUpload_taken {rest : List UInt8} (sound : Sound device) (taken : OtaTaken upload sent device)
    (whole : sent ++ (chunk ++ rest) = upload.body) (some : chunk ≠ []) {next : Device lib} {passes : Bool}
    (after : otaUpload upload sent.length chunk (sent.length + chunk.length = upload.contentLength) device =
      (next, passes)) :
    Sound next ∧ (passes = true → OtaTaken upload (sent ++ chunk) next) := by
  have more := sent_lt whole some
  unfold otaUpload at after
  split at after
  · cases after
    exact ⟨sound, fun failed => absurd failed Bool.false_ne_true⟩
  next passed =>
  simp only at after
  generalize isBegun :
    (if sent.length = 0 then lib.begin_ upload.contentLength device.update else (device.update, true)) = begun at after
  split at after
  · cases after
    exact ⟨sound_update sound _, fun failed => absurd failed Bool.false_ne_true⟩
  next succeeds =>
  obtain ⟨authorized, session⟩ := ota_begun taken more passed isBegun.symm (Decidable.of_not_not succeeds)
  split at after
  · cases after
    exact ⟨sound_update sound _, fun failed => absurd failed Bool.false_ne_true⟩
  next written =>
  have wrote : lib.session (lib.write chunk begun.1).1 = sent ++ chunk := by
    rw [lib.write_session (Decidable.of_not_not written), session]
  split at after
  · next final =>
    have body := body_of_final whole (of_decide_eq_true final)
    have complete : upload.Complete := by
      rw [Upload.Complete, body, List.length_append]
      exact of_decide_eq_true final
    split at after
    · cases after
      refine ⟨sound_logged (sound_update sound _) ⟨authorized, complete, ?_⟩, fun _ => .inr ⟨authorized, fun less => ?_⟩⟩
      · rw [wrote, body]
      · rw [← body] at less
        exact absurd complete (Nat.ne_of_lt less)
    · cases after
      exact ⟨sound_update sound _, fun failed => absurd failed Bool.false_ne_true⟩
  · cases after
    exact ⟨sound_update sound _, fun _ => .inr ⟨authorized, fun _ => wrote⟩⟩

/-- A chunk is copied behind what was sent, where it fits. -/
theorem memcpy_taken {buffer data : List UInt8} (taken : buffer.take sent.length = sent)
    (fits : sent.length + data.length ≤ buffer.length) :
    (memcpy buffer sent.length data).length = buffer.length ∧
      (memcpy buffer sent.length data).take (sent ++ data).length = sent ++ data := by
  rw [memcpy, taken]
  constructor
  · simp only [List.length_append, List.length_drop]
    omega
  · exact List.take_left' rfl

/-- A buffer that a chunk finds is as long as the body, and begins with what was sent. -/
theorem fs_ready (taken : FsTaken upload sent device) (passed : ¬ (sent.length = 0 ∧ ¬ upload.authorized))
    {ready : Device lib}
    (isReady : ready =
      if sent.length = 0 then { device with fsBuffer := fates.allocates upload.contentLength, fsBufferPos := 0 }
      else device) :
    upload.authorized = true ∧ ∀ buffer, ready.fsBuffer = some buffer →
      buffer.length = upload.contentLength ∧ ready.fsBufferPos = sent.length ∧ buffer.take sent.length = sent := by
  subst isReady
  by_cases first : sent.length = 0
  · rw [if_pos first]
    refine ⟨authorized_of_passed passed first, fun buffer allocated => ?_⟩
    have nothing := List.length_eq_zero_iff.mp first
    exact ⟨fates.allocates_length allocated, first.symm, by rw [nothing]; rfl⟩
  · rw [if_neg first]
    rcases taken with none | held
    · exact absurd (List.length_eq_zero_iff.mpr none) first
    · exact held

theorem fsUpload_taken {rest : List UInt8} (sound : Sound device) (taken : FsTaken upload sent device)
    (whole : sent ++ (chunk ++ rest) = upload.body) {next : Device lib} {passes : Bool}
    (after : fsUpload upload fates sent.length chunk device = (next, passes)) :
    Sound next ∧ (passes = true → FsTaken upload (sent ++ chunk) next) := by
  unfold fsUpload at after
  split at after
  · cases after
    exact ⟨sound, fun failed => absurd failed Bool.false_ne_true⟩
  next passed =>
  simp only at after
  generalize isReady : (if sent.length = 0 then
    { device with fsBuffer := fates.allocates upload.contentLength, fsBufferPos := 0 } else device) = ready at after
  have ready_sound : Sound ready := by
    subst isReady
    split
    · exact ⟨sound.log, sound.timers⟩
    · exact sound
  obtain ⟨authorized, held⟩ := fs_ready taken passed isReady.symm
  split at after
  · next buffer found =>
    obtain ⟨size, pos, begins⟩ := held buffer found
    have within := upload.within
    have length := congrArg List.length whole
    simp only [List.length_append, Upload.body] at length
    have fits : sent.length + chunk.length ≤ buffer.length := by omega
    rw [pos, if_pos fits] at after
    cases after
    obtain ⟨sameSize, longer⟩ := memcpy_taken begins fits
    refine ⟨⟨ready_sound.log, ready_sound.timers⟩, fun _ => .inr ⟨authorized, fun copied isCopied => ?_⟩⟩
    cases isCopied
    exact ⟨sameSize.trans size, List.length_append.symm, longer⟩
  · next none =>
    cases after
    exact ⟨ready_sound, fun _ => .inr ⟨authorized, fun buffer found => absurd found (by simp [none])⟩⟩

/-- The rule for the chunks of a request: what each of them keeps, and what holds of
    the part that was sent as long as none has failed. -/
theorem uploadChunks_rule {Taken : List UInt8 → Device lib → Prop}
    (keeps : ∀ {sent chunk rest : List UInt8} {device : Device lib}, chunk ≠ [] →
      sent ++ (chunk ++ rest) = upload.body → Sound device → Taken sent device →
      Sound (uploadChunk upload fates sent.length chunk device).1 ∧
        ((uploadChunk upload fates sent.length chunk device).2 = true →
          Taken (sent ++ chunk) (uploadChunk upload fates sent.length chunk device).1))
    {rest : List (List UInt8)} (inside : rest ⊆ upload.chunks) (whole : sent ++ rest.flatten = upload.body)
    (sound : Sound device) (taken : Taken sent device) :
    Sound (uploadChunks upload fates sent.length rest device).1 ∧
      ((uploadChunks upload fates sent.length rest device).2 = true →
        Taken upload.body (uploadChunks upload fates sent.length rest device).1) := by
  induction rest generalizing sent device with
  | nil =>
    rw [List.flatten_nil, List.append_nil] at whole
    exact ⟨sound, fun _ => whole ▸ taken⟩
  | cons chunk rest ih =>
    obtain ⟨here, later⟩ := List.cons_subset.mp inside
    rw [List.flatten_cons] at whole
    obtain ⟨soundAfter, takenAfter⟩ := keeps (upload.received chunk here) whole sound taken
    unfold uploadChunks
    by_cases passed : (uploadChunk upload fates sent.length chunk device).2 = true
    · simp only [if_pos passed]
      rw [← List.length_append]
      exact ih later (by rw [List.append_assoc]; exact whole) soundAfter (takenAfter passed)
    · simp only [if_neg passed]
      exact ⟨soundAfter, fun failed => absurd failed passed⟩

theorem otaChunks_taken (route : upload.route = .update) (sound : Sound device) :
    Sound (uploadChunks upload fates 0 upload.chunks device).1 ∧
      ((uploadChunks upload fates 0 upload.chunks device).2 = true →
        OtaTaken upload upload.body (uploadChunks upload fates 0 upload.chunks device).1) := by
  refine @uploadChunks_rule _ upload fates device [] (OtaTaken upload) ?_ upload.chunks (List.Subset.refl _) rfl sound
    (.inl rfl)
  intro sent chunk rest device some whole sound taken
  simp only [uploadChunk, route]
  exact otaUpload_taken sound taken whole some rfl

theorem fsChunks_taken (route : upload.route = .updateFs) (sound : Sound device) :
    Sound (uploadChunks upload fates 0 upload.chunks device).1 ∧
      ((uploadChunks upload fates 0 upload.chunks device).2 = true →
        FsTaken upload upload.body (uploadChunks upload fates 0 upload.chunks device).1) := by
  refine @uploadChunks_rule _ upload fates device [] (FsTaken upload) ?_ upload.chunks (List.Subset.refl _) rfl sound
    (.inl rfl)
  intro sent chunk rest device some whole sound taken
  simp only [uploadChunk, route]
  exact fsUpload_taken sound taken whole rfl

/-! ## One step -/

theorem chunks_of_empty (empty : upload.contentLength = 0) : upload.chunks = [] := by
  have within := upload.within
  rw [empty, Nat.le_zero, List.length_eq_zero_iff, List.flatten_eq_nil_iff] at within
  exact List.eq_nil_iff_forall_not_mem.mpr fun chunk inside => upload.received chunk inside (within chunk inside)

theorem empty_of_body (complete : upload.Complete) (nothing : upload.body = []) : upload.contentLength = 0 := by
  rw [← complete, nothing, List.length_nil]

theorem otaRequest_sound (sound : Sound device) (justified : Justified .reboot upload) :
    Sound (otaRequest upload fates device) := by
  unfold otaRequest
  split
  · exact sound_timer sound justified (fun _ isFlash => Job.noConfusion isFlash) device.fsBuffer
  · exact sound_restart sound justified

/-- A request for the filesystem is sound if the buffer, when there is one, holds the
    body of that request. -/
theorem fsRequest_sound (sound : Sound device)
    (own : ∀ buffer, device.fsBuffer = some buffer → buffer ≠ [] →
      Justified .reboot upload ∧ buffer = upload.body) : Sound (fsRequest upload fates device) := by
  unfold fsRequest
  split
  · exact sound
  · exact sound
  · next buffer some found =>
    obtain ⟨justified, body⟩ := own buffer found some
    split
    · exact sound_timer sound justified (fun bytes same => (Job.fsFlash.inj same).symm.trans body) none
    · exact sound_restart sound justified

/-- After a whole body the buffer is that body. -/
theorem buffer_eq_body (complete : upload.Complete) (some : upload.body ≠ [])
    (taken : FsTaken upload upload.body device) {buffer : List UInt8} (found : device.fsBuffer = .some buffer) :
    Justified .reboot upload ∧ buffer = upload.body := by
  rcases taken with none | ⟨authorized, held⟩
  · exact absurd none some
  · obtain ⟨size, -, begins⟩ := held buffer found
    rw [complete, ← size, List.take_length] at begins
    exact ⟨⟨authorized, complete⟩, begins⟩

theorem serve_sound (sound : Sound device) (noStray : NoStray device (.request upload fates)) :
    Sound (serve upload fates device) := by
  unfold serve
  cases route : upload.route with
  | update =>
    obtain ⟨after, taken⟩ := @otaChunks_taken lib upload fates device route sound
    simp only
    split
    · next passed =>
      refine otaRequest_sound after ⟨?_, passed.2⟩
      rcases taken passed.1 with nothing | ⟨authorized, -⟩
      · exact (noStray (empty_of_body passed.2 nothing)).1 route
      · exact authorized
    · exact after
  | updateFs =>
    obtain ⟨after, taken⟩ := @fsChunks_taken lib upload fates device route sound
    simp only
    split
    · next passed =>
      refine fsRequest_sound after fun buffer found some => ?_
      by_cases nothing : upload.body = []
      · have empty := empty_of_body passed.2 nothing
        rw [chunks_of_empty empty] at found
        simp only [uploadChunks] at found
        rcases (noStray empty).2 route with none | isEmpty
        · rw [none] at found
          cases found
        · rw [isEmpty, Option.some.injEq] at found
          exact absurd found.symm some
      · exact buffer_eq_body passed.2 nothing (taken passed.1) found
    · exact after

/-- The library has taken the bytes of a flash that succeeds. -/
theorem flash_session {bytes : List UInt8} {state : lib.State} (begun : (lib.begin_ bytes.length state).2 = true)
    (written : (lib.write bytes (lib.begin_ bytes.length state).1).2 = bytes.length) :
    lib.session (lib.write bytes (lib.begin_ bytes.length state).1).1 = bytes := by
  rw [lib.write_session written, lib.begin_session begun, List.nil_append]

theorem fire_sound {job : Job} (sound : Sound device) (justified : Justified .reboot upload)
    (own : ∀ bytes, job = .fsFlash bytes → bytes = upload.body) : Sound (fire job upload device) := by
  cases job with
  | otaReboot => exact sound_restart sound justified
  | fsFlash bytes =>
    simp only [fire]
    split
    · next flashed =>
      refine sound_restart (sound_logged (sound_update sound _) ⟨justified.1, justified.2, ?_⟩) justified
      rw [flash_session flashed.1 flashed.2.1]
      exact own bytes rfl
    · exact sound_restart sound justified

theorem step_sound {action : Action} (sound : Sound device) (noStray : NoStray device action)
    (taken : step device action = some next) : Sound next := by
  cases action with
  | request upload fates =>
    cases taken
    exact serve_sound sound noStray
  | timer =>
    simp only [step] at taken
    split at taken
    · cases taken
    · next job upload rest waiting =>
      cases taken
      obtain ⟨justified, own⟩ := sound.timers (job, upload) (by simp [waiting])
      refine fire_sound ⟨sound.log, fun entry inside => sound.timers entry ?_⟩ justified own
      rw [waiting]
      exact List.mem_cons_of_mem _ inside

theorem sound_booted : Sound (booted lib []) := ⟨by simp [AllJustified, booted], by simp [booted]⟩

end
end

/-- In every run without a request that has no body and no cookie, or no body while
    there is a buffer, all that is flashed and every restart are those of an authorized
    and complete request, and what is flashed is its body. -/
theorem uploads_justified (lib : UpdateLib.{u}) {actions : List Action}
    (noStray : Throughout step NoStray (booted lib []) actions) : Always step AllJustified (booted lib []) actions :=
  always_mono (fun _ => Sound.log)
    (throughout_always (fun _ _ _ sound allowed taken => step_sound sound allowed taken) sound_booted noStray)

/-! ## Requests without a body -/

/-- A library that takes all it is given until the session is ended. -/
def flashLib : UpdateLib where
  State := Option (List UInt8)
  booted := none
  session state := state.getD []
  begin_ _ state := if state.isSome then (state, false) else (some [], true)
  write data state := (state.map (· ++ data), if state.isSome then data.length else 0)
  end_ state := (none, state.isSome)
  begin_session := by
    intro size state begun
    cases state with
    | none => rfl
    | some bytes => cases begun
  write_session := by
    intro data state written
    cases state with
    | none =>
      have nothing : data = [] := List.length_eq_zero_iff.mp written.symm
      rw [nothing]
      rfl
    | some bytes => rfl

/-- Memory is found, with zeros in it. -/
def memoryFound : Fates where
  allocates size := some (List.replicate size 0)
  allocates_length := by simp
  timerCreated := true

def firmware : Upload where
  route := .update
  authorized := true
  contentLength := 3
  chunks := [[1, 2], [3]]
  received := by decide
  within := by decide

/-- An upload of four bytes that breaks off after two. -/
def cutOff : Upload where
  route := .updateFs
  authorized := true
  contentLength := 4
  chunks := [[1, 2]]
  received := by decide
  within := by decide

def withoutBody (route : Route) : Upload where
  route
  authorized := false
  contentLength := 0
  chunks := []
  received := by decide
  within := by decide

def wholeUpload : List Action := [.request firmware memoryFound, .timer]

theorem uploads_justified_whole :
    (run step (booted flashLib []) wholeUpload).map (fun device => device.log.map Prod.fst) =
        some [.commitFirmware [1, 2, 3], .reboot] ∧
      Always step AllJustified (booted flashLib []) wholeUpload :=
  ⟨by decide +kernel, uploads_justified flashLib (by decide +kernel)⟩

/-- A request without a cookie or a body restarts the device, or flashes the half of an
    upload that broke off. -/
theorem stray_request_acts :
    (run step (booted flashLib []) [.request (withoutBody .update) memoryFound, .timer]).map Device.log =
        some [(.reboot, withoutBody .update)] ∧
      ¬ Always step AllJustified (booted flashLib []) [.request (withoutBody .update) memoryFound, .timer] ∧
      ¬ Always step AllJustified (booted flashLib [])
        [.request cutOff memoryFound, .request (withoutBody .updateFs) memoryFound, .timer] := by
  refine ⟨rfl, fun always => ?_, fun always => ?_⟩
  · have last := always_last always rfl
    exact absurd last (by decide +kernel)
  · have last := always_last always rfl
    exact absurd last (by decide +kernel)

end EllaFi.Uploads
