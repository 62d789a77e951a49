import EllaFi.Rings
import EllaFi.Runs
import Mathlib.Data.List.TakeWhile

/-!
The log of the admin page. The last 200 entries are in a ring, each with its sequence
number; a poll returns at most 50 that are newer than a number, and the newest number of
all, which it reads a second time, and the page asks for what is newer than that the next
time. Where no more than 50 entries are new and none is written between the two reads, the
page receives every entry in its order and once (`polling_complete`); otherwise it passes
over the rest (`burst_is_lost`).
-/
namespace EllaFi.LogPolling
open EllaFi.Rings
open EllaFi.Runs (run Throughout Always throughout_always always_mono always_last)

/-! ## The ring -/

def logBufEntries : Nat := 200
def logBufTagLen : Nat := 16
def logBufMsgLen : Nat := 128

/-- What is logged. -/
structure Line where
  uptimeMs : Nat
  ts : Int
  level : Char
  tag : List UInt8
  msg : List UInt8
deriving DecidableEq

/-- An entry, with how many had been written when it was. -/
structure LogEntry where
  number : Nat
  line : Line
deriving DecidableEq

/-- The sequence numbers have 32 bits. -/
def LogEntry.seq (e : LogEntry) : Nat := e.number % 4294967296

def blankEntry : LogEntry := { number := 0, line := { uptimeMs := 0, ts := 0, level := Char.ofNat 0, tag := [], msg := [] } }

/-- The ring, `LOG_COUNT`, and how many entries have been written; `LOG_SEQUENCE` is the
    latter in 32 bits. -/
structure LogBuffer where
  ring : Ring LogEntry logBufEntries
  count : Nat
  written : Nat

def emptyLog : LogBuffer where
  ring := Ring.blank blankEntry logBufEntries (by decide)
  count := 0
  written := 0

/-- A text that is too long is cut off. -/
def truncated (line : Line) : Line :=
  { line with tag := line.tag.take (logBufTagLen - 1), msg := line.msg.take (logBufMsgLen - 1) }

/-- Nothing is written without the lock. -/
def logDirect (locked : Bool) (line : Line) (log : LogBuffer) : LogBuffer :=
  if locked then
    { ring := log.ring.push { number := log.written + 1, line := truncated line }
      count := if log.count < logBufEntries then log.count + 1 else log.count
      written := log.written + 1 }
  else log

/-- The entries in the ring, from the oldest on. -/
def LogBuffer.entries (log : LogBuffer) : List LogEntry :=
  let start := (log.ring.next + logBufEntries - log.count) % logBufEntries
  (List.range log.count).map fun i => log.ring.slots.getD ((start + i) % logBufEntries) blankEntry

/-- The entries that are newer than a number. -/
def LogBuffer.newer (log : LogBuffer) (sinceSeq : Nat) : List LogEntry := log.entries.filter (sinceSeq < ·.seq)

def logBufferSnapshot (locked : Bool) (maxOut sinceSeq : Nat) (log : LogBuffer) : List LogEntry :=
  if locked then (log.newer sinceSeq).take maxOut else []

def logBufferLastSeq (locked : Bool) (log : LogBuffer) : Nat := if locked then log.written % 4294967296 else 0

/-! ## Polls -/

/-- What happens in a poll. -/
structure Poll where
  allocated : Bool
  snapshotLocked : Bool
  /-- Logged between the two reads. -/
  between : List Line
  seqLocked : Bool
  /-- The answer is received and parsed. -/
  arrives : Bool

def batch : Nat := 50

/-- `atoi` stops at the largest `int`. -/
def sinceParam (since : Nat) : Nat := min since 2147483647

structure Response where
  seq : Nat
  entries : List LogEntry

def writeAll (lines : List Line) (log : LogBuffer) : LogBuffer := lines.foldl (fun log line => logDirect true line log) log

/-- None is an error of the server. -/
def handleAdminLog (p : Poll) (sinceSeq : Nat) (log : LogBuffer) : LogBuffer × Option Response :=
  if p.allocated then
    let entries := logBufferSnapshot p.snapshotLocked batch sinceSeq log
    let log := writeAll p.between log
    (log, some { seq := logBufferLastSeq p.seqLocked log, entries })
  else (log, none)

/-- The page: what it asks for next, and what it has received. -/
structure Page where
  devLogSince : Nat
  received : List LogEntry

/-- An answer without entries changes nothing. -/
def pollDevLog (answer : Option Response) (page : Page) : Page :=
  match answer with
  | none => page
  | some d => if d.entries = [] then page else { devLogSince := d.seq, received := page.received ++ d.entries }

/-! ## Runs -/

/-- The log and the page, and the entries that the last answered poll has found in the
    ring. -/
structure Watch where
  log : LogBuffer
  page : Page
  polled : List LogEntry

def start : Watch := { log := emptyLog, page := { devLogSince := 0, received := [] }, polled := [] }

inductive Action where
  | logged (locked : Bool) (line : Line)
  | polls (p : Poll)

/-- The poll reads the ring, and its answer arrives. -/
def Poll.answered (p : Poll) : Prop := p.allocated ∧ p.snapshotLocked ∧ p.arrives

instance (p : Poll) : Decidable p.answered := inferInstanceAs (Decidable (_ ∧ _ ∧ _))

def step (w : Watch) : Action → Option Watch
  | .logged locked line => some { w with log := logDirect locked line w.log }
  | .polls p =>
    let handled := handleAdminLog p (sinceParam w.page.devLogSince) w.log
    some
      { log := handled.1
        page := if p.arrives then pollDevLog handled.2 w.page else w.page
        polled := if p.answered then w.log.entries else w.polled }

/-- What is received is received in order and once, and no entry that a poll has found is
    passed over for a later one. -/
structure Complete (w : Watch) : Prop where
  ordered : w.page.received.Pairwise fun earlier later => earlier.number < later.number
  gapless : ∀ e ∈ w.polled, ∀ later ∈ w.page.received, e.number < later.number → e ∈ w.page.received

/-- Every entry that a poll has found is received. -/
def CaughtUp (w : Watch) : Prop := ∀ e ∈ w.polled, e ∈ w.page.received

/-- An answered poll that finds new entries finds at most 50, none is written between its
    reads, and the second one has the lock. The sequence numbers stay within an `int`. -/
def Calm (w : Watch) : Action → Prop
  | .logged .. => w.log.written + 1 < 2147483648
  | .polls p =>
    w.log.written + p.between.length < 2147483648 ∧
      (p.answered → w.log.newer (sinceParam w.page.devLogSince) ≠ [] →
        (w.log.newer (sinceParam w.page.devLogSince)).length ≤ batch ∧ p.between = [] ∧ p.seqLocked)

/-! ## What is in the ring -/

/-- The ring holds the last of all entries, which are numbered from 1 on. -/
structure Records (log : LogBuffer) (all : List LogEntry) : Prop where
  recalls : Recalls blankEntry log.ring all
  counted : log.count = min all.length logBufEntries
  written : log.written = all.length
  numbered : all.map (·.number) = List.range' 1 all.length

section
variable {log : LogBuffer} {all : List LogEntry} {e : LogEntry}

theorem records_empty : Records emptyLog [] where
  recalls := recalls_blank blankEntry (by decide)
  counted := rfl
  written := rfl
  numbered := rfl

theorem records_logDirect (records : Records log all) (line : Line) :
    Records (logDirect true line log) (all ++ [{ number := log.written + 1, line := truncated line }]) where
  recalls := recalls_push records.recalls _
  counted := by
    have counted := records.counted
    simp only [logDirect, if_true, List.length_append, List.length_singleton]
    split <;> omega
  written := by simp [logDirect, records.written]
  numbered := by simp [records.numbered, records.written, List.range'_concat, Nat.add_comm]

theorem records_entries (records : Records log all) : log.entries = all.drop (all.length - logBufEntries) := by
  have few : log.count ≤ logBufEntries := by rw [records.counted]; exact Nat.min_le_right ..
  have window : log.entries = log.ring.contents.drop (logBufEntries - log.count) :=
    contents_window log.ring blankEntry few
  rw [window, records.recalls, List.drop_drop, records.counted]
  rcases Nat.le_total all.length logBufEntries with short | long
  · rw [Nat.min_eq_left short, Nat.add_sub_cancel' short, Nat.sub_eq_zero_of_le short, List.drop_zero]
    exact List.drop_left' List.length_replicate
  · rw [Nat.min_eq_right long, Nat.sub_self, Nat.add_zero, List.drop_append, List.length_replicate,
      List.drop_of_length_le (by rw [List.length_replicate]; exact long), List.nil_append]

theorem records_ordered (records : Records log all) : all.Pairwise fun earlier later => earlier.number < later.number := by
  have numbers : (all.map (·.number)).Pairwise (· < ·) := by
    rw [records.numbered]
    exact List.pairwise_lt_range'
  exact List.pairwise_map.mp numbers

theorem records_bounded (records : Records log all) (inside : e ∈ all) : e.number ≤ log.written := by
  have number : e.number ∈ List.range' 1 all.length := records.numbered ▸ List.mem_map_of_mem inside
  rw [records.written]
  have bound := List.mem_range'_1.mp number
  omega

theorem entries_ordered (records : Records log all) :
    log.entries.Pairwise fun earlier later => earlier.number < later.number := by
  rw [records_entries records]
  exact (records_ordered records).sublist (List.drop_sublist ..)

theorem entries_bounded (records : Records log all) (inside : e ∈ log.entries) : e.number ≤ log.written := by
  rw [records_entries records] at inside
  exact records_bounded records (List.mem_of_mem_drop inside)

/-- A write adds the newest entry and may drop the oldest one. -/
theorem entries_logDirect (records : Records log all) {line : Line} (inside : e ∈ (logDirect true line log).entries) :
    e ∈ log.entries ∨ e.number = log.written + 1 := by
  rw [records_entries (records_logDirect records line)] at inside
  rw [records_entries records]
  generalize added : LogEntry.mk (log.written + 1) (truncated line) = entry at inside
  have fewer : all.length - logBufEntries ≤ (all ++ [entry]).length - logBufEntries := by
    rw [List.length_append]
    omega
  have within : e ∈ (all ++ [entry]).drop (all.length - logBufEntries) := List.drop_subset_drop_left _ fewer inside
  rw [List.drop_append_of_le_length (Nat.sub_le ..)] at within
  rcases List.mem_append.mp within with old | new
  · exact .inl old
  · exact .inr (by rw [List.mem_singleton.mp new, ← added])

/-- While the numbers fit in an `int`, the sequence numbers are the numbers, and the page
    is sent what has a greater one than it knows. -/
theorem mem_newer (records : Records log all) {since : Nat} (known : since ≤ log.written) (fits : log.written < 2147483648) :
    e ∈ log.newer (sinceParam since) ↔ e ∈ log.entries ∧ since < e.number := by
  have clamped : sinceParam since = since := Nat.min_eq_left (by omega)
  simp only [LogBuffer.newer, List.mem_filter, clamped, decide_eq_true_eq]
  refine and_congr_right fun inside => ?_
  have bound := entries_bounded records inside
  rw [LogEntry.seq, Nat.mod_eq_of_lt (by omega)]

end

/-! ## The invariant -/

/-- The page has everything in the ring that is not newer than what it asks for. -/
structure Synced (w : Watch) : Prop where
  recorded : ∃ all, Records w.log all
  fits : w.log.written < 2147483648
  ordered : w.page.received.Pairwise fun earlier later => earlier.number < later.number
  seen : ∀ e ∈ w.page.received, e.number ≤ w.page.devLogSince
  known : w.page.devLogSince ≤ w.log.written
  passed : ∀ e ∈ w.log.entries, e.number ≤ w.page.devLogSince → e ∈ w.page.received
  caughtUp : CaughtUp w

theorem synced_start : Synced start where
  recorded := ⟨[], records_empty⟩
  fits := by decide
  ordered := List.Pairwise.nil
  seen := List.forall_mem_nil _
  known := Nat.le_refl 0
  passed := List.forall_mem_nil _
  caughtUp := List.forall_mem_nil _

section
variable {w next : Watch}

theorem synced_logDirect (synced : Synced w) (line : Line) (fits : w.log.written + 1 < 2147483648) :
    Synced { w with log := logDirect true line w.log } := by
  obtain ⟨all, records⟩ := synced.recorded
  exact
    { recorded := ⟨_, records_logDirect records line⟩
      fits
      ordered := synced.ordered
      seen := synced.seen
      known := Nat.le_succ_of_le synced.known
      passed := fun e inside old => by
        have known := synced.known
        rcases entries_logDirect records inside with before | new
        · exact synced.passed e before old
        · simp only at old
          omega
      caughtUp := synced.caughtUp }

theorem synced_writeAll (synced : Synced w) (lines : List Line) (fits : w.log.written + lines.length < 2147483648) :
    Synced { w with log := writeAll lines w.log } := by
  induction lines generalizing w with
  | nil => exact synced
  | cons line rest ih =>
    rw [List.length_cons] at fits
    refine ih (synced_logDirect synced line (by omega)) ?_
    simp only [logDirect, if_true]
    omega

/-- A poll that finds nothing new. -/
theorem synced_idle (synced : Synced w) (nothing : w.log.newer (sinceParam w.page.devLogSince) = []) :
    Synced { w with polled := w.log.entries } := by
  obtain ⟨all, records⟩ := synced.recorded
  refine { synced with caughtUp := fun e inside => synced.passed e inside ?_ }
  by_contra later
  have new := (mem_newer records synced.known synced.fits).mpr ⟨inside, Nat.lt_of_not_le later⟩
  rw [nothing] at new
  exact List.not_mem_nil new

/-- A poll that finds new entries and takes them all. -/
theorem synced_caughtUp (synced : Synced w) :
    Synced
      { w with
        page :=
          { devLogSince := w.log.written
            received := w.page.received ++ w.log.newer (sinceParam w.page.devLogSince) }
        polled := w.log.entries } := by
  obtain ⟨all, records⟩ := synced.recorded
  have newer {e : LogEntry} := mem_newer (e := e) records synced.known synced.fits
  have taken : ∀ e ∈ w.log.entries, e ∈ w.page.received ++ w.log.newer (sinceParam w.page.devLogSince) := by
    intro e inside
    rcases Nat.lt_or_ge w.page.devLogSince e.number with new | old
    · exact List.mem_append_right _ (newer.mpr ⟨inside, new⟩)
    · exact List.mem_append_left _ (synced.passed e inside old)
  exact
    { recorded := ⟨all, records⟩
      fits := synced.fits
      ordered := List.pairwise_append.mpr
        ⟨synced.ordered, (entries_ordered records).filter _,
          fun old inside new later => Nat.lt_of_le_of_lt (synced.seen old inside) (newer.mp later).2⟩
      seen := fun e inside => by
        rcases List.mem_append.mp inside with old | new
        · exact Nat.le_trans (synced.seen e old) synced.known
        · exact entries_bounded records (newer.mp new).1
      known := Nat.le_refl _
      passed := fun e inside _ => taken e inside
      caughtUp := taken }

/-- A poll that is not answered changes at most the log. -/
theorem step_unanswered {p : Poll} (silent : ¬ p.answered) (taken : step w (.polls p) = some next) :
    next = w ∨ next = { w with log := writeAll p.between w.log } := by
  simp only [step, Option.some.injEq, if_neg silent] at taken
  subst taken
  cases allocated : p.allocated with
  | false => exact .inl (by simp [handleAdminLog, allocated, pollDevLog])
  | true =>
    refine .inr ?_
    cases arrives : p.arrives with
    | false => simp [handleAdminLog, allocated]
    | true =>
      have unlocked : p.snapshotLocked = false := by simpa [Poll.answered, allocated, arrives] using silent
      simp [handleAdminLog, allocated, unlocked, logBufferSnapshot, pollDevLog]

/-- What an answered poll does: the entries and the number come from two reads, with the
    writes between them. -/
theorem step_answered {p : Poll} (answered : p.answered) (taken : step w (.polls p) = some next) :
    next =
      { log := writeAll p.between w.log
        page :=
          pollDevLog
            (some
              { seq := logBufferLastSeq p.seqLocked (writeAll p.between w.log)
                entries := (w.log.newer (sinceParam w.page.devLogSince)).take batch })
            w.page
        polled := w.log.entries } := by
  simp only [step, Option.some.injEq, if_pos answered] at taken
  obtain ⟨allocated, locked, arrives⟩ := answered
  simp [← taken, handleAdminLog, allocated, arrives, locked, logBufferSnapshot]

theorem synced_step (synced : Synced w) {a : Action} (calm : Calm w a) (taken : step w a = some next) : Synced next := by
  cases a with
  | logged locked line =>
    simp only [step, Option.some.injEq] at taken
    subst taken
    cases locked with
    | false => exact synced
    | true => exact synced_logDirect synced line calm
  | polls p =>
    obtain ⟨fits, quiet⟩ := calm
    by_cases answered : p.answered
    · rw [step_answered answered taken]
      by_cases nothing : w.log.newer (sinceParam w.page.devLogSince) = []
      · simp only [nothing, List.take_nil, pollDevLog, if_true]
        exact synced_writeAll (synced_idle synced nothing) p.between fits
      · obtain ⟨few, alone, locked⟩ := quiet answered nothing
        have number : w.log.written % 4294967296 = w.log.written := Nat.mod_eq_of_lt (by have := synced.fits; omega)
        simp only [List.take_of_length_le few, alone, writeAll, List.foldl_nil, pollDevLog, if_neg nothing,
          logBufferLastSeq, locked, if_true, number]
        exact synced_caughtUp synced
    · rcases step_unanswered answered taken with same | written
      · exact same ▸ synced
      · rw [written]
        exact synced_writeAll synced p.between fits

end

theorem synced_complete (w : Watch) (synced : Synced w) : Complete w ∧ CaughtUp w :=
  ⟨⟨synced.ordered, fun e inside _ _ _ => synced.caughtUp e inside⟩, synced.caughtUp⟩

/-- In every run whose polls are calm, the page receives in order and once all that its
    polls find in the ring. -/
theorem polling_complete {actions : List Action} (calm : Throughout step Calm start actions) :
    Always step (fun w => Complete w ∧ CaughtUp w) start actions :=
  always_mono synced_complete
    (throughout_always (fun _ _ _ synced calm taken => synced_step synced calm taken) synced_start calm)

/-- A line, and a poll in which nothing happens between the reads. -/
def bootLine : Line := { uptimeMs := 1000, ts := 0, level := 'I', tag := [77], msg := [66] }

def goodPoll : Poll := { allocated := true, snapshotLocked := true, between := [], seqLocked := true, arrives := true }

instance (w : Watch) : (a : Action) → Decidable (Calm w a)
  | .logged .. => inferInstanceAs (Decidable (_ < _))
  | .polls _ => inferInstanceAs (Decidable (_ ∧ (_ → _ → _)))

theorem polling_complete_boot :
    Always step (fun w => Complete w ∧ CaughtUp w) start
      [.logged true bootLine, .polls goodPoll, .logged true bootLine, .logged true bootLine, .polls goodPoll] :=
  polling_complete (by decide)

/-- Of 51 entries the first 50 are sent, and the page goes on behind the last. -/
def burst : List Action := List.replicate 51 (.logged true bootLine) ++ [.polls goodPoll, .logged true bootLine, .polls goodPoll]

theorem burst_is_lost : ¬ ∀ actions, Always step Complete start actions := by
  intro complete
  have found : (run step start burst).map (fun w => w.polled.map (·.number)) = some (List.range' 1 52) := by decide +kernel
  have got : (run step start burst).map (fun w => w.page.received.map (·.number)) = some (List.range' 1 50 ++ [52]) := by
    decide +kernel
  obtain ⟨last, reached, polled⟩ := Option.map_eq_some_iff.mp found
  have received : last.page.received.map (·.number) = List.range' 1 50 ++ [52] := by simpa [reached] using got
  obtain ⟨e, inside, fiftyFirst⟩ := List.mem_map.mp (show 51 ∈ last.polled.map (·.number) by rw [polled]; decide)
  obtain ⟨later, sent, newest⟩ :=
    List.mem_map.mp (show 52 ∈ last.page.received.map (·.number) by rw [received]; decide)
  have shown := (always_last (complete burst) reached).gapless e inside later sent (by omega)
  have number := List.mem_map_of_mem (f := (·.number)) shown
  rw [received, fiftyFirst] at number
  exact absurd number (by decide)

end EllaFi.LogPolling
