import EllaFi.Rings
import Mathlib.Data.List.Forall2
import Mathlib.Data.List.Induction

/-!
A day of the device's resources. Each sample is folded into a bucket that holds the worst of
its window; after ten minutes the bucket goes into a ring of 144, and the page shows the
ring, and the bucket that is still open. Whatever the counter of milliseconds does, each
sample of the last day is in the window of one bar, and each bar shows the worst of its own
window (`resources_shown`).
-/
namespace EllaFi.ResourceHistory
open EllaFi.Rings

/-! ## The history -/

structure ResBucket where
  t : UInt32
  dram : UInt32
  psram : UInt32
  sock : UInt16
deriving DecidableEq, Repr

def resN : Nat := 144

def resBucketMillis : UInt32 := 10 * 60 * 1000

/-- What a sample reads: the heaps, the sockets, the clock, and the three times at which it
    reads the counter, in milliseconds since the start. -/
structure Sample where
  dram : UInt32
  psram : UInt32
  sock : UInt16
  epoch : UInt32
  opened : Nat
  checked : Nat
  closed : Nat
deriving DecidableEq

/-- The counter wraps. -/
def millis (time : Nat) : UInt32 := .ofNat time

def maxValue : UInt32 := 4294967295

structure Store where
  ring : Ring ResBucket resN
  count : Nat
  accDram : UInt32
  accPsram : UInt32
  accSock : UInt16
  accDirty : Bool
  /-- 0 is none. -/
  bucketStart : UInt32

def blank : ResBucket := { t := 0, dram := 0, psram := 0, sock := 0 }

def booted : Store where
  ring := .blank blank resN (by decide)
  count := 0
  accDram := maxValue
  accPsram := maxValue
  accSock := 0
  accDirty := false
  bucketStart := 0

def Store.fold (s : Store) (x : Sample) : Store :=
  { s with
    accDram := if x.dram < s.accDram then x.dram else s.accDram
    accPsram := if x.psram < s.accPsram then x.psram else s.accPsram
    accSock := if s.accSock < x.sock then x.sock else s.accSock
    accDirty := true
    bucketStart := if s.bucketStart = 0 then millis x.opened else s.bucketStart }

/-- The bucket that is open, as of a time. -/
def Store.current (s : Store) (t : UInt32) : ResBucket :=
  { t, dram := s.accDram, psram := s.accPsram, sock := s.accSock }

def sampleResources (s : Store) (x : Sample) : Store :=
  let s := s.fold x
  if resBucketMillis ≤ millis x.checked - s.bucketStart then
    { ring := s.ring.push (s.current x.epoch)
      count := if s.count < resN then s.count + 1 else s.count
      accDram := maxValue
      accPsram := maxValue
      accSock := 0
      accDirty := false
      bucketStart := millis x.closed }
  else s

/-- The bars, from the oldest to the newest. -/
def handleResources (s : Store) (now : UInt32) : List ResBucket :=
  let start := (s.ring.next + resN - s.count) % resN
  ((List.range s.count).map fun i => s.ring.slots.getD ((start + i) % resN) blank) ++
    if s.accDirty then [s.current now] else []

def history (samples : List Sample) : Store := samples.foldl sampleResources booted

/-! ## Windows -/

/-- One of the values, before which none of them comes. -/
def First {Value : Type} (before : Value → Value → Prop) (values : List Value) (first : Value) : Prop :=
  first ∈ values ∧ ∀ value ∈ values, ¬ before value first

/-- A bar shows the worst of a window: the least memory and the most sockets of its samples. -/
structure Worst (window : List Sample) (bar : ResBucket) : Prop where
  dram : First (· < ·) (window.map Sample.dram) bar.dram
  psram : First (· < ·) (window.map Sample.psram) bar.psram
  sock : First (· > ·) (window.map Sample.sock) bar.sock

/-- The window of a bar that is closed ends with the sample whose time the bar has. -/
structure Closed (window : List Sample) (bar : ResBucket) : Prop where
  worst : Worst window bar
  stamped : ∃ last ∈ window.getLast?, last.epoch = bar.t

/-- The samples come one after the other. -/
structure Timely (samples : List Sample) : Prop where
  inOrder : ∀ x ∈ samples, x.opened ≤ x.checked ∧ x.checked ≤ x.closed
  apart : samples.Pairwise fun one other => one.closed ≤ other.opened

instance (samples : List Sample) : Decidable (Timely samples) :=
  decidable_of_iff ((∀ x ∈ samples, x.opened ≤ x.checked ∧ x.checked ≤ x.closed) ∧
      samples.Pairwise fun one other => one.closed ≤ other.opened)
    ⟨fun ⟨inOrder, apart⟩ => ⟨inOrder, apart⟩, fun timely => ⟨timely.inOrder, timely.apart⟩⟩

def dayMillis : Nat := 24 * 60 * 60 * 1000

/-- What the page shows at a time: bars for windows that are closed, and one for the window
    that is open, if there is any; the samples of the last day are in these windows. -/
def Shows (samples : List Sample) (now : Nat) (epoch : UInt32) (shown : List ResBucket) : Prop :=
  ∃ (dropped : List Sample) (windows : List (List Sample)) (running : List Sample) (bars last : List ResBucket),
    samples = dropped ++ windows.flatten ++ running ∧ (∀ x ∈ dropped, x.checked + dayMillis ≤ now) ∧
      shown = bars ++ last ∧ List.Forall₂ Closed windows bars ∧
        (running = [] ∧ last = [] ∨ ∃ bar, last = [bar] ∧ bar.t = epoch ∧ Worst running bar)

/-! ## The worst of a window -/

section
variable {Value : Type} {before : Value → Value → Prop} [DecidableRel before] {values : List Value} {first value : Value}

theorem first_snoc (irrefl : ∀ a, ¬ before a a) (trans : ∀ {a b c}, before a b → before b c → before a c)
    (found : First before values first) : First before (values ++ [value]) (if before value first then value else first) := by
  obtain ⟨inside, least⟩ := found
  split
  · next better =>
    refine ⟨List.mem_append_right _ (List.mem_singleton_self value), ?_⟩
    intro other among earlier
    rcases List.mem_append.mp among with old | new
    · exact least other old (trans earlier better)
    · rw [List.mem_singleton.mp new] at earlier
      exact irrefl value earlier
  · next worse =>
    refine ⟨List.mem_append_left _ inside, ?_⟩
    intro other among
    rcases List.mem_append.mp among with old | new
    · exact least other old
    · rwa [List.mem_singleton.mp new]

theorem first_single (irrefl : ∀ a, ¬ before a a) (last : ∀ a, ¬ before a first → a = first) :
    First before [value] (if before value first then value else first) := by
  have own : (if before value first then value else first) = value := by
    split
    · rfl
    · next worse => exact (last value worse).symm
  rw [own]
  refine ⟨List.mem_singleton_self value, ?_⟩
  intro other among
  rw [List.mem_singleton.mp among]
  exact irrefl value

end

section
variable {window : List Sample} {s : Store} {x : Sample} {t : UInt32}

theorem worst_single (dram : s.accDram = maxValue) (psram : s.accPsram = maxValue) (sock : s.accSock = 0) :
    Worst [x] ((s.fold x).current t) := by
  have most : ∀ value : UInt32, ¬ value < maxValue → value = maxValue := by
    intro value beyond
    have bound := value.toNat_lt
    have reached : maxValue ≤ value := UInt32.not_lt.mp beyond
    rw [UInt32.le_iff_toNat_le] at reached
    have largest : maxValue.toNat = 4294967295 := rfl
    exact UInt32.toNat_inj.mp (by omega)
  have least : ∀ value : UInt16, ¬ value > 0 → value = 0 := by
    intro value none
    have zero : value ≤ 0 := UInt16.not_lt.mp none
    rw [UInt16.le_iff_toNat_le] at zero
    exact UInt16.toNat_inj.mp (Nat.le_zero.mp zero)
  constructor
  · show First _ _ (if x.dram < s.accDram then x.dram else s.accDram)
    rw [dram]
    exact first_single UInt32.lt_irrefl most
  · show First _ _ (if x.psram < s.accPsram then x.psram else s.accPsram)
    rw [psram]
    exact first_single UInt32.lt_irrefl most
  · show First _ _ (if x.sock > s.accSock then x.sock else s.accSock)
    rw [sock]
    exact first_single UInt16.lt_irrefl least

/-- One sample more. -/
theorem worst_snoc (worst : Worst window (s.current t)) : Worst (window ++ [x]) ((s.fold x).current t) := by
  constructor
  · rw [List.map_append]
    exact first_snoc UInt32.lt_irrefl UInt32.lt_trans worst.dram
  · rw [List.map_append]
    exact first_snoc UInt32.lt_irrefl UInt32.lt_trans worst.psram
  · rw [List.map_append]
    exact first_snoc UInt16.lt_irrefl (fun one other => UInt16.lt_trans other one) worst.sock

end

/-! ## Whole histories -/

/-- A window that is closed. -/
structure Block where
  window : List Sample
  bar : ResBucket

/-- How the samples of a history are cut: the windows that are closed, the one that is
    open, and when the last one was closed. -/
structure Cut where
  blocks : List Block
  running : List Sample
  last : Nat

def Cut.samples (c : Cut) : List Sample := c.blocks.flatMap Block.window ++ c.running

def bucketTime : Nat := 10 * 60 * 1000

/-- The store is that of the windows, and a window is older by the time of all that came
    after it. -/
structure Sound (c : Cut) (s : Store) (now : Nat) : Prop where
  closed : ∀ b ∈ c.blocks, Closed b.window b.bar
  recalls : Recalls blank s.ring (c.blocks.map Block.bar)
  count : s.count = min c.blocks.length resN
  fresh : c.running = [] → s.accDram = maxValue ∧ s.accPsram = maxValue ∧ s.accSock = 0 ∧ s.accDirty = false
  worst : c.running ≠ [] → s.accDirty = true ∧ ∀ t, Worst c.running (s.current t)
  seen : ∀ x ∈ c.running, x.checked ≤ now
  aged : ∀ {before b after}, c.blocks = before ++ b :: after → ∀ x ∈ b.window, x.checked + after.length * bucketTime ≤ c.last
  past : c.last ≤ now
  started : s.bucketStart = 0 ∨ ∃ time, s.bucketStart = millis time ∧ c.last ≤ time ∧ time ≤ now

/-- More time has passed than the counter says. -/
theorem elapsed {time now : Nat} (past : time ≤ now) (full : resBucketMillis ≤ millis now - millis time) :
    time + bucketTime ≤ now := by
  rw [millis, millis, ← UInt32.ofNat_sub past, UInt32.le_iff_toNat_le, UInt32.toNat_ofNat'] at full
  have limit : resBucketMillis.toNat = bucketTime := rfl
  have low : (now - time) % 2 ^ 32 ≤ now - time := Nat.mod_le _ _
  omega

theorem sound_booted : Sound { blocks := [], running := [], last := 0 } booted 0 where
  closed := by simp
  recalls := recalls_blank blank _
  count := rfl
  fresh := fun _ => ⟨rfl, rfl, rfl, rfl⟩
  worst := fun some => absurd rfl some
  seen := by simp
  aged := by simp
  past := Nat.le_refl 0
  started := .inl rfl

section
variable {c : Cut} {s : Store} {now : Nat} {x : Sample}

theorem started_fold (sound : Sound c s now) (later : now ≤ x.opened) (inOrder : x.opened ≤ x.checked) :
    ∃ time, (s.fold x).bucketStart = millis time ∧ c.last ≤ time ∧ time ≤ x.checked := by
  have past := sound.past
  simp only [Store.fold]
  split
  · exact ⟨x.opened, rfl, Nat.le_trans past later, inOrder⟩
  · next known =>
    obtain unknown | ⟨time, same, after, before⟩ := sound.started
    · exact absurd unknown known
    · exact ⟨time, same, after, by omega⟩

theorem sound_fold (sound : Sound c s now) (later : now ≤ x.opened) (inOrder : x.opened ≤ x.checked) :
    Sound { c with running := c.running ++ [x] } (s.fold x) x.checked where
  closed := sound.closed
  recalls := sound.recalls
  count := sound.count
  fresh := by simp
  worst := by
    intro _
    refine ⟨rfl, fun t => ?_⟩
    by_cases first : c.running = []
    · obtain ⟨dram, psram, sock, _⟩ := sound.fresh first
      simp only [first, List.nil_append]
      exact worst_single dram psram sock
    · exact worst_snoc ((sound.worst first).2 t)
  seen := by
    intro y inside
    rcases List.mem_append.mp inside with old | new
    · have := sound.seen y old
      show y.checked ≤ x.checked
      omega
    · exact Nat.le_of_eq (congrArg Sample.checked (List.mem_singleton.mp new))
  aged := sound.aged
  past := by
    have := sound.past
    show c.last ≤ x.checked
    omega
  started := .inr (started_fold (c := c) sound later inOrder)

/-- The open window is closed by its last sample. -/
theorem sound_close {window : List Sample} (sound : Sound { c with running := window ++ [x] } s x.checked) {time : Nat}
    (start : s.bucketStart = millis time) (after : c.last ≤ time) (past : time ≤ x.checked)
    (full : resBucketMillis ≤ millis x.checked - s.bucketStart) (inOrder : x.checked ≤ x.closed) :
    Sound { blocks := c.blocks ++ [{ window := window ++ [x], bar := s.current x.epoch }], running := [], last := x.closed }
      { ring := s.ring.push (s.current x.epoch), count := if s.count < resN then s.count + 1 else s.count,
        accDram := maxValue, accPsram := maxValue, accSock := 0, accDirty := false, bucketStart := millis x.closed }
      x.closed where
  closed := by
    intro b inside
    rcases List.mem_append.mp inside with old | new
    · exact sound.closed b old
    · rw [List.mem_singleton.mp new]
      exact ⟨(sound.worst (by simp)).2 x.epoch, x, by simp, rfl⟩
  recalls := by
    rw [List.map_append]
    exact recalls_push sound.recalls _
  count := by
    have before : s.count = min c.blocks.length resN := sound.count
    show (if s.count < resN then s.count + 1 else s.count) = min (c.blocks ++ [_]).length resN
    rw [List.length_append, List.length_singleton, before]
    split
    · omega
    · omega
  fresh := fun _ => ⟨rfl, rfl, rfl, rfl⟩
  worst := fun some => absurd rfl some
  seen := by simp
  aged := by
    rw [start] at full
    have gap : time + bucketTime ≤ x.checked := elapsed past full
    intro before b rest split y inside
    show y.checked + rest.length * bucketTime ≤ x.closed
    rcases List.eq_nil_or_concat rest with rfl | ⟨earlier, newest, rfl⟩
    · obtain ⟨_, same⟩ := List.append_inj' split rfl
      obtain rfl := List.singleton_inj.mp same
      have := sound.seen y inside
      simp only [List.length_nil]
      omega
    · have whole : c.blocks ++ [{ window := window ++ [x], bar := s.current x.epoch }] = (before ++ b :: earlier) ++ [newest] := by
        simpa using split
      obtain ⟨old, _⟩ := List.append_inj' whole rfl
      have bound : y.checked + earlier.length * bucketTime ≤ c.last := sound.aged old y inside
      rw [List.concat_eq_append, List.length_append, List.length_singleton, Nat.add_mul]
      omega
  past := Nat.le_refl _
  started := .inr ⟨x.closed, rfl, Nat.le_refl _, Nat.le_refl _⟩

theorem sound_sample (sound : Sound c s now) (later : now ≤ x.opened) (inOrder : x.opened ≤ x.checked ∧ x.checked ≤ x.closed) :
    ∃ next : Cut, next.samples = c.samples ++ [x] ∧ Sound next (sampleResources s x) x.closed := by
  have folded := sound_fold sound later inOrder.1
  unfold sampleResources
  dsimp only
  split
  · next full =>
    obtain ⟨time, start, after, past⟩ := started_fold sound later inOrder.1
    exact ⟨_, by simp [Cut.samples], sound_close folded start after past full inOrder.2⟩
  · exact ⟨_, by simp [Cut.samples], { folded with
      seen := fun y inside => Nat.le_trans (folded.seen y inside) inOrder.2
      past := Nat.le_trans folded.past inOrder.2
      started := folded.started.imp id fun ⟨time, start, after, past⟩ => ⟨time, start, after, Nat.le_trans past inOrder.2⟩ }⟩

end

theorem sound_history {samples : List Sample} (timely : Timely samples) :
    ∃ (c : Cut) (now : Nat), c.samples = samples ∧ Sound c (history samples) now ∧
      ∀ {later}, (∀ x ∈ samples, x.closed ≤ later) → now ≤ later := by
  induction samples using List.reverseRecOn with
  | nil => exact ⟨_, 0, rfl, sound_booted, fun _ => Nat.zero_le _⟩
  | append_singleton samples x ih =>
    obtain ⟨inOrder, apart⟩ := timely
    obtain ⟨early, _, before⟩ := List.pairwise_append.mp apart
    obtain ⟨c, now, split, sound, bound⟩ := ih ⟨fun y inside => inOrder y (List.mem_append_left _ inside), early⟩
    have later : now ≤ x.opened := bound fun y inside => before y inside x (List.mem_singleton_self x)
    obtain ⟨next, more, sampled⟩ := sound_sample sound later (inOrder x (by simp))
    refine ⟨next, x.closed, by rw [more, split], ?_, fun all => all x (by simp)⟩
    rwa [history, List.foldl_append]

/-- The bars are those of the last windows. -/
theorem bars_eq {c : Cut} {s : Store} {now : Nat} (sound : Sound c s now) (epoch : UInt32) :
    handleResources s epoch = (c.blocks.drop (c.blocks.length - resN)).map Block.bar ++
      if s.accDirty then [s.current epoch] else [] := by
  have few : s.count ≤ resN := by
    rw [sound.count]
    exact Nat.min_le_right _ _
  have window := recalls_window sound.recalls
  rw [List.length_map] at window
  rw [handleResources, contents_window s.ring blank few, sound.count, window, List.map_drop]

/-- The windows that are not shown any more are a day old. -/
theorem dropped_old {c : Cut} {s : Store} {now : Nat} (sound : Sound c s now) {x : Sample}
    (dropped : x ∈ (c.blocks.take (c.blocks.length - resN)).flatMap Block.window) : x.checked + dayMillis ≤ now := by
  obtain ⟨b, inside, sampled⟩ := List.mem_flatMap.mp dropped
  obtain ⟨before, after, split⟩ := List.append_of_mem inside
  have whole : c.blocks = before ++ b :: (after ++ c.blocks.drop (c.blocks.length - resN)) := by
    rw [← List.cons_append, ← List.append_assoc, ← split, List.take_append_drop]
  have some : 0 < (c.blocks.take (c.blocks.length - resN)).length := List.length_pos_of_mem inside
  have many : (after ++ c.blocks.drop (c.blocks.length - resN)).length = after.length + resN := by
    rw [List.length_take] at some
    rw [List.length_append, List.length_drop]
    omega
  have old := sound.aged whole x sampled
  rw [many] at old
  have day : resN * bucketTime = dayMillis := rfl
  have past := sound.past
  rw [Nat.add_mul] at old
  omega

/-- From the start of the device on, whatever was sampled when, the page shows the last
    day. -/
theorem resources_shown {samples : List Sample} (timely : Timely samples) {now : Nat} (later : ∀ x ∈ samples, x.closed ≤ now)
    (epoch : UInt32) : Shows samples now epoch (handleResources (history samples) epoch) := by
  obtain ⟨c, last, split, sound, bound⟩ := sound_history timely
  have recent : last ≤ now := bound later
  refine ⟨(c.blocks.take (c.blocks.length - resN)).flatMap Block.window,
    (c.blocks.drop (c.blocks.length - resN)).map Block.window, c.running, _, _, ?_, ?_, bars_eq sound epoch, ?_, ?_⟩
  · rw [← List.flatMap_def, ← List.flatMap_append, List.take_append_drop]
    exact split.symm
  · intro x dropped
    exact Nat.le_trans (dropped_old sound dropped) recent
  · rw [List.forall₂_map_left_iff, List.forall₂_map_right_iff, List.forall₂_same]
    intro b inside
    exact sound.closed b (List.mem_of_mem_drop inside)
  · by_cases open_ : c.running = []
    · exact .inl ⟨open_, by simp [(sound.fresh open_).2.2.2]⟩
    · obtain ⟨dirty, worst⟩ := sound.worst open_
      exact .inr ⟨_, by rw [if_pos dirty], rfl, worst epoch⟩

/-- A storm of requests and, after the window is closed, a quiet sample. -/
def storm : List Sample :=
  [{ dram := 90000, psram := 4000000, sock := 11, epoch := 1700000000, opened := 31000, checked := 31001, closed := 31001 },
   { dram := 120000, psram := 3900000, sock := 3, epoch := 1700000620, opened := 651000, checked := 651001, closed := 651001 },
   { dram := 130000, psram := 4100000, sock := 1, epoch := 1700000650, opened := 681000, checked := 681002, closed := 681002 }]

theorem resources_shown_storm : Shows storm 700000 1700000669
    [{ t := 1700000620, dram := 90000, psram := 3900000, sock := 11 }, { t := 1700000669, dram := 130000, psram := 4100000, sock := 1 }] :=
  resources_shown (show Timely storm by decide) (by decide) 1700000669

end EllaFi.ResourceHistory
