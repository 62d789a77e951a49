import EllaFi.Files
import EllaFi.JsonPrinter
import EllaFi.LogPurge
import EllaFi.Rings

/-!
The activity page. Each event is appended to a log as a line of JSON; at every boot the
log is purged, and the page puts the last 200 lines between brackets, with commas between
them. Whatever happens in whatever order, the page is read as the array of the last
records that the purges have left, the newest first, as long as no text in them has a
control character that the printer does not escape (`activity_shown`).
-/
namespace EllaFi.ActivityPage
open EllaFi.JsonDoc (print printText)
open EllaFi.JsonPrinter
open EllaFi.LogPurge
open EllaFi.MoneyStore (ntpEpochMin)
open EllaFi.Rings
open EllaFi.TextLines

/-! ## The log -/

/-- What a call writes down, with the time as a `long`. -/
structure Record where
  ts : Int
  action : Text
  mac : Text
  coins : Int
  remainingMin : Int
  node : Text
  long : -2 ^ 31 ≤ ts ∧ ts < 2 ^ 31

def Record.optional (r : Record) : List (Text × JsonDoc.Value Empty) :=
  (if r.coins ≠ 0 then [("coins".toList, .int r.coins)] else []) ++
    (if 0 ≤ r.remainingMin then [("remain".toList, .int r.remainingMin)] else []) ++
    if r.node ≠ [] then [("node".toList, .text r.node)] else []

def Record.doc (r : Record) : JsonDoc.Value Empty :=
  .object (("ts".toList, .int r.ts) :: ("action".toList, .text r.action) :: ("mac".toList, .text r.mac) :: r.optional)

def Record.line (r : Record) : Text := print r.doc

/-- The line of an entry that is kept as a record. -/
def entryDoc (a : Files.Activity) : JsonDoc.Value Empty :=
  .object (("ts".toList, .int a.ts) :: ("action".toList, .text a.action.toList) :: ("mac".toList, .text a.mac.toList) ::
    (a.coins.toList.map (fun coins => ("coins".toList, .int coins)) ++
      a.remain.toList.map fun remain => ("remain".toList, .int remain)))

/-- The entry of a call without a node, and what the call writes down, say the same. -/
theorem entry_written (flash : Files.Flash) (clock : Nat) (action mac : String) (coins : Nat) (remainingMin : Int)
    (long : -2 ^ 31 ≤ (clock / 1000 : Int) ∧ (clock / 1000 : Int) < 2 ^ 31) :
    ∃ a, (Files.appendActivityLog flash clock true action mac coins remainingMin).activity = flash.activity ++ [a] ∧
      entryDoc a = Record.doc
        { ts := clock / 1000, action := action.toList, mac := mac.toList, coins, remainingMin, node := [], long } := by
  refine ⟨_, rfl, ?_⟩
  by_cases none : coins = 0
  · by_cases remains : 0 ≤ remainingMin <;> simp [entryDoc, Record.doc, Record.optional, none, remains]
  · by_cases remains : 0 ≤ remainingMin <;> simp [entryDoc, Record.doc, Record.optional, none, remains]

/-- A log that is not there is begun. -/
def appendActivityLog (opens : Bool) (r : Record) (log : Option Text) : Option Text :=
  if opens then some (log.getD [] ++ r.line ++ ['\n']) else log

def maxAgeSeconds : Int := 7 * 86400

def maxEntries : Int := 1000

/-- The purge of a boot; one that cannot open the log leaves it as it is, and one that can
    is taken to go through. -/
def setupLogs (opens : Bool) (now : Int) (log : Option Text) : Option Text :=
  (purgeOldLogEntries { succeeding with opens } now maxAgeSeconds maxEntries { log, tmp := none }).log

/-! ## The page -/

def maxShown : Nat := 200

structure Response where
  status : Nat
  body : Text
deriving DecidableEq, Repr

/-- The last lines that are not blank, and how many. -/
def readRing : List Text → Ring Text maxShown × Nat → Ring Text maxShown × Nat
  | [], read => read
  | raw :: rest, (ring, n) =>
    let line := trim raw
    if line = [] then readRing rest (ring, n) else readRing rest (ring.push line, if n < maxShown then n + 1 else n)

/-- The lines from the newest back. -/
def newestFirst (ring : Ring Text maxShown) (n : Nat) : List Text :=
  (List.range n).map fun i => ring.slots.getD ((ring.next + 2 * maxShown - 1 - i) % maxShown) []

def joined : List Text → Text
  | [] => []
  | first :: later => first ++ later.flatMap (',' :: ·)

def handleActivity (opens : Bool) (log : Option Text) : Response :=
  match log with
  | none => { status := 200, body := "[]".toList }
  | some content =>
    if opens then
      let read := readRing (readLines content) (.blank [] maxShown (by decide), 0)
      { status := 200, body := '[' :: joined (newestFirst read.1 read.2) ++ [']'] }
    else { status := 500, body := "Could not open activity.log".toList }

/-! ## Runs -/

inductive Event where
  | append (opens : Bool) (r : Record)
  | boot (opens : Bool) (now : Int)

def act (log : Option Text) : Event → Option Text
  | .append opens r => appendActivityLog opens r log
  | .boot opens now => setupLogs opens now log

/-- The log after what has happened since the device was new. -/
def logAfter (events : List Event) : Option Text := events.foldl act none

/-- The last of some things. -/
def lastOf {Thing : Type} (count : Nat) (things : List Thing) : List Thing := things.drop (things.length - count)

/-- A record from before the clock was set, or of the last seven days. -/
def Record.Stays (now : Int) (r : Record) : Prop := r.ts < ntpEpochMin ∨ now ≤ r.ts + maxAgeSeconds

instance (now : Int) (r : Record) : Decidable (r.Stays now) := inferInstanceAs (Decidable (_ ∨ _))

def keep (records : List Record) : Event → List Record
  | .append opens r => if opens then records ++ [r] else records
  | .boot opens now => if opens then lastOf maxEntries.toNat (records.filter (·.Stays now)) else records

/-- The records that should be in the log. -/
def kept (events : List Event) : List Record := events.foldl keep []

def Record.Prints (r : Record) : Prop := ∀ text ∈ [r.action, r.mac, r.node], ∀ c ∈ text, JsonPrinter.Prints c

instance (r : Record) : Decidable r.Prints :=
  inferInstanceAs (Decidable (∀ text ∈ [r.action, r.mac, r.node], ∀ c ∈ text, JsonPrinter.Prints c))

/-- The records that were written down. -/
def written (events : List Event) : List Record :=
  events.filterMap fun
    | .append true r => some r
    | _ => none

/-! ## Lines -/

/-- A text holds lines, whatever comes behind it. -/
def Holds (content : Text) (lines : List Text) : Prop :=
  ∀ rest, nonblankLines (content ++ rest) = lines ++ nonblankLines rest

section
variable {content line raw : Text} {lines : List Text}

theorem nonblankLines_ended (trimmed : trim raw = line) (nonblank : line ≠ []) (single : '\n' ∉ raw) (rest : Text) :
    nonblankLines (raw ++ '\n' :: rest) = line :: nonblankLines rest := by
  rw [nonblankLines, readLines_line single, List.map_cons, trimmed, List.filter_cons_of_pos (by simpa using nonblank)]
  rfl

theorem holds_nil : Holds [] [] := fun _ => rfl

theorem holds_line (holds : Holds content lines) (clean : Clean line) : Holds (content ++ line ++ ['\n']) (lines ++ [line]) := by
  intro rest
  have split : content ++ line ++ ['\n'] ++ rest = content ++ (line ++ '\n' :: rest) := by simp
  rw [split, holds, nonblankLines_ended clean.trimmed clean.nonblank clean.single]
  simp

theorem holds_unlines (clean : ∀ line ∈ lines, Clean line) : Holds (unlines lines) lines := by
  induction lines with
  | nil => exact holds_nil
  | cons line lines ih =>
    obtain ⟨own, later⟩ := List.forall_mem_cons.mp clean
    intro rest
    have split : unlines (line :: lines) ++ rest = (line ++ ['\r']) ++ '\n' :: (unlines lines ++ rest) := by
      simp [unlines, lineEnd]
    have trimmed : trim (line ++ ['\r']) = line := by rw [trim_snoc rfl, own.trimmed]
    have single : '\n' ∉ line ++ ['\r'] := by simp [own.single]
    rw [split, nonblankLines_ended trimmed own.nonblank single, ih later]
    rfl

theorem lines_of_holds (holds : Holds content lines) : nonblankLines content = lines := by
  have alone := holds []
  rw [List.append_nil] at alone
  rw [alone]
  exact List.append_nil lines

end

/-! ## The line of a record -/

/-- The first place of a mark that stands here is here. -/
theorem behind_here {mark : Text} (rest : Text) (some_ : mark ≠ []) : behind mark (mark ++ rest) = some rest := by
  cases mark with
  | nil => exact absurd rfl some_
  | cons c mark =>
    have here : c :: mark <+: c :: (mark ++ rest) := List.prefix_append (c :: mark) rest
    rw [List.cons_append, behind, if_pos here]
    simp

theorem digits_stop {s : Text} (numeric : ∀ c ∈ s, c.isDigit) {stop : Char} (other : ¬ stop.isDigit) (number : Nat)
    (rest : Text) : digits number (s ++ stop :: rest) = digits number s := by
  induction s generalizing number with
  | nil => simp [digits, other]
  | cons c s ih =>
    obtain ⟨own, later⟩ := List.forall_mem_cons.mp numeric
    rw [List.cons_append, digits, if_pos own, digits, if_pos own, ih later]

theorem digit_bounds {c : Char} (digit : c.isDigit) : 48 ≤ c.toNat ∧ c.toNat ≤ 57 := by
  simp only [Char.isDigit, Bool.and_eq_true, decide_eq_true_eq, ge_iff_le, UInt32.le_iff_toNat_le] at digit
  exact digit

theorem atol_digits {s : Text} (numeric : ∀ c ∈ s, c.isDigit) (some_ : s ≠ []) {stop : Char} (other : ¬ stop.isDigit)
    (rest : Text) : atol (s ++ stop :: rest) = toLong (digits 0 s) := by
  obtain ⟨c, s, rfl⟩ := List.exists_cons_of_ne_nil some_
  obtain ⟨low, high⟩ := digit_bounds (numeric c List.mem_cons_self)
  have space : isSpace c = false := by
    have blank : c ≠ ' ' := by
      rintro rfl
      exact absurd low (by decide)
    simp only [isSpace, blank, decide_false, Bool.false_or, Bool.and_eq_false_iff, decide_eq_false_iff_not]
    omega
  have kept : (c :: s ++ stop :: rest).dropWhile isSpace = c :: s ++ stop :: rest := by
    rw [List.cons_append, List.dropWhile_cons, space, if_neg Bool.false_ne_true]
  rw [atol, kept, List.cons_append]
  split
  · next same => exact absurd ((List.cons.inj same).1 ▸ low) (by decide)
  · next same => exact absurd ((List.cons.inj same).1 ▸ low) (by decide)
  · rw [← List.cons_append, digits_stop numeric other]

/-- A `long` that was printed is read again, up to what follows it. -/
theorem atol_toString {z : Int} (long : -2 ^ 31 ≤ z ∧ z < 2 ^ 31) {stop : Char} (other : ¬ stop.isDigit) (rest : Text) :
    atol ((toString z).toList ++ stop :: rest) = z := by
  have number (n : Nat) : digits 0 (Nat.toDigits 10 n) = n := by
    rw [digits_eq isDigit_toDigits, Nat.ofDigitChars_ten_toDigits]
  have within : toLong z = z := by
    unfold toLong
    omega
  rw [toList_toString]
  split
  · next positive =>
    rw [atol_digits isDigit_toDigits Nat.toDigits_ne_nil other, number, Int.toNat_of_nonneg positive, within]
  · next negative =>
    have sign (text : Text) : atol ('-' :: text) = toLong (-digits 0 text) := rfl
    rw [List.cons_append, sign, digits_stop isDigit_toDigits other, number, Int.toNat_of_nonneg (by omega), Int.neg_neg,
      within]

section
variable {r : Record}

theorem exact_doc (prints : r.Prints) : Exact r.doc := by
  obtain ⟨action, mac, node, -⟩ : (∀ c ∈ r.action, JsonPrinter.Prints c) ∧ (∀ c ∈ r.mac, JsonPrinter.Prints c) ∧
      (∀ c ∈ r.node, JsonPrinter.Prints c) ∧ True := by simpa [Record.Prints] using prints
  have optional : ∀ member ∈ r.optional, Json.Plain member.1 ∧ Exact member.2 := by
    intro member inside
    simp only [Record.optional, List.mem_append] at inside
    rcases inside with (coins | remain) | named
    · split at coins
      · obtain rfl := List.mem_singleton.mp coins
        exact ⟨show Json.Plain "coins".toList by decide, .int _⟩
      · cases coins
    · split at remain
      · obtain rfl := List.mem_singleton.mp remain
        exact ⟨show Json.Plain "remain".toList by decide, .int _⟩
      · cases remain
    · split at named
      · obtain rfl := List.mem_singleton.mp named
        exact ⟨show Json.Plain "node".toList by decide, .text node⟩
      · cases named
  refine .object ?_ ?_
  · simp only [List.forall_mem_cons]
    exact ⟨by decide, by decide, by decide, fun member inside => (optional member inside).1⟩
  · simp only [List.forall_mem_cons]
    exact ⟨.int _, .text action, .text mac, fun member inside => (optional member inside).2⟩

theorem printable_line (prints : r.Prints) : JsonText.Printable r.line := print_printable (exact_doc prints)

/-- Every line begins with its time. -/
theorem line_begins (r : Record) : ∃ rest, r.line = '\x7b' :: ("\"ts\":".toList ++ ((toString r.ts).toList ++ ',' :: rest)) := by
  have key : Json.Plain "ts".toList := by decide
  rw [Record.line, Record.doc, print, print_members, List.map_cons, List.flatMap_cons, printMember, printText_plain key, print]
  exact ⟨printMember ("action".toList, .text r.action) ++
    ((("mac".toList, .text r.mac) :: r.optional).map printMember).flatMap (',' :: ·) ++ ['\x7d'], by simp⟩

theorem timestamp_line (prints : r.Prints) : timestamp r.line = r.ts := by
  have whole : cString r.line = r.line := by
    refine List.takeWhile_eq_self_iff.mpr fun c inside => ?_
    have printable := printable_line prints c inside
    rw [decide_eq_true_eq]
    rintro rfl
    exact absurd printable (by decide)
  obtain ⟨rest, begins⟩ := line_begins r
  have brace : ¬ "\"ts\":".toList <+: '\x7b' :: ("\"ts\":".toList ++ ((toString r.ts).toList ++ ',' :: rest)) := by
    intro prefix_
    obtain ⟨more, same⟩ := prefix_
    exact absurd (List.cons.inj same).1 (by decide)
  rw [timestamp, whole, begins, behind, if_neg brace, behind_here _ (by decide), Option.map_some, Option.getD_some,
    atol_toString r.long (by decide)]

theorem clean_line (prints : r.Prints) : Clean r.line := by
  obtain ⟨inner, shape⟩ : ∃ inner, r.line = '\x7b' :: inner ++ ['\x7d'] := ⟨_, rfl⟩
  refine ⟨?_, ?_, fun newline => ?_⟩
  · rw [shape, trim, List.rdropWhile_concat_neg _ _ _ (by decide)]
    rfl
  · rw [shape]
    exact List.cons_ne_nil _ _
  · exact absurd (printable_line prints '\n' newline) (by decide)

end

/-! ## What the log holds -/

/-- The log holds the lines of these records. -/
def Stored (log : Option Text) (records : List Record) : Prop :=
  match log with
  | none => records = []
  | some content => Holds content (records.map Record.line)

section
variable {log : Option Text} {records : List Record} {content : Text} {r : Record} {now : Int}

theorem stored_append (stored : Stored log records) (prints : r.Prints) (opens : Bool) :
    Stored (appendActivityLog opens r log) (keep records (.append opens r)) := by
  cases opens with
  | false => exact stored
  | true =>
    have line := clean_line prints
    cases log with
    | none =>
      obtain rfl : records = [] := stored
      exact holds_line holds_nil line
    | some content =>
      have more := holds_line (show Holds content (records.map Record.line) from stored) line
      show Holds (content ++ r.line ++ ['\n']) ((records ++ [r]).map Record.line)
      rwa [List.map_append]

theorem lastOf_map {Thing Other : Type} (f : Thing → Other) (count : Nat) (things : List Thing) :
    lastOf count (things.map f) = (lastOf count things).map f := by
  rw [lastOf, List.length_map, lastOf, List.map_drop]

theorem rtake_min {Thing : Type} (count : Nat) (things : List Thing) :
    things.rtake (min count things.length) = lastOf count things := by
  rw [List.rtake, lastOf]
  congr 1
  omega

/-- The purge judges a line by the time of its record. -/
theorem survives_line (prints : r.Prints) : Survives now maxAgeSeconds r.line ↔ r.Stays now := by
  rw [Survives, timestamp_line prints, Record.Stays]

theorem retained_lines (holds : Holds content (records.map Record.line)) (prints : ∀ r ∈ records, r.Prints) :
    retained now maxAgeSeconds maxEntries content = (lastOf maxEntries.toNat (records.filter (·.Stays now))).map Record.line := by
  have same : survivors now maxAgeSeconds content = (records.filter (·.Stays now)).map Record.line := by
    rw [survivors, lines_of_holds holds, List.filter_map]
    refine congrArg (List.map Record.line) (List.filter_congr fun r inside => ?_)
    exact decide_eq_decide.mpr (survives_line (prints r inside))
  have capped : 0 < maxEntries := by decide
  rw [retained, if_pos capped, same, rtake_min, lastOf_map]

theorem keep_boot (records : List Record) (now : Int) :
    keep records (.boot true now) = lastOf maxEntries.toNat (records.filter (·.Stays now)) := by
  simp [keep]

theorem keep_closed (records : List Record) (now : Int) : keep records (.boot false now) = records := by
  simp [keep]

theorem stored_boot (stored : Stored log records) (prints : ∀ r ∈ records, r.Prints) (opens : Bool) (now : Int) :
    Stored (setupLogs opens now log) (keep records (.boot opens now)) := by
  cases log with
  | none =>
    obtain rfl : records = [] := stored
    cases opens with
    | false => exact keep_closed [] now
    | true =>
      rw [keep_boot]
      exact List.drop_nil
  | some content =>
    cases opens with
    | false =>
      rw [keep_closed]
      exact stored
    | true =>
      have lines := @retained_lines _ _ now stored prints
      have purged : setupLogs true now (some content) = some (unlines (retained now maxAgeSeconds maxEntries content)) :=
        congrArg LogFiles.log (purge_succeeding none)
      rw [purged, keep_boot]
      show Holds (unlines (retained now maxAgeSeconds maxEntries content)) _
      have clean := @retained_clean now maxAgeSeconds maxEntries content
      rw [lines] at clean ⊢
      exact holds_unlines clean

theorem mem_keep {event : Event} (inside : r ∈ keep records event) : r ∈ records ∨ r ∈ written [event] := by
  cases event with
  | append opens other =>
    cases opens with
    | false => exact .inl inside
    | true => exact (List.mem_append.mp inside).imp_right fun own => own
  | boot opens now =>
    cases opens with
    | false => exact .inl (keep_closed records now ▸ inside)
    | true =>
      rw [keep_boot] at inside
      exact .inl (List.mem_of_mem_filter (List.mem_of_mem_drop inside))

theorem written_cons (event : Event) (events : List Event) : written (event :: events) = written [event] ++ written events :=
  List.filterMap_append (l := [event])

/-- What one event leaves in the log is what should be in it. -/
theorem stored_act (stored : Stored log records) (prints : ∀ r ∈ records, r.Prints) (event : Event)
    (new : ∀ r ∈ written [event], r.Prints) : Stored (act log event) (keep records event) := by
  cases event with
  | append opens r =>
    cases opens with
    | false => exact stored
    | true => exact stored_append stored (new r (List.mem_singleton_self r)) true
  | boot opens now => exact stored_boot stored prints opens now

/-- And so does any run. -/
theorem stored_events (stored : Stored log records) (prints : ∀ r ∈ records, r.Prints) {events : List Event}
    (new : ∀ r ∈ written events, r.Prints) :
    Stored (events.foldl act log) (events.foldl keep records) ∧ ∀ r ∈ events.foldl keep records, r.Prints := by
  induction events generalizing log records with
  | nil => exact ⟨stored, prints⟩
  | cons event events ih =>
    rw [written_cons] at new
    obtain ⟨own, later⟩ := List.forall_mem_append.mp new
    refine ih (stored_act stored prints event own) (fun r inside => ?_) later
    exact (mem_keep inside).elim (prints r) (own r)

end

/-! ## What the page shows -/

section
variable {ring : Ring Text maxShown} {log : List Text}

theorem readRing_lines (recalls : Recalls [] ring log) (raws : List Text) :
    let read := readRing raws (ring, min log.length maxShown)
    let lines := (raws.map trim).filter (· ≠ [])
    Recalls [] read.1 (log ++ lines) ∧ read.2 = min (log ++ lines).length maxShown := by
  induction raws generalizing ring log with
  | nil => simpa [readRing] using recalls
  | cons raw rest ih =>
    by_cases blank : trim raw = []
    · simpa [readRing, blank] using ih recalls
    · have more := ih (recalls_push recalls (trim raw))
      have counted : (if min log.length maxShown < maxShown then min log.length maxShown + 1 else min log.length maxShown) =
          min (log ++ [trim raw]).length maxShown := by
        rw [List.length_append, List.length_singleton]
        split <;> omega
      rw [readRing, if_neg blank, counted]
      simpa [blank] using more

/-- From the newest back is the window backwards. -/
theorem newestFirst_eq (recalls : Recalls [] ring log) :
    newestFirst ring (min log.length maxShown) = (lastOf maxShown log).reverse := by
  have few : min log.length maxShown ≤ maxShown := Nat.min_le_right _ _
  have inside := ring.inside
  rw [lastOf, ← recalls_window recalls, ← contents_window ring [] few]
  refine List.ext_getElem (by simp [newestFirst]) fun i short _ => ?_
  have bound : i < min log.length maxShown := by simpa [newestFirst] using short
  have place : (ring.next + 2 * maxShown - 1 - i) % maxShown =
      ((ring.next + maxShown - min log.length maxShown) % maxShown + (min log.length maxShown - 1 - i)) % maxShown := by
    unfold maxShown at *
    omega
  simp [newestFirst, List.getElem_reverse, place]

end

/-- The lines between brackets are an array that is printed. -/
theorem joined_print (docs : List (JsonDoc.Value Empty)) : '[' :: joined (docs.map print) ++ [']'] = print (.array docs) := by
  cases docs with
  | nil => rfl
  | cons doc docs => rw [print, print_items]; rfl

theorem page_stored {log : Option Text} {records : List Record} (stored : Stored log records) :
    handleActivity true log = { status := 200, body := print (.array ((lastOf maxShown records).reverse.map Record.doc)) } := by
  cases log with
  | none =>
    obtain rfl : records = [] := stored
    rfl
  | some content =>
    obtain ⟨recalls, counted⟩ := readRing_lines (recalls_blank [] (by decide)) (readLines content)
    have lines : [] ++ ((readLines content).map trim).filter (· ≠ []) = records.map Record.line := lines_of_holds stored
    rw [lines] at recalls counted
    have shown := newestFirst_eq recalls
    rw [← counted, lastOf_map, ← List.map_reverse] at shown
    have docs : (lastOf maxShown records).reverse.map Record.line =
        ((lastOf maxShown records).reverse.map Record.doc).map print := (List.map_map ..).symm
    rw [← joined_print, ← docs, ← shown]
    rfl

/-- The page shows the last 200 records that the purges have left, the newest first. -/
theorem activity_shown {events : List Event} (prints : ∀ r ∈ written events, r.Prints) :
    let page := handleActivity true (logAfter events)
    page.status = 200 ∧
      Json.parse page.body = some (.array ((lastOf maxShown (kept events)).reverse.map fun r => meaning r.doc)) := by
  have empty : Stored none [] := rfl
  obtain ⟨stored, all⟩ := stored_events empty (List.forall_mem_nil _) prints
  have each : Exact (.array ((lastOf maxShown (kept events)).reverse.map Record.doc)) := by
    refine .array (List.forall_mem_map.mpr fun r inside => exact_doc (all r ?_))
    exact List.mem_of_mem_drop (List.mem_reverse.mp inside)
  refine ⟨congrArg Response.status (page_stored stored), ?_⟩
  rw [logAfter, page_stored stored]
  show Json.parse (print (.array ((lastOf maxShown (kept events)).reverse.map Record.doc))) = _
  rw [parse_print each, meaning, meanings_eq, List.map_map]
  rfl

/-- A client that paid, a line that was lost, a boot, and a pause. -/
def paidAndPaused : List Event :=
  [.append true
    { ts := 1800000000, action := "AUTH".toList, mac := "02:00:00:00:00:01".toList, coins := 1, remainingMin := 24, node := []
      long := by decide },
    .append false
      { ts := 1800000010, action := "AUTH".toList, mac := "02:00:00:00:00:02".toList, coins := 1, remainingMin := 24, node := []
        long := by decide },
    .boot true 1800000100,
    .append true
      { ts := 1800000200, action := "PAUSE".toList, mac := "02:00:00:00:00:01".toList, coins := 0, remainingMin := 20, node := []
        long := by decide }]

theorem activity_shown_paused :
    let page := handleActivity true (logAfter paidAndPaused)
    page.status = 200 ∧
      Json.parse page.body = some (.array ((lastOf maxShown (kept paidAndPaused)).reverse.map fun r => meaning r.doc)) :=
  activity_shown (by simp [written, paidAndPaused, Record.Prints, JsonPrinter.Prints])

end EllaFi.ActivityPage
