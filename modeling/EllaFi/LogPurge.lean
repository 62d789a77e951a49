import EllaFi.MoneyStore
import EllaFi.TextLines

/-!
The purge of a log. One pass counts the lines that are young enough, a second one
copies the last of them to another file, which then takes the log's place. When every
file operation succeeds, exactly the lines that should stay are left, and a second purge
changes nothing (`purge_exact`). But the log is removed before the copy is renamed, and
nobody looks at what was written: whatever becomes of the operations, the log is whole
after a cut of the power exactly when the cut does not come between the two, the copy is
renamed if the log is removed, and what is renamed was written whole
(`purge_atomic_iff`).
-/
namespace EllaFi.LogPurge
open EllaFi.TextLines
open EllaFi.MoneyStore (ntpEpochMin)

/-! ## Timestamps -/

/-- The text behind the first place where `mark` stands. -/
def behind (mark : Text) : Text → Option Text
  | [] => if mark = [] then some [] else none
  | c :: rest => if mark <+: c :: rest then some ((c :: rest).drop mark.length) else behind mark rest

/-- A number beyond the 32 bits of a `long` is read as the nearest one within. -/
def toLong (number : Int) : Int := max (-2 ^ 31) (min number (2 ^ 31 - 1))

def atol (text : Text) : Int :=
  match text.dropWhile isSpace with
  | '-' :: rest => toLong (-digits 0 rest)
  | '+' :: rest => toLong (digits 0 rest)
  | rest => toLong (digits 0 rest)

/-- The time of a line; 0 where it has none. -/
def timestamp (line : Text) : Int := ((behind "\"ts\":".toList (cString line)).map atol).getD 0

/-! ## The two passes -/

section
variable (cutoff : Int)

/-- The line's age is known, and too high. -/
def Expired (line : Text) : Prop := ntpEpochMin ≤ timestamp line ∧ timestamp line < cutoff

instance (line : Text) : Decidable (Expired cutoff line) := inferInstanceAs (Decidable (_ ∧ _))

def countSurviving : List Text → Nat → Nat
  | [], surviving => surviving
  | raw :: rest, surviving =>
    let line := trim raw
    if line = [] then countSurviving rest surviving
    else if Expired cutoff line then countSurviving rest surviving
    else countSurviving rest (surviving + 1)

/-- The oldest survivors beyond the cap. -/
def skipped (maxEntries : Int) (surviving : Nat) : Nat :=
  if 0 < maxEntries ∧ maxEntries < surviving then (surviving - maxEntries).toNat else 0

def copyLines (skip : Nat) : List Text → Nat → List Text
  | [], _ => []
  | raw :: rest, idx =>
    let line := trim raw
    if line = [] then copyLines skip rest idx
    else if Expired cutoff line then copyLines skip rest idx
    else if idx < skip then copyLines skip rest (idx + 1)
    else line :: copyLines skip rest (idx + 1)

def keptLines (maxEntries : Int) (content : Text) : List Text :=
  copyLines cutoff (skipped maxEntries (countSurviving cutoff (readLines content) 0)) (readLines content) 0

end

/-! ## The files -/

/-- The log and the temporary file. -/
structure LogFiles where
  log : Option Text
  tmp : Option Text
deriving DecidableEq, Repr

/-- What becomes of each operation on the files. -/
structure Outcomes where
  opens : Bool
  reopens : Bool
  creates : Bool
  /-- How many characters of a line and of its end are written, where not all are. -/
  stops : Nat → Option (Nat × Nat)
  removes : Bool
  renames : Bool

def succeeding : Outcomes where
  opens := true
  reopens := true
  creates := true
  stops _ := none
  removes := true
  renames := true

section
variable (outcomes : Outcomes)

def cuts (kept : List Text) : List Cut :=
  kept.zipIdx.map fun (line, i) =>
    let stop := (outcomes.stops i).getD (line.length, lineEnd.length)
    { line, text := stop.1, ending := stop.2 }

/-- The files once the log was to be removed. -/
def removed (content written : Text) : LogFiles where
  log := if outcomes.removes then none else some content
  tmp := some written

/-- A rename replaces a file that is still there. -/
def renamed (files : LogFiles) : LogFiles :=
  if outcomes.renames then { log := files.tmp, tmp := none } else files

variable (now maxAgeSeconds maxEntries : Int)

def purgeOldLogEntries (files : LogFiles) : LogFiles :=
  match files.log with
  | none => files
  | some content =>
    if outcomes.opens ∧ outcomes.reopens ∧ outcomes.creates then
      renamed outcomes (removed outcomes content (cutText (cuts outcomes (keptLines (now - maxAgeSeconds) maxEntries content))))
    else files

/-- The last thing that was done to the files. -/
inductive Effect where
  | nothing
  | write (count : Nat)
  | remove
  | rename
deriving DecidableEq, Repr

/-- The files as a cut of the power finds them, after each effect. -/
def purgeTrail (files : LogFiles) : List (Effect × LogFiles) :=
  match files.log with
  | none => [(.nothing, files)]
  | some content =>
    if outcomes.opens ∧ outcomes.reopens ∧ outcomes.creates then
      let written := cutText (cuts outcomes (keptLines (now - maxAgeSeconds) maxEntries content))
      (.nothing, files) ::
        (List.range (written.length + 1)).map (fun count =>
          (.write count, { files with tmp := some (written.take count) })) ++
        [(.remove, removed outcomes content written), (.rename, renamed outcomes (removed outcomes content written))]
    else [(.nothing, files)]

end

/-! ## Which lines stay -/

/-- The age rule: a line stays if its age is unknown or low enough. -/
def Survives (now maxAgeSeconds : Int) (line : Text) : Prop :=
  timestamp line < ntpEpochMin ∨ now ≤ timestamp line + maxAgeSeconds

instance (now maxAgeSeconds : Int) (line : Text) : Decidable (Survives now maxAgeSeconds line) :=
  inferInstanceAs (Decidable (_ ∨ _))

def survivors (now maxAgeSeconds : Int) (content : Text) : List Text :=
  (nonblankLines content).filter (Survives now maxAgeSeconds)

/-- The last `maxEntries` survivors, or all of them. -/
def retained (now maxAgeSeconds maxEntries : Int) (content : Text) : List Text :=
  if 0 < maxEntries then
    (survivors now maxAgeSeconds content).rtake (min maxEntries.toNat (survivors now maxAgeSeconds content).length)
  else survivors now maxAgeSeconds content

section
variable {now maxAgeSeconds maxEntries cutoff : Int} {line content : Text}

theorem not_expired_iff : ¬ Expired (now - maxAgeSeconds) line ↔ Survives now maxAgeSeconds line := by
  unfold Expired Survives
  omega

/-- The lines of a reading that the age rule leaves. -/
def surviving (cutoff : Int) (raws : List Text) : List Text :=
  ((raws.map trim).filter (· ≠ [])).filter fun line => ¬ Expired cutoff line

theorem surviving_cons (raw : Text) (raws : List Text) :
    surviving cutoff (raw :: raws) =
      if trim raw = [] ∨ Expired cutoff (trim raw) then surviving cutoff raws
      else trim raw :: surviving cutoff raws := by
  unfold surviving
  by_cases blank : trim raw = []
  · simp [blank]
  · by_cases expired : Expired cutoff (trim raw) <;> simp [blank, expired]

theorem countSurviving_eq (raws : List Text) (count : Nat) :
    countSurviving cutoff raws count = count + (surviving cutoff raws).length := by
  induction raws generalizing count with
  | nil => rfl
  | cons raw rest ih =>
    rw [surviving_cons, countSurviving]
    by_cases blank : trim raw = []
    · simp only [blank, if_true, true_or, ih]
    · by_cases expired : Expired cutoff (trim raw)
      · simp only [blank, expired, if_true, if_false, or_true, ih]
      · simp only [blank, expired, if_false, or_self, ih, List.length_cons]
        omega

theorem copyLines_eq (skip : Nat) (raws : List Text) (idx : Nat) :
    copyLines cutoff skip raws idx = (surviving cutoff raws).drop (skip - idx) := by
  induction raws generalizing idx with
  | nil => simp [copyLines, surviving]
  | cons raw rest ih =>
    rw [surviving_cons, copyLines]
    by_cases blank : trim raw = []
    · simp only [blank, if_true, true_or, ih]
    · by_cases expired : Expired cutoff (trim raw)
      · simp only [blank, expired, if_true, if_false, or_true, ih]
      · simp only [blank, expired, if_false, or_self, ih]
        by_cases before : idx < skip
        · rw [if_pos before, show skip - idx = (skip - (idx + 1)) + 1 by omega, List.drop_succ_cons]
        · rw [if_neg before, show skip - idx = 0 by omega, show skip - (idx + 1) = 0 by omega]
          rfl

/-- The two passes agree on the lines that survive, and leave the last of them. -/
theorem keptLines_eq (content : Text) :
    keptLines (now - maxAgeSeconds) maxEntries content = retained now maxAgeSeconds maxEntries content := by
  have same : surviving (now - maxAgeSeconds) (readLines content) = survivors now maxAgeSeconds content := by
    refine List.filter_congr fun line _ => ?_
    simp only [not_expired_iff]
  rw [keptLines, copyLines_eq, countSurviving_eq, same, Nat.zero_add, Nat.sub_zero, retained, skipped]
  by_cases capped : 0 < maxEntries
  · rw [if_pos capped, List.rtake]
    congr 1
    split <;> omega
  · simp [capped]

theorem retained_sublist : (retained now maxAgeSeconds maxEntries content).Sublist (nonblankLines content) := by
  unfold retained
  split
  · exact (List.drop_sublist _ _).trans List.filter_sublist
  · exact List.filter_sublist

theorem retained_clean : ∀ line ∈ retained now maxAgeSeconds maxEntries content, Clean line :=
  fun _ inside => clean_of_mem (retained_sublist.subset inside)

/-- What stays once stays again. -/
theorem retained_again :
    retained now maxAgeSeconds maxEntries (unlines (retained now maxAgeSeconds maxEntries content)) =
      retained now maxAgeSeconds maxEntries content := by
  have young : ∀ line ∈ retained now maxAgeSeconds maxEntries content, Survives now maxAgeSeconds line := by
    intro line inside
    have among : line ∈ survivors now maxAgeSeconds content := by
      unfold retained at inside
      split at inside
      · exact List.mem_of_mem_drop inside
      · exact inside
    simpa using (List.mem_filter.mp among).2
  have all : survivors now maxAgeSeconds (unlines (retained now maxAgeSeconds maxEntries content)) =
      retained now maxAgeSeconds maxEntries content := by
    rw [survivors, nonblankLines_unlines retained_clean]
    exact List.filter_eq_self.mpr fun line inside => by simpa using young line inside
  rw [retained, all]
  split
  · next capped =>
    have few : (retained now maxAgeSeconds maxEntries content).length ≤ maxEntries.toNat := by
      rw [retained, if_pos capped, List.rtake, List.length_drop]
      omega
    rw [Nat.min_eq_right few, List.rtake, Nat.sub_self, List.drop_zero]
  · rfl

end

/-! ## A purge in which every operation succeeds -/

section
variable {outcomes : Outcomes} {now maxAgeSeconds maxEntries : Int} {content : Text} {files : LogFiles}

theorem cuts_line (outcomes : Outcomes) (kept : List Text) : (cuts outcomes kept).map (·.line) = kept := by
  rw [cuts, List.map_map]
  exact List.zipIdx_map_fst 0 kept

theorem cuts_clean {kept : List Text} (clean : ∀ line ∈ kept, Clean line) : ∀ cut ∈ cuts outcomes kept, Clean cut.line := by
  intro cut inside
  refine clean cut.line ?_
  rw [← cuts_line outcomes kept]
  exact List.mem_map_of_mem inside

/-- What is left out of nothing is nothing. -/
theorem cutText_succeeding (kept : List Text) : cutText (cuts succeeding kept) = unlines kept := by
  have whole (line : Text × Nat) :
      Cut.written { line := line.1, text := line.1.length, ending := lineEnd.length } = line.1 ++ lineEnd := by
    simp [Cut.written]
  calc cutText (cuts succeeding kept) = kept.zipIdx.flatMap fun line => line.1 ++ lineEnd := by
        simp only [cutText, cuts, List.flatMap_map, succeeding, Option.getD_none, whole]
    _ = unlines kept := by rw [unlines, ← List.zipIdx_map_fst 0 kept, List.flatMap_map, List.zipIdx_map_fst]

theorem purge_succeeding (tmp : Option Text) :
    purgeOldLogEntries succeeding now maxAgeSeconds maxEntries { log := some content, tmp } =
      { log := some (unlines (retained now maxAgeSeconds maxEntries content)), tmp := none } := by
  simp only [purgeOldLogEntries, cutText_succeeding, keptLines_eq]
  rfl

/-- A purge whose file operations all succeed leaves the last lines that survive the age
    rule, as many as the cap allows, in their order; the same purge at the same time
    leaves the same file again. Lines from before the clock was set survive, and all
    lines do while it is not. -/
theorem purge_exact (now maxAgeSeconds maxEntries : Int) (content : Text) (tmp : Option Text) :
    let lines := nonblankLines content
    let survivors := lines.filter (Survives now maxAgeSeconds)
    let files := purgeOldLogEntries succeeding now maxAgeSeconds maxEntries { log := some content, tmp }
    files.log.map nonblankLines =
        some (if 0 < maxEntries then survivors.rtake (min maxEntries.toNat survivors.length) else survivors) ∧
      purgeOldLogEntries succeeding now maxAgeSeconds maxEntries files = files ∧
      (∀ line ∈ lines, timestamp line < ntpEpochMin → line ∈ survivors) ∧
      (0 ≤ maxAgeSeconds → now < ntpEpochMin → survivors = lines) := by
  simp only [purge_succeeding, Option.map_some, nonblankLines_unlines retained_clean, retained_again]
  refine ⟨rfl, trivial, fun line inside early => ?_, fun age unset => ?_⟩
  · exact List.mem_filter.mpr ⟨inside, by simpa using .inl early⟩
  · refine List.filter_eq_self.mpr fun line _ => ?_
    refine decide_eq_true ?_
    unfold Survives
    omega

/-- On lines, this is the purge of the records of a log. -/
theorem purge_records (now maxAgeSeconds maxEntries : Nat) (content : Text) :
    retained now maxAgeSeconds maxEntries content =
      MoneyStore.purgeOldLogEntries (fun line => (timestamp line).toNat) true now maxAgeSeconds maxEntries
        (nonblankLines content) := by
  have same : survivors now maxAgeSeconds content = (nonblankLines content).filter fun line =>
      ¬ (ntpEpochMin ≤ (timestamp line).toNat ∧ (timestamp line).toNat + maxAgeSeconds < now) := by
    refine List.filter_congr fun line _ => ?_
    refine decide_eq_decide.mpr ?_
    unfold Survives ntpEpochMin
    omega
  rw [retained, same, MoneyStore.purgeOldLogEntries, if_pos rfl]
  by_cases capped : 0 < maxEntries
  · simp only [capped, Int.natCast_pos, if_true, List.rtake, Int.toNat_natCast]
    congr 1
    omega
  · simp only [capped, Int.natCast_pos, if_false, List.drop_zero]

/-! ## A cut of the power -/

/-- The lines of the log are those that it had, or those that should stay. -/
def Intact (kept : List Text) (before log : Option Text) : Prop :=
  log.map nonblankLines = before.map nonblankLines ∨ log.map nonblankLines = some kept

/-- The cut comes before the log is gone, or after a rename of what was written whole. -/
def Spares (outcomes : Outcomes) (kept : List Text) : Effect → Prop
  | .nothing | .write _ => True
  | .remove => outcomes.removes = false
  | .rename => if outcomes.renames then Whole (cuts outcomes kept) else outcomes.removes = false

instance (outcomes : Outcomes) (kept : List Text) : ∀ effect, Decidable (Spares outcomes kept effect)
  | .nothing | .write _ => .isTrue trivial
  | .remove => inferInstanceAs (Decidable (outcomes.removes = false))
  | .rename => inferInstanceAs (Decidable (if outcomes.renames then Whole (cuts outcomes kept) else outcomes.removes = false))

theorem purgeTrail_last : ((purgeTrail outcomes now maxAgeSeconds maxEntries files).getLast?).map (·.2) =
    some (purgeOldLogEntries outcomes now maxAgeSeconds maxEntries files) := by
  unfold purgeTrail purgeOldLogEntries
  cases files.log with
  | none => rfl
  | some content =>
    simp only
    split
    · rw [List.getLast?_append]
      rfl
    · rfl

/-- What is left of the log when it was to be removed, and when the copy was to take its
    place. -/
theorem removed_intact_iff {kept : List Text} {written : Text} :
    Intact kept (some content) (removed outcomes content written).log ↔ outcomes.removes = false := by
  unfold Intact removed
  cases outcomes.removes <;> simp

theorem renamed_intact_iff :
    Intact (retained now maxAgeSeconds maxEntries content) (some content)
        (renamed outcomes (removed outcomes content
          (cutText (cuts outcomes (retained now maxAgeSeconds maxEntries content))))).log ↔
      Spares outcomes (retained now maxAgeSeconds maxEntries content) .rename := by
  unfold renamed Spares
  split
  · have clean := @cuts_clean outcomes _ (@retained_clean now maxAgeSeconds maxEntries content)
    rw [← nonblankLines_cut_iff clean, cuts_line]
    refine ⟨fun intact => intact.elim (fun same => ?_) fun same => Option.some.inj same,
      fun same => .inr (congrArg some same)⟩
    -- no more is read than should stay, so all of the lines should
    have same : nonblankLines (cutText (cuts outcomes (retained now maxAgeSeconds maxEntries content))) =
      nonblankLines content := Option.some.inj same
    have few := nonblankLines_cut_le clean
    have count := congrArg List.length (cuts_line outcomes (retained now maxAgeSeconds maxEntries content))
    rw [List.length_map] at count
    rw [same, count] at few
    rw [same, retained_sublist.eq_of_length_le few]
  · exact removed_intact_iff

/-- Whatever becomes of the file operations, a cut of the power finds the lines of the
    log, or those that should stay, exactly when it spares them. -/
theorem purge_atomic_iff {point : Effect × LogFiles}
    (inside : point ∈ purgeTrail outcomes now maxAgeSeconds maxEntries files) :
    Intact ((files.log.map (retained now maxAgeSeconds maxEntries)).getD []) files.log point.2.log ↔
      Spares outcomes ((files.log.map (retained now maxAgeSeconds maxEntries)).getD []) point.1 := by
  have untouched : Intact ((files.log.map (retained now maxAgeSeconds maxEntries)).getD []) files.log files.log := .inl rfl
  unfold purgeTrail at inside
  cases there : files.log with
  | none =>
    simp only [there, List.mem_singleton] at inside
    subst inside
    exact iff_of_true (there ▸ untouched) trivial
  | some content =>
    simp only [there, keptLines_eq] at inside
    split at inside
    · rcases List.mem_append.mp inside with early | swap
      · rcases List.mem_cons.mp early with rfl | writing
        · exact iff_of_true (there ▸ untouched) trivial
        · obtain ⟨count, -, rfl⟩ := List.mem_map.mp writing
          exact iff_of_true (there ▸ untouched) trivial
      · rcases List.mem_cons.mp swap with rfl | last
        · exact removed_intact_iff
        · obtain rfl := List.mem_singleton.mp last
          exact renamed_intact_iff
    · obtain rfl := List.mem_singleton.mp inside
      exact iff_of_true (there ▸ untouched) trivial

end

def cashLog : Text := "\x7b\"ts\":1800000000,\"total\":5\x7d\r\n".toList

theorem purge_atomic_sale :
    (.rename, { log := some cashLog, tmp := none }) ∈
        purgeTrail succeeding 1800000100 31536000 0 { log := some cashLog, tmp := none } ∧
      (Intact (retained 1800000100 31536000 0 cashLog) (some cashLog) (some cashLog) ↔
        Spares succeeding (retained 1800000100 31536000 0 cashLog) .rename) :=
  have inside : (.rename, { log := some cashLog, tmp := none }) ∈
      purgeTrail succeeding 1800000100 31536000 0 { log := some cashLog, tmp := none } := by decide +kernel
  ⟨inside, purge_atomic_iff inside⟩

def fullFlash : Outcomes := { succeeding with stops := fun _ => some (0, 0) }

/-- A cut of the power before the rename, and a flash without room for the copy, lose
    the sale. -/
theorem purge_sale_lost :
    ((.remove, { log := none, tmp := some cashLog }) ∈
        purgeTrail succeeding 1800000100 31536000 0 { log := some cashLog, tmp := none } ∧
      ¬ Intact (retained 1800000100 31536000 0 cashLog) (some cashLog) none) ∧
    ((.rename, { log := some [], tmp := none }) ∈
        purgeTrail fullFlash 1800000100 31536000 0 { log := some cashLog, tmp := none } ∧
      ¬ Intact (retained 1800000100 31536000 0 cashLog) (some cashLog) (some [])) := by
  unfold Intact
  decide +kernel

end EllaFi.LogPurge
