import EllaFi.Files
import Mathlib.Data.List.TakeDrop

/-!
The update of the filesystem. Five files are to be copied to memory before the new
image is flashed and written back after it, but there is room for four copies, and the
files of paused sessions are not among them. So an update keeps the data exactly when
not all five files are copied, each of the five that is not copied or not written back
whole is in the image as it was, and the image has every pause with the time that it
had (`update_preserves_iff`).
-/
namespace EllaFi.FsOta
open EllaFi.Files
open Function (update)

/-! ## Files as bytes -/

/-- The content of each path. -/
abbrev FileSystem : Type := String → Option (List UInt8)

/-- The number that bytes begin with, least significant byte first; missing ones are 0. -/
def littleEndian (bytes : List UInt8) : Nat := bytes.foldr (fun byte rest => byte.toNat + 256 * rest) 0

/-- The pause files, four bytes of each. -/
def flashOf (files : FileSystem) : Flash :=
  { Flash.empty with pausedSessions := fun path => (files path).map fun content => littleEndian (content.take 4) }

/-! ## The update -/

def preserveList : List String :=
  ["/config.json", "/vendo_history.json", "/errors.log", "/refunds.log", "/activity.log"]

/-- How many copies there is room for. -/
def preservedSize : Nat := 4

structure SavedFile where
  path : String
  content : List UInt8
deriving DecidableEq, Repr

/-- What becomes of the operations on each path. -/
structure Outcomes where
  opens : String → Bool
  /-- A buffer of the file's size is got; there is none of size 0. -/
  allocates : String → Bool
  /-- The whole file is read. -/
  reads : String → Bool
  reopens : String → Bool
  /-- How many bytes are written back. -/
  writes : String → Nat

section
variable (outcomes : Outcomes)

/-- `none` where a copy is put behind the end of the array. -/
def preserveFile (files : FileSystem) (preserved : List SavedFile) (path : String) : Option (List SavedFile) :=
  match files path with
  | none => some preserved
  | some content =>
    if outcomes.opens path ∧ outcomes.allocates path ∧ outcomes.reads path then
      if preserved.length < preservedSize then some (preserved ++ [{ path, content }]) else none
    else some preserved

def preserveFiles (files : FileSystem) : List String → List SavedFile → Option (List SavedFile)
  | [], preserved => some preserved
  | path :: rest, preserved => (preserveFile outcomes files preserved path).bind (preserveFiles files rest)

/-- A file that does not open for writing is left as the image has it. -/
def restoreFile (files : FileSystem) (saved : SavedFile) : FileSystem :=
  if outcomes.reopens saved.path then update files saved.path (some (saved.content.take (outcomes.writes saved.path)))
  else files

/-- The files after an image is flashed. -/
def flashFs (files image : FileSystem) : Option FileSystem :=
  (preserveFiles outcomes files preserveList []).map fun preserved => preserved.foldl (restoreFile outcomes) image

end

/-! ## What is kept -/

/-- Every file of the list has the bytes that it had, and every client with a pause
    file the paused time. -/
def DataKept (files after : FileSystem) : Prop :=
  (∀ path ∈ preserveList, ∀ content, files path = some content → after path = some content) ∧
    ∀ mac, hasPausedSessionFile (flashOf files) mac →
      loadPausedSessionFile (flashOf after) mac true = loadPausedSessionFile (flashOf files) mac true

section
variable (outcomes : Outcomes) (files : FileSystem)

/-- The file is copied, where there is room. -/
def Copied (path : String) : Prop :=
  (files path).isSome ∧ outcomes.opens path ∧ outcomes.allocates path ∧ outcomes.reads path

instance (path : String) : Decidable (Copied outcomes files path) := inferInstanceAs (Decidable (_ ∧ _))

/-- The copy of a file. -/
def savedFile (path : String) : SavedFile := { path, content := (files path).getD [] }

/-- Not all the files are copied; each is copied and written back whole, or in the
    image; and the image has the pauses. -/
def Keepable (image : FileSystem) : Prop :=
  (∃ path ∈ preserveList, ¬ Copied outcomes files path) ∧
    (∀ path ∈ preserveList, ∀ content, files path = some content →
      if Copied outcomes files path ∧ outcomes.reopens path then content.length ≤ outcomes.writes path
      else image path = some content) ∧
    ∀ mac, hasPausedSessionFile (flashOf files) mac →
      loadPausedSessionFile (flashOf image) mac true = loadPausedSessionFile (flashOf files) mac true

end

section
variable {outcomes : Outcomes} {files image : FileSystem}

theorem preserveFile_eq (preserved : List SavedFile) (path : String) :
    preserveFile outcomes files preserved path =
      if Copied outcomes files path then
        if preserved.length < preservedSize then some (preserved ++ [savedFile files path]) else none
      else some preserved := by
  unfold preserveFile
  cases found : files path with
  | none => simp [Copied, found]
  | some content => simp [Copied, savedFile, found]

/-- The copies are those of the files that are copied, if they fit. -/
theorem preserveFiles_eq (paths : List String) {preserved : List SavedFile} (fits : preserved.length ≤ preservedSize) :
    preserveFiles outcomes files paths preserved =
      if preserved.length + (paths.filter fun path => Copied outcomes files path).length ≤ preservedSize then
        some (preserved ++ (paths.filter fun path => Copied outcomes files path).map (savedFile files))
      else none := by
  induction paths generalizing preserved with
  | nil => simp [preserveFiles, fits]
  | cons path rest ih =>
    rw [preserveFiles, preserveFile_eq]
    by_cases copied : Copied outcomes files path
    · simp only [List.filter_cons, copied, decide_true, if_true]
      by_cases room : preserved.length < preservedSize
      · have step := @ih (preserved ++ [savedFile files path]) (by simp; omega)
        rw [if_pos room, Option.bind_some, step]
        simp only [List.length_append, List.length_cons, List.length_nil, List.append_assoc, List.map_cons,
          List.singleton_append]
        congr 2
        omega
      · rw [if_neg room, Option.bind_none, if_neg (by simp; omega)]
    · simp only [List.filter_cons, copied, decide_false, Bool.false_eq_true, if_false, Option.bind_some, ih fits]

theorem restore_lookup {paths : List String} (distinct : paths.Nodup) (image : FileSystem) (path : String) :
    (paths.map (savedFile files)).foldl (restoreFile outcomes) image path =
      if path ∈ paths ∧ outcomes.reopens path then some (((files path).getD []).take (outcomes.writes path))
      else image path := by
  induction paths generalizing image with
  | nil => simp
  | cons first rest ih =>
    obtain ⟨fresh, distinctRest⟩ := List.nodup_cons.mp distinct
    rw [List.map_cons, List.foldl_cons, ih distinctRest]
    by_cases here : path = first
    · subst here
      by_cases opens : outcomes.reopens path
      · simp [fresh, opens, restoreFile, savedFile]
      · simp [fresh, opens, restoreFile, savedFile]
    · by_cases opens : outcomes.reopens first
      · simp [here, opens, restoreFile, savedFile]
      · simp [here, opens, restoreFile, savedFile]

theorem preserveList_nodup : preserveList.Nodup := by decide

/-- No file of a paused session is in the list. -/
theorem macToFilename_not_preserved (mac : String) : macToFilename mac ∉ preserveList := by
  have second : (macToFilename mac).toList[1]? = some 'p' := by
    simp [macToFilename, String.toList_append]
  intro inside
  have all : ∀ path ∈ preserveList, path.toList[1]? ≠ some 'p' := by decide
  exact all _ inside second

theorem copied_fit_iff :
    (preserveList.filter fun path => Copied outcomes files path).length ≤ preservedSize ↔
      ∃ path ∈ preserveList, ¬ Copied outcomes files path := by
  have short := @List.length_filter_lt_length_iff_exists _ (fun path => decide (Copied outcomes files path)) preserveList
  have all : preserveList.length = preservedSize + 1 := rfl
  rw [all, Nat.lt_succ_iff] at short
  rw [short]
  simp

end

section
variable {outcomes : Outcomes} {files image : FileSystem}

theorem flashFs_eq :
    flashFs outcomes files image =
      if ∃ path ∈ preserveList, ¬ Copied outcomes files path then
        some (((preserveList.filter fun path => Copied outcomes files path).map (savedFile files)).foldl
          (restoreFile outcomes) image)
      else none := by
  rw [flashFs, preserveFiles_eq preserveList (by simp), List.length_nil, Nat.zero_add, List.nil_append]
  by_cases fit : ∃ path ∈ preserveList, ¬ Copied outcomes files path
  · rw [if_pos (copied_fit_iff.mpr fit), if_pos fit, Option.map_some]
  · rw [if_neg fun room => fit (copied_fit_iff.mp room), if_neg fit, Option.map_none]

/-- What an update leaves of a path. -/
theorem flashed_lookup {after : FileSystem} (flashed : flashFs outcomes files image = some after) (path : String) :
    after path =
      if path ∈ preserveList ∧ Copied outcomes files path ∧ outcomes.reopens path then
        some (((files path).getD []).take (outcomes.writes path))
      else image path := by
  rw [flashFs_eq] at flashed
  split at flashed
  · cases flashed
    rw [restore_lookup (preserveList_nodup.filter _)]
    simp only [List.mem_filter, decide_eq_true_eq, and_assoc]
  · cases flashed

/-- No pause file is written back, so that the pauses are those of the image. -/
theorem flashed_pause {after : FileSystem} (flashed : flashFs outcomes files image = some after) (mac : String) :
    loadPausedSessionFile (flashOf after) mac true = loadPausedSessionFile (flashOf image) mac true := by
  have same : after (macToFilename mac) = image (macToFilename mac) := by
    rw [flashed_lookup flashed, if_neg fun listed => macToFilename_not_preserved mac listed.1]
  simp only [loadPausedSessionFile, flashOf, same]

/-- A file of the list has its bytes after the update exactly when it is written back
    whole, or in the image. -/
theorem flashed_kept_iff {after : FileSystem} (flashed : flashFs outcomes files image = some after) {path : String}
    (listed : path ∈ preserveList) {content : List UInt8} (found : files path = some content) :
    after path = some content ↔
      if Copied outcomes files path ∧ outcomes.reopens path then content.length ≤ outcomes.writes path
      else image path = some content := by
  rw [flashed_lookup flashed]
  by_cases written : Copied outcomes files path ∧ outcomes.reopens path
  · rw [if_pos ⟨listed, written⟩, if_pos written, found, Option.getD_some, Option.some.injEq, List.take_eq_self_iff]
  · rw [if_neg fun both => written both.2, if_neg written]

end

/-- An update of the filesystem stays within the array of copies and keeps the listed
    files and the pauses, if and only if one of the five files is not copied, each is
    copied and written back whole or in the image as it was, and the image has the
    pauses. -/
theorem update_preserves_iff (outcomes : Outcomes) (files image : FileSystem) :
    (∃ after, flashFs outcomes files image = some after ∧ DataKept files after) ↔ Keepable outcomes files image := by
  constructor
  · rintro ⟨after, flashed, kept, pauses⟩
    refine ⟨?_, fun path listed content found => ?_, fun mac paused => ?_⟩
    · by_contra all
      rw [flashFs_eq, if_neg all] at flashed
      cases flashed
    · exact (flashed_kept_iff flashed listed found).mp (kept path listed content found)
    · rw [← flashed_pause flashed]
      exact pauses mac paused
  · rintro ⟨fit, kept, pauses⟩
    have flashed := @flashFs_eq outcomes files image
    rw [if_pos fit] at flashed
    refine ⟨_, flashed, fun path listed content found => ?_, fun mac paused => ?_⟩
    · exact (flashed_kept_iff flashed listed found).mpr (kept path listed content found)
    · rw [flashed_pause flashed]
      exact pauses mac paused

/-! ## A full filesystem -/

/-- Every operation succeeds. -/
def allSucceed : Outcomes where
  opens _ := true
  allocates _ := true
  reads _ := true
  reopens _ := true
  writes _ := 1000000

/-- A configuration and a client's pause of a minute. -/
def onePause : FileSystem
  | "/config.json" => some [123, 125]
  | "/pause_001122AABBCC.dat" => some [96, 234, 0, 0]
  | _ => none

/-- Something in each of the five files. -/
def allFive (path : String) : Option (List UInt8) := if path ∈ preserveList then some [10] else none

def noFiles : FileSystem := fun _ => none

/-- With all five files there is a copy too many, and a pause is gone in any case. -/
theorem update_loses :
    flashFs allSucceed allFive noFiles = none ∧
      loadPausedSessionFile (flashOf onePause) "00:11:22:AA:BB:CC" true = 60000 ∧
      ∀ after, flashFs allSucceed onePause noFiles = some after →
        loadPausedSessionFile (flashOf after) "00:11:22:AA:BB:CC" true = 0 := by
  refine ⟨by decide +kernel, by decide +kernel, fun after flashed => ?_⟩
  rw [flashed_pause flashed]
  rfl

end EllaFi.FsOta
