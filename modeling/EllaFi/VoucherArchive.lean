import EllaFi.Dicts
import EllaFi.JsonDoc
import Mathlib.Algebra.Ring.Rat
import Mathlib.Data.Char
import Mathlib.Data.List.Lex
import Mathlib.Data.List.Sort

/-!
The archive of the vouchers. Every backup writes a new snapshot of all groups, and the
archive is built again from all of them, the oldest first; a group keeps the fields and the
codes of the latest snapshots that have them. The archive's own fields stand among those of
the group, so that a group may have none of their names (`own_names_taken`); otherwise
nothing is lost, and the order in which the files are found does not matter
(`archive_complete`).
-/
namespace EllaFi.VoucherArchive
open EllaFi.TextLines (Text)
open EllaFi.JsonDoc (Value)
open EllaFi.Dicts
open EllaFi.Totals (lastOf lastOf_none)

variable {F : Type}

/-! ## Snapshots -/

def idKey : Text := "id".toList
def dataKey : Text := "data".toList

/-- A code, as the controller gives it. -/
structure Code (F : Type) where
  id : Text
  members : Dict Text (Value F)
  carries : get members idKey = some (.text id)

def Code.record (c : Code F) : Value F := .object c.members

structure Group (F : Type) where
  id : Text
  data : List (Code F)
  members : Dict Text (Value F)
  carries : get members idKey = some (.text id)
  listed : (get members dataKey).getD (.array []) = .array (data.map Code.record)

/-- All fields but the codes. -/
def Group.metadata (g : Group F) : Dict Text (Value F) := g.members.filter (·.1 ≠ dataKey)

def Group.records (g : Group F) : Dict Text (Value F) := g.data.map fun c => (c.id, c.record)

/-- A document without `fetchedAt` is read with an empty one. -/
structure Snapshot (F : Type) where
  fetchedAt : Text
  groups : List (Group F)

/-- A file that was found, and what is in it when it can be read. -/
structure File (F : Type) where
  basename : Text
  doc : Option (Snapshot F)

structure Source (F : Type) where
  basename : Text
  doc : Snapshot F

def File.source (file : File F) : Option (Source F) := file.doc.map fun doc => ⟨file.basename, doc⟩

/-- The oldest first. -/
def iterSources (files : List (File F)) : List (Source F) :=
  (files.filterMap File.source).insertionSort fun first second => first.doc.fetchedAt ≤ second.doc.fetchedAt

/-! ## The archive -/

def codesKey : Text := "codes".toList
def firstSeenKey : Text := "_firstSeen".toList
def lastSeenKey : Text := "_lastSeen".toList
def seenInKey : Text := "_seenIn".toList
def totalKey : Text := "totalCodesArchived".toList
def deletedKey : Text := "deletedFromController".toList

abbrev Entry (F : Type) : Type := Dict Text (Value F)

def newEntry (fetched : Text) : Entry F :=
  [(codesKey, .object []), (firstSeenKey, .text fetched), (seenInKey, .array [])]

section
variable [Zero F] [DecidableEq F]

/-- What `if` takes for true. -/
def truthy : Value F → Bool
  | .null => false
  | .bool b => b
  | .int z => z ≠ 0
  | .float x => x ≠ 0
  | .text s => s ≠ []
  | .array items => !items.isEmpty
  | .object members => !members.isEmpty

/-- `min` of a value and a text; values of other types are not compared. -/
def minText (v : Value F) (fetched : Text) : Option (Value F) :=
  match v with
  | .text s => some (.text (min s fetched))
  | _ => none

/-- What `_firstSeen` becomes. -/
def earlier (first : Value F) (fetched : Text) : Option (Value F) :=
  if truthy first then minText first fetched else some (.text fetched)

end

/-- `append`, which only lists have. -/
def append (v : Value F) (item : Value F) : Option (Value F) :=
  match v with
  | .array items => some (.array (items ++ [item]))
  | _ => none

/-- `a["codes"][c["id"]] = c` -/
def putCode (a : Entry F) (c : Code F) : Option (Entry F) :=
  match get a codesKey with
  | some (.object codes) => some (assign codesKey (.object (assign c.id c.record codes)) a)
  | _ => none

/-- `len` -/
def size : Value F → Option Nat
  | .text s => some s.length
  | .array items => some items.length
  | .object members => some members.length
  | _ => none

section
variable [Zero F] [DecidableEq F]

/-- A group of a source, taken over into its entry; none is an exception. -/
def mergeGroup (fetched basename : Text) (g : Group F) (a : Entry F) : Option (Entry F) := do
  let a := update a g.metadata
  let a := assign lastSeenKey (.text fetched) a
  let seenIn ← (get a seenInKey).bind (append · (.text basename))
  let a := assign seenInKey seenIn a
  let first ← (get a firstSeenKey).bind (earlier · fetched)
  let a := assign firstSeenKey first a
  g.data.foldlM putCode a

def archiveGroup (fetched basename : Text) (arch : Dict Text (Entry F)) (g : Group F) : Option (Dict Text (Entry F)) :=
  (mergeGroup fetched basename g ((get arch g.id).getD (newEntry fetched))).map (assign g.id · arch)

def archiveSource (arch : Dict Text (Entry F)) (source : Source F) : Option (Dict Text (Entry F)) :=
  source.doc.groups.foldlM (archiveGroup source.doc.fetchedAt source.basename) arch

/-- The fields that an entry gets in the end. -/
def finishEntry (newestGroupIds : List Text) (gid : Text) (a : Entry F) : Option (Entry F) := do
  let total ← (get a codesKey).bind size
  let a := assign totalKey (.int total) a
  some (assign deletedKey (.bool (gid ∉ newestGroupIds)) a)

/-- The archive, and the number of its sources. -/
def rebuildArchive (files : List (File F)) (newestGroupIds : List Text) : Option (Dict Text (Entry F) × Nat) := do
  let sources := iterSources files
  let arch ← sources.foldlM archiveSource []
  let arch ← mapValues (finishEntry newestGroupIds) arch
  some (arch, sources.length)

end

/-! ## What an entry shows -/

/-- A group in a source. -/
structure Visit (F : Type) where
  fetched : Text
  basename : Text
  group : Group F

def Source.visits (source : Source F) : List (Visit F) :=
  source.doc.groups.map fun group => ⟨source.doc.fetchedAt, source.basename, group⟩

/-- A group with none of the fields that the archive keeps its own in. -/
structure Group.Free (g : Group F) : Prop where
  codes : codesKey ∉ g.members.map (·.1)
  firstSeen : firstSeenKey ∉ g.members.map (·.1)
  seenIn : seenInKey ∉ g.members.map (·.1)

def ownNames : List Text := [codesKey, firstSeenKey, lastSeenKey, seenInKey, totalKey, deletedKey]

/-- An empty time is none. -/
def earlierText (first fetched : Text) : Text := if first ≠ [] then min first fetched else fetched

/-- The entry after the visits of a group, which began with a time. -/
structure Shows (begun : Text) (own : List (Visit F)) (a : Entry F) : Prop where
  codes : get a codesKey = some (.object (update [] (own.flatMap (·.group.records))))
  firstSeen : get a firstSeenKey = some (.text (own.foldl (fun first visit => earlierText first visit.fetched) begun))
  lastSeen : get a lastSeenKey = own.getLast?.map fun visit => .text visit.fetched
  seenIn : get a seenInKey = some (.array (own.map fun visit => .text visit.basename))
  fields : ∀ key ∉ ownNames, get a key = lastOf key (own.flatMap (·.group.metadata))

theorem update_append {Key Value : Type} [DecidableEq Key] (dict before after : Dict Key Value) :
    update (update dict before) after = update dict (before ++ after) := List.foldl_append.symm

theorem shows_new (fetched : Text) : Shows fetched [] (newEntry fetched : Entry F) where
  codes := rfl
  firstSeen := rfl
  lastSeen := rfl
  seenIn := rfl
  fields := fun key other => by
    simp only [ownNames, List.mem_cons, not_or] at other
    obtain ⟨codes, first, -, seen, -⟩ := other
    rw [newEntry, get_cons, if_neg codes, get_cons, if_neg first, get_cons, if_neg seen]
    rfl

section
variable {g : Group F} {a : Entry F}

theorem metadata_free {key : Text} (free : key ∉ g.members.map (·.1)) : lastOf key g.metadata = none := by
  rw [lastOf_none]
  intro entry inside same
  exact free (List.mem_map.mpr ⟨entry, (List.mem_filter.mp inside).1, same⟩)

/-- The codes are put under their ids, and nothing else changes. -/
theorem putCodes (data : List (Code F)) {codes : Dict Text (Value F)} (stored : get a codesKey = some (.object codes)) :
    ∃ next, data.foldlM putCode a = some next ∧
      get next codesKey = some (.object (update codes (data.map fun c => (c.id, c.record)))) ∧
        ∀ key ≠ codesKey, get next key = get a key := by
  induction data generalizing a codes with
  | nil => exact ⟨a, rfl, stored, fun _ _ => rfl⟩
  | cons c rest ih =>
    have put : putCode a c = some (assign codesKey (.object (assign c.id c.record codes)) a) := by
      rw [putCode, stored]
    obtain ⟨next, done, all, others⟩ := ih (a := assign codesKey (.object (assign c.id c.record codes)) a) get_assign_self
    refine ⟨next, by rw [List.foldlM_cons, put]; exact done, all, fun key other => ?_⟩
    rw [others key other, get_assign_ne other]

variable [Zero F] [DecidableEq F]

theorem earlier_text (first fetched : Text) :
    earlier (.text first : Value F) fetched = some (.text (earlierText first fetched)) := by
  unfold earlier earlierText truthy minText
  by_cases empty : first = [] <;> simp [empty]

/-- A visit takes over what the group shows, and changes the archive's own fields. -/
theorem shows_merge {begun : Text} {own : List (Visit F)} (shows : Shows begun own a) (visit : Visit F)
    (free : visit.group.Free) :
    ∃ next, mergeGroup visit.fetched visit.basename visit.group a = some next ∧ Shows begun (own ++ [visit]) next := by
  have kept (key : Text) (absent : key ∉ visit.group.members.map (·.1)) :
      get (update a visit.group.metadata) key = get a key := by
    rw [get_update, metadata_free absent, Option.none_or]
  generalize dated : assign lastSeenKey (.text visit.fetched) (update a visit.group.metadata) = a₁
  have seen : get a₁ seenInKey = some (.array (own.map fun visit => .text visit.basename)) := by
    rw [← dated, get_assign_ne (by decide), kept _ free.seenIn, shows.seenIn]
  generalize listed : assign seenInKey (.array ((own ++ [visit]).map fun visit => .text visit.basename)) a₁ = a₂
  have first : get a₂ firstSeenKey =
      some (.text (own.foldl (fun first visit => earlierText first visit.fetched) begun)) := by
    rw [← listed, get_assign_ne (by decide), ← dated, get_assign_ne (by decide), kept _ free.firstSeen, shows.firstSeen]
  generalize begins : assign firstSeenKey
    (.text ((own ++ [visit]).foldl (fun first visit => earlierText first visit.fetched) begun)) a₂ = a₃
  have stored : get a₃ codesKey = some (.object (update [] (own.flatMap (·.group.records)))) := by
    rw [← begins, get_assign_ne (by decide), ← listed, get_assign_ne (by decide), ← dated, get_assign_ne (by decide),
      kept _ free.codes, shows.codes]
  obtain ⟨next, done, codes, others⟩ := putCodes visit.group.data stored
  refine ⟨next, ?_, ?_⟩
  · rw [List.map_append] at listed
    rw [List.foldl_append] at begins
    simp only [mergeGroup, dated, seen, Option.bind_some, append, Option.bind_eq_bind]
    rw [List.map_singleton] at listed
    rw [listed, first, Option.bind_some, earlier_text, Option.bind_some]
    exact begins ▸ done
  · have early : get a₃ firstSeenKey =
        some (.text ((own ++ [visit]).foldl (fun first visit => earlierText first visit.fetched) begun)) := by
      rw [← begins, get_assign_self]
    have late : get a₃ lastSeenKey = some (.text visit.fetched) := by
      rw [← begins, get_assign_ne (by decide), ← listed, get_assign_ne (by decide), ← dated, get_assign_self]
    have names : get a₃ seenInKey = some (.array ((own ++ [visit]).map fun visit => .text visit.basename)) := by
      rw [← begins, get_assign_ne (by decide), ← listed, get_assign_self]
    exact
      { codes := by rw [codes, update_append, List.flatMap_append, List.flatMap_singleton]; rfl
        firstSeen := by rw [others _ (by decide), early]
        lastSeen := by rw [others _ (by decide), late, List.getLast?_append]; rfl
        seenIn := by rw [others _ (by decide), names]
        fields := fun key other => by
          have apart := other
          simp only [ownNames, List.mem_cons, not_or] at apart
          obtain ⟨notCodes, notFirst, notLast, notSeen, -⟩ := apart
          rw [others key notCodes, ← begins, get_assign_ne notFirst, ← listed, get_assign_ne notSeen, ← dated,
            get_assign_ne notLast, get_update, shows.fields key other, List.flatMap_append, List.flatMap_singleton,
            lastOf_append] }

/-! ## All sources -/

def visitsOf (gid : Text) (visits : List (Visit F)) : List (Visit F) := visits.filter (·.group.id = gid)

/-- Every group that was visited has an entry that shows its visits. -/
structure Archived (visits : List (Visit F)) (arch : Dict Text (Entry F)) : Prop where
  distinct : (arch.map (·.1)).Nodup
  absent : ∀ gid, visitsOf gid visits = [] → get arch gid = none
  present : ∀ gid, ∀ first ∈ (visitsOf gid visits).head?,
    ∃ a, get arch gid = some a ∧ Shows first.fetched (visitsOf gid visits) a

omit [Zero F] [DecidableEq F] in
theorem visitsOf_snoc (gid : Text) (before : List (Visit F)) (visit : Visit F) :
    visitsOf gid (before ++ [visit]) = visitsOf gid before ++ if visit.group.id = gid then [visit] else [] := by
  rw [visitsOf, List.filter_append]
  by_cases same : visit.group.id = gid <;> simp [same, visitsOf]

omit [Zero F] [DecidableEq F] in
theorem Archived.isSome_iff {visits : List (Visit F)} {arch : Dict Text (Entry F)} (archived : Archived visits arch)
    {gid : Text} : (get arch gid).isSome ↔ visitsOf gid visits ≠ [] := by
  cases own : visitsOf gid visits with
  | nil => simp [archived.absent gid own]
  | cons first rest =>
    obtain ⟨a, there, -⟩ := archived.present gid first (by rw [own]; rfl)
    simp [there]

def archiveVisit (arch : Dict Text (Entry F)) (visit : Visit F) : Option (Dict Text (Entry F)) :=
  archiveGroup visit.fetched visit.basename arch visit.group

theorem archiveSource_visits (sources : List (Source F)) (arch : Dict Text (Entry F)) :
    sources.foldlM archiveSource arch = (sources.flatMap Source.visits).foldlM archiveVisit arch := by
  induction sources generalizing arch with
  | nil => rfl
  | cons source rest ih =>
    have own : archiveSource arch source = source.visits.foldlM archiveVisit arch := by
      rw [archiveSource, Source.visits, List.foldlM_map]
      rfl
    rw [List.foldlM_cons, List.flatMap_cons, List.foldlM_append, own]
    exact congrArg _ (funext fun next => ih next)

/-- No visit of a free group raises an exception. -/
theorem archived_visits {visits : List (Visit F)} (free : ∀ visit ∈ visits, visit.group.Free) :
    ∃ arch, visits.foldlM archiveVisit [] = some arch ∧ Archived visits arch := by
  induction visits using List.reverseRecOn with
  | nil => exact ⟨[], rfl, List.nodup_nil, fun _ _ => rfl, nofun⟩
  | append_singleton before visit ih =>
    obtain ⟨arch, done, archived⟩ := ih fun earlier inside => free earlier (List.mem_append_left _ inside)
    have entry : ∃ begun a, (get arch visit.group.id).getD (newEntry visit.fetched) = a ∧
        Shows begun (visitsOf visit.group.id before) a ∧
          ∀ first ∈ (visitsOf visit.group.id before ++ [visit]).head?, first.fetched = begun := by
      cases own : visitsOf visit.group.id before with
      | nil =>
        refine ⟨visit.fetched, _, rfl, ?_, fun first same => by simp_all⟩
        rw [archived.absent _ own]
        exact shows_new visit.fetched
      | cons first rest =>
        obtain ⟨a, there, shows⟩ := archived.present visit.group.id first (by rw [own]; rfl)
        exact ⟨first.fetched, a, by rw [there, Option.getD_some], own ▸ shows, fun other same => by simp_all⟩
    obtain ⟨begun, a, own, shows, begins⟩ := entry
    obtain ⟨next, merged, after⟩ := shows_merge shows visit (free visit (by simp))
    have step : archiveVisit arch visit = some (assign visit.group.id next arch) := by
      rw [archiveVisit, archiveGroup, own, merged]
      rfl
    refine ⟨_, by rw [List.foldlM_append, done]; simpa using step, ?_⟩
    exact
      { distinct := nodup_assign archived.distinct _ _
        absent := fun gid none => by
          rw [visitsOf_snoc] at none
          obtain ⟨earlier, last⟩ := List.append_eq_nil_iff.mp none
          have other : visit.group.id ≠ gid := fun same => by simp [same] at last
          rw [get_assign_ne other.symm, archived.absent gid earlier]
        present := fun gid first head => by
          rw [visitsOf_snoc] at head ⊢
          by_cases same : visit.group.id = gid
          · subst same
            rw [if_pos rfl] at head ⊢
            rw [begins first head]
            exact ⟨next, get_assign_self, after⟩
          · rw [if_neg same, List.append_nil] at head ⊢
            rw [get_assign_ne (Ne.symm same)]
            exact archived.present gid first head }

end

/-! ## What the snapshots have -/

def snapshots (files : List (File F)) : List (Snapshot F) := files.filterMap File.doc

def Snapshot.groupsOf (gid : Text) (s : Snapshot F) : List (Group F) := s.groups.filter (·.id = gid)

/-- The record of a code; where it is listed twice, the last one. -/
def Snapshot.record (gid code : Text) (s : Snapshot F) : Option (Value F) :=
  lastOf code ((s.groupsOf gid).flatMap Group.records)

def Snapshot.field (gid key : Text) (s : Snapshot F) : Option (Value F) :=
  lastOf key ((s.groupsOf gid).flatMap Group.metadata)

def Snapshot.Has (gid : Text) (s : Snapshot F) : Prop := ∃ g ∈ s.groups, g.id = gid

def Snapshot.HasCode (gid code : Text) (s : Snapshot F) : Prop := ∃ g ∈ s.groups, g.id = gid ∧ ∃ c ∈ g.data, c.id = code

/-- The snapshots have different times, and no group has a field in the place of the
    archive's own. -/
structure Proper (files : List (File F)) : Prop where
  distinct : ((snapshots files).map Snapshot.fetchedAt).Nodup
  free : ∀ s ∈ snapshots files, ∀ g ∈ s.groups, g.Free

/-- The entry of a group has every code that a snapshot has and no others, the latest record
    of each, the latest value of each field but some, the first time, unless it is empty, and
    the last one. -/
structure Preserves (own : Text → Prop) (snapshots : List (Snapshot F)) (newestGroupIds : List Text) (gid : Text)
    (a : Entry F) : Prop where
  codes : ∃ codes, get a codesKey = some (.object codes) ∧ get a totalKey = some (.int codes.length) ∧
    (∀ code, (get codes code).isSome ↔ ∃ s ∈ snapshots, s.HasCode gid code) ∧
    ∀ code record, get codes code = some record ↔
      IsLatest Snapshot.fetchedAt (Snapshot.record gid code) snapshots record
  fields : ∀ key, ¬ own key → ∀ value, IsLatest Snapshot.fetchedAt (Snapshot.field gid key) snapshots value →
    get a key = some value
  firstSeen : ∃ s ∈ snapshots, s.Has gid ∧ get a firstSeenKey = some (.text s.fetchedAt) ∧
    ∀ other ∈ snapshots, other.Has gid → other.fetchedAt ≠ [] → s.fetchedAt ≠ [] ∧ s.fetchedAt ≤ other.fetchedAt
  lastSeen : ∃ s ∈ snapshots, s.Has gid ∧ get a lastSeenKey = some (.text s.fetchedAt) ∧
    ∀ other ∈ snapshots, other.Has gid → other.fetchedAt ≤ s.fetchedAt
  deleted : get a deletedKey = some (.bool (gid ∉ newestGroupIds))

/-- The archive has the groups of all snapshots and no others. -/
structure Complete (own : Text → Prop) (snapshots : List (Snapshot F)) (newestGroupIds : List Text)
    (arch : Dict Text (Entry F)) : Prop where
  groups : ∀ gid, (get arch gid).isSome ↔ ∃ s ∈ snapshots, s.Has gid
  entries : ∀ gid a, get arch gid = some a → Preserves own snapshots newestGroupIds gid a

def docs (files : List (File F)) : List (Snapshot F) := (iterSources files).map Source.doc

section
variable {gid : Text} {files : List (File F)} {sources : List (Source F)}

theorem docs_perm (files : List (File F)) : (docs files).Perm (snapshots files) := by
  have found : (files.filterMap File.source).map Source.doc = snapshots files := by
    rw [snapshots, List.map_filterMap]
    congr 1
    funext file
    cases read : file.doc <;> simp [File.source, read]
  rw [← found]
  exact (List.perm_insertionSort _ _).map _

/-- Sources of different times are in the order of their times. -/
theorem iterSources_ordered (distinct : ((snapshots files).map Snapshot.fetchedAt).Nodup) :
    (iterSources files).Pairwise fun earlier later => earlier.doc.fetchedAt < later.doc.fetchedAt := by
  have total : Std.Total fun first second : Source F => first.doc.fetchedAt ≤ second.doc.fetchedAt :=
    ⟨fun first second => le_total first.doc.fetchedAt second.doc.fetchedAt⟩
  have trans : IsTrans (Source F) fun first second => first.doc.fetchedAt ≤ second.doc.fetchedAt :=
    ⟨fun _ _ _ => le_trans⟩
  have sorted : (iterSources files).Pairwise fun first second => first.doc.fetchedAt ≤ second.doc.fetchedAt :=
    List.pairwise_insertionSort _ _
  have apart : ((iterSources files).map fun source => source.doc.fetchedAt).Nodup := by
    have nodup := (((docs_perm files).map Snapshot.fetchedAt).nodup_iff).mpr distinct
    rw [docs, List.map_map] at nodup
    exact nodup
  exact sorted.imp₂ (fun _ _ low different => lt_of_le_of_ne low different) (List.pairwise_map.mp apart)

theorem visitsOf_cons (gid : Text) (source : Source F) (rest : List (Source F)) :
    visitsOf gid ((source :: rest).flatMap Source.visits) =
      ((source.doc.groupsOf gid).map fun group => ⟨source.doc.fetchedAt, source.basename, group⟩) ++
        visitsOf gid (rest.flatMap Source.visits) := by
  rw [List.flatMap_cons, visitsOf, List.filter_append, Source.visits, List.filter_map]
  rfl

/-- What the visits of a group bring is what the snapshots have of it, in turn. -/
theorem visitsOf_flatMap {Key : Type} (entries : Group F → Dict Key (Value F)) (gid : Text) (sources : List (Source F)) :
    (visitsOf gid (sources.flatMap Source.visits)).flatMap (fun visit => entries visit.group) =
      (sources.map Source.doc).flatMap fun s => (s.groupsOf gid).flatMap entries := by
  induction sources with
  | nil => rfl
  | cons source rest ih =>
    rw [visitsOf_cons, List.flatMap_append, ih, List.map_cons, List.flatMap_cons, List.flatMap_map]

theorem mem_visitsOf {visit : Visit F} :
    visit ∈ visitsOf gid (sources.flatMap Source.visits) ↔
      ∃ source ∈ sources, ∃ group ∈ source.doc.groups, group.id = gid ∧
        ⟨source.doc.fetchedAt, source.basename, group⟩ = visit := by
  simp only [visitsOf, List.mem_filter, List.mem_flatMap, Source.visits, List.mem_map, decide_eq_true_eq]
  constructor
  · rintro ⟨⟨source, inside, group, listed, rfl⟩, same⟩
    exact ⟨source, inside, group, listed, same, rfl⟩
  · rintro ⟨source, inside, group, listed, same, rfl⟩
    exact ⟨⟨source, inside, group, listed, rfl⟩, same⟩

/-- The times of the visits are those of the snapshots that have the group. -/
theorem mem_times {fetched : Text} :
    (∃ visit ∈ visitsOf gid ((iterSources files).flatMap Source.visits), visit.fetched = fetched) ↔
      ∃ s ∈ snapshots files, s.Has gid ∧ s.fetchedAt = fetched := by
  have listed : ∀ s, s ∈ snapshots files ↔ ∃ source ∈ iterSources files, source.doc = s := fun s => by
    rw [← (docs_perm files).mem_iff, docs, List.mem_map]
  constructor
  · rintro ⟨visit, inside, rfl⟩
    obtain ⟨source, found, group, has, same, rfl⟩ := mem_visitsOf.mp inside
    exact ⟨source.doc, (listed _).mpr ⟨source, found, rfl⟩, ⟨group, has, same⟩, rfl⟩
  · rintro ⟨s, inside, ⟨group, has, same⟩, rfl⟩
    obtain ⟨source, found, rfl⟩ := (listed s).mp inside
    exact ⟨_, mem_visitsOf.mpr ⟨source, found, group, has, same, rfl⟩, rfl⟩

theorem visited_iff :
    visitsOf gid ((iterSources files).flatMap Source.visits) ≠ [] ↔ ∃ s ∈ snapshots files, s.Has gid := by
  constructor
  · intro visited
    obtain ⟨visit, inside⟩ := List.exists_mem_of_ne_nil _ visited
    obtain ⟨s, found, has, -⟩ := mem_times.mp ⟨visit, inside, rfl⟩
    exact ⟨s, found, has⟩
  · rintro ⟨s, found, has⟩
    obtain ⟨visit, inside, -⟩ := mem_times.mpr ⟨s, found, has, rfl⟩
    exact List.ne_nil_of_mem inside

theorem visitsOf_ordered (ordered : sources.Pairwise fun earlier later => earlier.doc.fetchedAt < later.doc.fetchedAt) :
    (visitsOf gid (sources.flatMap Source.visits)).Pairwise fun earlier later => earlier.fetched ≤ later.fetched := by
  induction sources with
  | nil => exact List.Pairwise.nil
  | cons source rest ih =>
    obtain ⟨first, others⟩ := List.pairwise_cons.mp ordered
    rw [visitsOf_cons]
    refine List.pairwise_append.mpr ⟨?_, ih others, fun visit here later inside => ?_⟩
    · exact List.pairwise_map.mpr (List.pairwise_of_forall fun _ _ => le_rfl)
    · obtain ⟨group, -, rfl⟩ := List.mem_map.mp here
      obtain ⟨other, found, _, -, -, rfl⟩ := mem_visitsOf.mp inside
      exact (first other found).le

theorem le_getLast {visits : List (Visit F)} {visit last : Visit F}
    (ordered : visits.Pairwise fun earlier later => earlier.fetched ≤ later.fetched) (ends : visits.getLast? = some last)
    (inside : visit ∈ visits) : visit.fetched ≤ last.fetched := by
  obtain ⟨before, rfl⟩ := List.getLast?_eq_some_iff.mp ends
  rcases List.mem_append.mp inside with earlier | same
  · exact (List.pairwise_append.mp ordered).2.2 visit earlier last List.mem_cons_self
  · rw [List.mem_singleton.mp same]

/-- The first time that is not empty, when there is one. -/
theorem earliest_dated {times : List Text} {begun : Text} (ordered : (begun :: times).Pairwise (· ≤ ·)) :
    times.foldl earlierText begun ∈ begun :: times ∧
      ∀ t ∈ begun :: times, t ≠ [] → times.foldl earlierText begun ≠ [] ∧ times.foldl earlierText begun ≤ t := by
  induction times generalizing begun with
  | nil =>
    refine ⟨List.mem_cons_self, fun t same dated => ?_⟩
    rw [List.mem_singleton.mp same] at dated ⊢
    exact ⟨dated, le_rfl⟩
  | cons time rest ih =>
    obtain ⟨first, others⟩ := List.pairwise_cons.mp ordered
    rw [List.foldl_cons, earlierText]
    by_cases empty : begun = []
    · -- an empty time is forgotten
      obtain ⟨inside, least⟩ := ih others
      rw [if_neg (not_not.mpr empty)]
      refine ⟨List.mem_cons_of_mem _ inside, fun t member dated => ?_⟩
      exact least t ((List.mem_cons.mp member).resolve_left fun same => dated (same.trans empty)) dated
    · have later : (begun :: rest).Pairwise (· ≤ ·) :=
        List.pairwise_cons.mpr ⟨fun t inside => first t (List.mem_cons_of_mem _ inside), (List.pairwise_cons.mp others).2⟩
      obtain ⟨inside, least⟩ := ih later
      rw [if_pos empty, min_eq_left (first time List.mem_cons_self)]
      refine ⟨List.mem_cons.mpr ((List.mem_cons.mp inside).imp_right (List.mem_cons_of_mem _)), fun t member dated => ?_⟩
      obtain ⟨kept, bound⟩ := least begun List.mem_cons_self empty
      rcases List.mem_cons.mp member with same | after
      · exact ⟨kept, same ▸ bound⟩
      · exact ⟨kept, bound.trans (first t after)⟩

theorem earliest_visit {own : List (Visit F)} {first : Visit F} (head : own.head? = some first)
    (ordered : own.Pairwise fun earlier later => earlier.fetched ≤ later.fetched) :
    ∃ visit ∈ own, own.foldl (fun first visit => earlierText first visit.fetched) first.fetched = visit.fetched ∧
      ∀ other ∈ own, other.fetched ≠ [] → visit.fetched ≠ [] ∧ visit.fetched ≤ other.fetched := by
  obtain ⟨rest, rfl⟩ : ∃ rest, own = first :: rest := List.head?_eq_some_iff.mp head
  have times : (first.fetched :: (first :: rest).map Visit.fetched).Pairwise (· ≤ ·) := by
    refine List.pairwise_cons.mpr ⟨fun t inside => ?_, List.pairwise_map.mpr ordered⟩
    obtain ⟨visit, listed, rfl⟩ := List.mem_map.mp inside
    rcases List.mem_cons.mp listed with same | later
    · rw [same]
    · exact (List.pairwise_cons.mp ordered).1 visit later
  obtain ⟨inside, least⟩ := earliest_dated times
  have among : (first.fetched :: (first :: rest).map Visit.fetched) ⊆ (first :: rest).map Visit.fetched :=
    List.cons_subset.mpr ⟨List.mem_cons_self, List.Subset.refl _⟩
  obtain ⟨visit, own, same⟩ := List.mem_map.mp (among inside)
  refine ⟨visit, own, ?_, fun other member dated => ?_⟩
  · rw [same, List.foldl_map]
  · rw [same]
    exact least _ (List.mem_cons_of_mem _ (List.mem_map_of_mem member)) dated

theorem latest_docs (distinct : ((snapshots files).map Snapshot.fetchedAt).Nodup) {view : Snapshot F → Option (Value F)}
    {value : Value F} : latest view (docs files) = some value ↔ IsLatest Snapshot.fetchedAt view (snapshots files) value := by
  have ordered : (docs files).Pairwise fun earlier later => earlier.fetchedAt < later.fetchedAt :=
    List.pairwise_map.mpr (iterSources_ordered distinct)
  rw [latest_iff ordered]
  simp only [IsLatest, (docs_perm files).mem_iff]

/-- The last of what the visits bring under a key is the latest that the snapshots have. -/
theorem lastOf_visits {Key : Type} [DecidableEq Key] (entries : Group F → Dict Key (Value F)) (gid : Text) (key : Key) :
    lastOf key ((visitsOf gid ((iterSources files).flatMap Source.visits)).flatMap fun visit => entries visit.group) =
      latest (fun s => lastOf key ((s.groupsOf gid).flatMap entries)) (docs files) := by
  rw [visitsOf_flatMap, lastOf_flatMap]
  rfl

theorem record_isSome {code : Text} {s : Snapshot F} : (s.record gid code).isSome ↔ s.HasCode gid code := by
  rw [Option.isSome_iff_ne_none, Snapshot.record, ne_eq, lastOf_none]
  simp only [Snapshot.groupsOf, Group.records, List.mem_flatMap, List.mem_filter, List.mem_map, decide_eq_true_eq]
  push Not
  constructor
  · rintro ⟨_, ⟨g, ⟨inside, same⟩, c, listed, rfl⟩, own⟩
    exact ⟨g, inside, same, c, listed, own⟩
  · rintro ⟨g, inside, same, c, listed, own⟩
    exact ⟨_, ⟨g, ⟨inside, same⟩, c, listed, rfl⟩, own⟩

theorem finish_shows {begun : Text} {own : List (Visit F)} {a : Entry F} (shows : Shows begun own a) (newestGroupIds : List Text)
    (gid : Text) :
    ∃ next, finishEntry newestGroupIds gid a = some next ∧
      get next totalKey = some (.int (update [] (own.flatMap (·.group.records))).length) ∧
      get next deletedKey = some (.bool (gid ∉ newestGroupIds)) ∧
      ∀ key ≠ deletedKey, key ≠ totalKey → ∀ value, get a key = some value → get next key = some value := by
  refine ⟨assign deletedKey (.bool (gid ∉ newestGroupIds))
    (assign totalKey (.int (update [] (own.flatMap (·.group.records))).length) a), ?_, ?_, get_assign_self, ?_⟩
  · simp only [finishEntry, shows.codes, Option.bind_some, size, Option.bind_eq_bind]
  · rw [get_assign_ne (by decide), get_assign_self]
  · intro key notDeleted notTotal value there
    rw [get_assign_ne notDeleted, get_assign_ne notTotal, there]

/-- The first visit of a group that has a time, as a snapshot. -/
theorem first_snapshot {first : Visit F}
    (distinct : ((snapshots files).map Snapshot.fetchedAt).Nodup)
    (head : (visitsOf gid ((iterSources files).flatMap Source.visits)).head? = some first) :
    ∃ s ∈ snapshots files, s.Has gid ∧
      (visitsOf gid ((iterSources files).flatMap Source.visits)).foldl
          (fun first visit => earlierText first visit.fetched) first.fetched = s.fetchedAt ∧
        ∀ other ∈ snapshots files, other.Has gid → other.fetchedAt ≠ [] →
          s.fetchedAt ≠ [] ∧ s.fetchedAt ≤ other.fetchedAt := by
  obtain ⟨visit, inside, first, least⟩ := earliest_visit head (visitsOf_ordered (iterSources_ordered distinct))
  obtain ⟨s, found, has, same⟩ := mem_times.mp ⟨visit, inside, rfl⟩
  refine ⟨s, found, has, first.trans same.symm, fun other there seen dated => ?_⟩
  obtain ⟨earlier, member, own⟩ := mem_times.mpr ⟨other, there, seen, rfl⟩
  rw [same, ← own]
  exact least earlier member (own ▸ dated)

theorem last_snapshot (distinct : ((snapshots files).map Snapshot.fetchedAt).Nodup)
    (visited : visitsOf gid ((iterSources files).flatMap Source.visits) ≠ []) :
    ∃ s ∈ snapshots files, s.Has gid ∧
      (visitsOf gid ((iterSources files).flatMap Source.visits)).getLast?.map Visit.fetched = some s.fetchedAt ∧
        ∀ other ∈ snapshots files, other.Has gid → other.fetchedAt ≤ s.fetchedAt := by
  have ends := List.getLast?_eq_some_getLast visited
  obtain ⟨s, found, has, same⟩ := mem_times.mp ⟨_, List.getLast_mem visited, rfl⟩
  refine ⟨s, found, has, by rw [ends, same]; rfl, fun other there seen => ?_⟩
  obtain ⟨visit, member, own⟩ := mem_times.mpr ⟨other, there, seen, rfl⟩
  rw [same, ← own]
  exact le_getLast (visitsOf_ordered (iterSources_ordered distinct)) ends member

/-- An entry that shows the visits of its group, once it is finished, preserves it. -/
theorem preserves_finished (distinct : ((snapshots files).map Snapshot.fetchedAt).Nodup) {first : Visit F} {a : Entry F}
    (head : (visitsOf gid ((iterSources files).flatMap Source.visits)).head? = some first)
    (shows : Shows first.fetched (visitsOf gid ((iterSources files).flatMap Source.visits)) a) (newestGroupIds : List Text) :
    ∃ next, finishEntry newestGroupIds gid a = some next ∧
      Preserves (· ∈ ownNames) (snapshots files) newestGroupIds gid next := by
  obtain ⟨next, finished, total, deleted, kept⟩ := finish_shows shows newestGroupIds gid
  have code (id : Text) :
      get (update [] ((visitsOf gid ((iterSources files).flatMap Source.visits)).flatMap (·.group.records))) id =
        latest (Snapshot.record gid id) (docs files) := by
    rw [get_update, get_nil, Option.or_none, lastOf_visits]
    rfl
  refine ⟨next, finished, ?_⟩
  exact
    { codes := ⟨_, kept _ (by decide) (by decide) _ shows.codes, total,
        fun id => by simp only [code, latest_isSome, (docs_perm files).mem_iff, record_isSome],
        fun id record => by rw [code, latest_docs distinct]⟩
      fields := fun key other value newest => by
        have apart := other
        simp only [ownNames, List.mem_cons, not_or] at apart
        obtain ⟨-, -, -, -, notTotal, notDeleted, -⟩ := apart
        refine kept key notDeleted notTotal value ?_
        rw [shows.fields key other, lastOf_visits]
        exact (latest_docs distinct).mpr newest
      firstSeen := by
        obtain ⟨s, found, has, first, least⟩ := first_snapshot distinct head
        exact ⟨s, found, has, kept _ (by decide) (by decide) _ (by rw [shows.firstSeen, first]), least⟩
      lastSeen := by
        have visited : visitsOf gid ((iterSources files).flatMap Source.visits) ≠ [] := fun none => by simp [none] at head
        obtain ⟨s, found, has, last, greatest⟩ := last_snapshot distinct visited
        refine ⟨s, found, has, kept _ (by decide) (by decide) _ ?_, greatest⟩
        rw [shows.lastSeen]
        obtain ⟨visit, ends, same⟩ := Option.map_eq_some_iff.mp last
        rw [ends, ← same]
        rfl
      deleted }

theorem visits_free (proper : Proper files) {visit : Visit F}
    (inside : visit ∈ (iterSources files).flatMap Source.visits) : visit.group.Free := by
  obtain ⟨source, found, listed⟩ := List.mem_flatMap.mp inside
  obtain ⟨group, has, rfl⟩ := List.mem_map.mp listed
  exact proper.free source.doc ((docs_perm files).mem_iff.mp (List.mem_map_of_mem found)) group has

theorem proper_perm {others : List (File F)} (perm : files.Perm others) (proper : Proper files) : Proper others where
  distinct := (((perm.filterMap File.doc).map Snapshot.fetchedAt).nodup_iff).mp proper.distinct
  free := fun s inside => proper.free s ((perm.filterMap File.doc).mem_iff.mpr inside)

/-- The files may be found in any order. -/
theorem iterSources_perm {others : List (File F)} (perm : files.Perm others) (proper : Proper files) :
    iterSources others = iterSources files := by
  have same : (iterSources others).Perm (iterSources files) :=
    ((List.perm_insertionSort _ _).trans (perm.symm.filterMap File.source)).trans (List.perm_insertionSort _ _).symm
  exact List.Perm.eq_of_pairwise (fun _ _ _ _ before after => absurd before (lt_asymm after))
    (iterSources_ordered (proper_perm perm proper).distinct) (iterSources_ordered proper.distinct) same

theorem finish_preserves (distinct : ((snapshots files).map Snapshot.fetchedAt).Nodup) {arch : Dict Text (Entry F)}
    (archived : Archived ((iterSources files).flatMap Source.visits) arch) {a : Entry F} (there : get arch gid = some a)
    (newestGroupIds : List Text) :
    ∃ next, finishEntry newestGroupIds gid a = some next ∧
      Preserves (· ∈ ownNames) (snapshots files) newestGroupIds gid next := by
  cases head : (visitsOf gid ((iterSources files).flatMap Source.visits)).head? with
  | none =>
    rw [archived.absent gid (List.head?_eq_none_iff.mp head)] at there
    cases there
  | some first =>
    obtain ⟨own, stored, shows⟩ := archived.present gid first head
    obtain rfl : a = own := Option.some.inj (there.symm.trans stored)
    exact preserves_finished distinct head shows newestGroupIds

variable [Zero F] [DecidableEq F]

/-- The archive is built, and nothing is lost in it. -/
theorem rebuild_complete (proper : Proper files) (newestGroupIds : List Text) :
    ∃ arch, rebuildArchive files newestGroupIds = some (arch, (snapshots files).length) ∧
      Complete (· ∈ ownNames) (snapshots files) newestGroupIds arch := by
  obtain ⟨arch, merged, archived⟩ := archived_visits fun _ inside => visits_free proper inside
  have entry (gid : Text) (a : Entry F) (there : get arch gid = some a) :=
    finish_preserves proper.distinct archived there newestGroupIds
  obtain ⟨final, finished⟩ : ∃ final, mapValues (finishEntry newestGroupIds) arch = some final :=
    mapValues_total fun item inside => by
      obtain ⟨next, done, -⟩ := entry item.1 item.2 (get_of_mem archived.distinct inside)
      exact ⟨next, done⟩
  have found := get_mapValues finished
  refine ⟨final, ?_, fun gid => ?_, fun gid a there => ?_⟩
  · have length : (iterSources files).length = (snapshots files).length := by
      rw [← (docs_perm files).length_eq, docs, List.length_map]
    simp [rebuildArchive, archiveSource_visits, merged, finished, length]
  · rw [← visited_iff, ← archived.isSome_iff, found]
    cases there : get arch gid with
    | none => rfl
    | some a =>
      obtain ⟨next, done, -⟩ := entry gid a there
      rw [Option.bind_some, done]
      rfl
  · rw [found, Option.bind_eq_some_iff] at there
    obtain ⟨before, stored, done⟩ := there
    obtain ⟨next, same, preserves⟩ := entry gid before stored
    rw [done, Option.some.injEq] at same
    exact same ▸ preserves

/-- Every group and every code is still there. -/
def Keeps (arch later : Dict Text (Entry F)) : Prop :=
  ∀ gid a, get arch gid = some a → ∃ next, get later gid = some next ∧
    ∀ codes, get a codesKey = some (.object codes) → ∃ others, get next codesKey = some (.object others) ∧
      ∀ code, (get codes code).isSome → (get others code).isSome

omit [Zero F] [DecidableEq F] in
theorem keeps_complete {own : Text → Prop} {few many : List (Snapshot F)} {ids newer : List Text}
    {arch later : Dict Text (Entry F)} (more : few ⊆ many) (complete : Complete own few ids arch)
    (completeLater : Complete own many newer later) : Keeps arch later := by
  intro gid a there
  obtain ⟨s, inside, has⟩ := (complete.groups gid).mp (Option.isSome_iff_exists.mpr ⟨a, there⟩)
  obtain ⟨next, still⟩ := Option.isSome_iff_exists.mp ((completeLater.groups gid).mpr ⟨s, more inside, has⟩)
  refine ⟨next, still, fun codes stored => ?_⟩
  obtain ⟨own, same, -, union, -⟩ := (complete.entries gid a there).codes
  obtain ⟨others, storedLater, -, unionLater, -⟩ := (completeLater.entries gid next still).codes
  obtain rfl : codes = own := by simpa [stored] using same
  refine ⟨others, storedLater, fun code kept => ?_⟩
  obtain ⟨s, inside, has⟩ := (union code).mp kept
  exact (unionLater code).mpr ⟨s, more inside, has⟩

/-- Whatever is in some snapshot is in the archive, as the latest has it, whichever way the
    files are found; and another snapshot takes nothing away. -/
theorem archive_complete (proper : Proper files) (newestGroupIds : List Text) :
    ∃ arch, rebuildArchive files newestGroupIds = some (arch, (snapshots files).length) ∧
      Complete (· ∈ ownNames) (snapshots files) newestGroupIds arch ∧
      (∀ others, files.Perm others → rebuildArchive others newestGroupIds = rebuildArchive files newestGroupIds) ∧
      ∀ file ids, Proper (file :: files) → ∃ later count, rebuildArchive (file :: files) ids = some (later, count) ∧
        Keeps arch later := by
  obtain ⟨arch, built, complete⟩ := rebuild_complete proper newestGroupIds
  refine ⟨arch, built, complete, fun others perm => ?_, fun file ids properLater => ?_⟩
  · rw [rebuildArchive, rebuildArchive, iterSources_perm perm proper]
  · obtain ⟨later, builtLater, completeLater⟩ := rebuild_complete properLater ids
    exact ⟨later, _, builtLater, keeps_complete ((List.sublist_cons_self file files).filterMap File.doc).subset complete
      completeLater⟩

end

/-! ## Three files -/

def soldCode : Code Rat where
  id := "c1".toList
  members := [(idKey, .text "c1".toList), ("status".toList, .int 1)]
  carries := rfl

def soldGroup : Group Rat where
  id := "g1".toList
  data := [soldCode]
  members := [(idKey, .text "g1".toList), ("name".toList, .text "July".toList), (dataKey, .array [soldCode.record])]
  carries := rfl
  listed := rfl

/-- The group a week later, with another name and a second code. -/
def soldLater : Group Rat where
  id := "g1".toList
  data := [soldCode, { soldCode with id := "c2".toList, members := [(idKey, .text "c2".toList)], carries := rfl }]
  members := [(idKey, .text "g1".toList), ("name".toList, .text "Summer".toList),
    (dataKey, .array [soldCode.record, .object [(idKey, .text "c2".toList)]])]
  carries := rfl
  listed := rfl

theorem soldGroup_free : soldGroup.Free ∧ soldLater.Free := ⟨⟨by decide, by decide, by decide⟩, ⟨by decide, by decide, by decide⟩⟩

def found : List (File Rat) :=
  [{ basename := "voucher_snapshot_3.json".toList
     doc := some { fetchedAt := "2026-07-08T08:00:00".toList, groups := [soldLater] } },
    { basename := "voucher_snapshot_1.json".toList, doc := none },
    { basename := "voucher_snapshot_2.json".toList
      doc := some { fetchedAt := "2026-07-01T08:00:00".toList, groups := [soldGroup] } }]

theorem archive_complete_found :
    ∃ arch, rebuildArchive found [] = some (arch, 2) ∧ Complete (· ∈ ownNames) (snapshots found) [] arch := by
  obtain ⟨free, freeLater⟩ := soldGroup_free
  obtain ⟨arch, built, complete, -⟩ := archive_complete
    (show Proper found from
      { distinct := by decide
        free := List.forall_mem_cons.mpr
          ⟨List.forall_mem_singleton.mpr freeLater, List.forall_mem_singleton.mpr (List.forall_mem_singleton.mpr free)⟩ }) []
  exact ⟨arch, built, complete⟩

/-- A group with an empty list in the place of one of the archive's own fields. -/
def namesake (name : Text) : Group Rat where
  id := "g1".toList
  data := [soldCode]
  members := [(idKey, .text "g1".toList), (dataKey, .array [soldCode.record]), (name, .array [])]
  carries := rfl
  listed := rfl

def foundNamesake (name : Text) : List (File Rat) :=
  [{ basename := "voucher_snapshot_1.json".toList
     doc := some { fetchedAt := "2026-07-01T08:00:00".toList, groups := [namesake name] } }]

def isEmptyArray : Value Rat → Bool
  | .array [] => true
  | _ => false

/-- The archive has such a list only where it is not built. -/
theorem namesake_lost : ∀ name ∈ ownNames,
    ∀ r ∈ rebuildArchive (foundNamesake name) [], ∀ a ∈ get r.1 "g1".toList, ∀ v ∈ get a name, ¬ isEmptyArray v := by
  decide +kernel

/-- With a field under any one of these names the archive is not what it should be, even if
    nothing is asked of the others. -/
theorem own_names_taken :
    ¬ ∃ name ∈ ownNames, ∀ (files : List (File Rat)) (newestGroupIds : List Text),
      ((snapshots files).map Snapshot.fetchedAt).Nodup →
        ∃ arch count, rebuildArchive files newestGroupIds = some (arch, count) ∧
          Complete (fun key => key ∈ ownNames ∧ key ≠ name) (snapshots files) newestGroupIds arch := by
  rintro ⟨name, own, complete⟩
  obtain ⟨arch, count, built, shown⟩ := complete (foundNamesake name) [] (List.nodup_singleton _)
  have has : ∃ s ∈ snapshots (foundNamesake name), s.Has "g1".toList :=
    ⟨_, List.mem_singleton_self _, namesake name, List.mem_singleton_self _, rfl⟩
  obtain ⟨a, stored⟩ := Option.isSome_iff_exists.mp ((shown.groups "g1".toList).mpr has)
  have newest : IsLatest Snapshot.fetchedAt (Snapshot.field "g1".toList name) (snapshots (foundNamesake name)) (.array []) := by
    have field : ∀ name ∈ ownNames, ((foundNamesake name).head?.bind File.doc).bind (Snapshot.field "g1".toList name) =
        some (.array []) := by
      simp only [ownNames, List.forall_mem_cons]
      exact ⟨rfl, rfl, rfl, rfl, rfl, rfl, nofun⟩
    exact ⟨_, List.mem_singleton_self _, field name own, fun other same _ => (List.mem_singleton.mp same ▸ le_rfl)⟩
  have kept := (shown.entries "g1".toList a stored).fields name (fun apart => apart.2 rfl) _ newest
  exact namesake_lost name own _ built a stored _ kept rfl

end EllaFi.VoucherArchive
