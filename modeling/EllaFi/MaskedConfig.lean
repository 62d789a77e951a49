import EllaFi.ConfigFile

/-!
The masked configuration, posted back. On top, a secret is masked, recognised by its mask
and left as it was; any other member comes back with the masks that are in it
(`merge_masked`). So posting it changes nothing exactly when it is refused, or every
member that is no secret has no secret in it and is read as it was written, twice over,
and every secret is read as it was written (`masked_round_trip_iff`).
-/
namespace EllaFi.MaskedConfig
open EllaFi.TextLines (Text cString)
open EllaFi.JsonDoc (Value Library)
open EllaFi.ConfigFile

section
variable {F : Type} (lib : Library F)

/-- What a member of the configuration comes back as. -/
def returnedValue (member : Text × Value F) : Value F :=
  if Secret member.1 then member.2 else lib.rereading (maskSecrets member.2)

def returned (doc : Value F) : Value F := .object (doc.members.map fun member => (member.1, returnedValue lib member))

/-- A secret is read as it was written; another member has no secret in it, and is read
    so twice over. -/
def Restored (member : Text × Value F) : Prop :=
  if Secret member.1 then lib.rereading member.2 = member.2
  else maskSecrets member.2 = member.2 ∧ lib.rereading (lib.rereading member.2) = member.2

end

/-! ## Masks in a document -/

section
variable {F : Type}

theorem maskItems_eq (items : List (Value F)) : maskItems items = items.map maskSecrets := by
  induction items with
  | nil => rfl
  | cons item rest ih => rw [maskItems, ih, List.map_cons]

theorem maskMembers_eq (members : List (Text × Value F)) :
    maskMembers members = members.map fun member =>
      (member.1, if Secret member.1 then .text mask else maskSecrets member.2) := by
  induction members with
  | nil => rfl
  | cons member rest ih => rw [maskMembers, ih, List.map_cons]

theorem map_eq_self_iff {α : Type} {f : α → α} {items : List α} : items.map f = items ↔ ∀ item ∈ items, f item = item := by
  induction items with
  | nil => simp
  | cons item rest ih => rw [List.map_cons, List.cons.injEq, List.forall_mem_cons, ih]

/-- To be masked and have its numbers changed leaves a value as it was only if either
    does. -/
theorem mapFloats_maskSecrets_iff (h : F → Value F) (v : Value F) :
    (maskSecrets v).mapFloats h = v ↔ maskSecrets v = v ∧ v.mapFloats h = v := by
  induction v using Value.induct with
  | array items ih =>
    simp only [maskSecrets, maskItems_eq, Value.mapFloats_array, List.map_map, Value.array.injEq, map_eq_self_iff,
      ← forall₂_and]
    exact forall₂_congr ih
  | object members ih =>
    simp only [maskSecrets, maskMembers_eq, Value.mapFloats_object, List.map_map, Value.object.injEq, map_eq_self_iff,
      ← forall₂_and, Prod.ext_iff, Function.comp_apply, true_and]
    refine forall₂_congr fun member inside => ?_
    split
    · constructor
      · intro same
        exact ⟨same, by rw [← same]; rfl⟩
      · rintro ⟨same, -⟩
        rw [← same]
        rfl
    · exact ih member inside
  | _ => simp [maskSecrets]

/-! ## The masked document, merged -/

section
variable {lib : Library F} {members done rest : List (Text × Value F)} {key : Text} {value new : Value F}

theorem assign_here (fresh : key ∉ done.map (·.1)) :
    Value.assign key new (done ++ (key, value) :: rest) = done ++ (key, new) :: rest := by
  induction done with
  | nil => exact if_pos rfl
  | cons first done ih =>
    obtain ⟨other, later⟩ := not_or.mp (mt List.mem_cons.mpr fresh)
    rw [List.cons_append, Value.assign, if_neg (Ne.symm other), ih later, List.cons_append]

theorem member_here (fresh : key ∉ done.map (·.1)) :
    (Value.object (done ++ (key, value) :: rest)).member key = value := by
  induction done with
  | nil => rw [Value.member, List.nil_append, Value.members, Value.lookup_member, if_pos rfl, Option.getD_some]
  | cons first done ih =>
    obtain ⟨other, later⟩ := not_or.mp (mt List.mem_cons.mpr fresh)
    rw [Value.member, List.cons_append, Value.members, Value.lookup_member, if_neg other]
    exact ih later

/-- Only a text is read as a text when it was masked and written. -/
theorem text_of_returned {s : Text} (returned : lib.rereading (maskSecrets value) = .text s) : value = .text s := by
  cases value with
  | text own => exact returned
  | float x =>
    rw [maskSecrets, Library.rereading, Value.mapFloats] at returned
    cases reads : lib.reread x <;> rw [reads] at returned <;> cases returned
  | _ => cases returned

theorem mergeMember_masked (fresh : key ∉ done.map (·.1)) :
    mergeMember (.object (done ++ (key, value) :: rest))
        (key, lib.rereading (if Secret key then .text mask else maskSecrets value)) =
      .object (done ++ (key, returnedValue lib (key, value)) :: rest) := by
  unfold returnedValue
  by_cases secret : Secret key
  · rw [if_pos secret, if_pos secret, Library.rereading, Value.mapFloats, mergeMember, if_pos (by decide)]
  · simp only [if_neg secret]
    cases returned : lib.rereading (maskSecrets value) with
    | text s =>
      obtain rfl := text_of_returned returned
      have noNumber : ¬ (IsInteger ((Value.object (done ++ (key, .text s) :: rest)).member key) ∧ IsNumeric (cString s)) := by
        rw [member_here fresh]
        exact fun both => both.1
      rw [mergeMember, if_neg noNumber, Value.setMember, assign_here fresh, ite_self]
    | _ => rw [mergeMember, Value.setMember, assign_here fresh]; simp

theorem foldl_masked (done : List (Text × Value F)) (distinct : ((done ++ rest).map (·.1)).Nodup) :
    (rest.map fun member =>
        (member.1, lib.rereading (if Secret member.1 then .text mask else maskSecrets member.2))).foldl mergeMember
      (.object (done ++ rest)) =
    .object (done ++ rest.map fun member => (member.1, returnedValue lib member)) := by
  induction rest generalizing done with
  | nil => rfl
  | cons first rest ih =>
    obtain ⟨key, value⟩ := first
    have fresh : key ∉ done.map (·.1) := by
      rw [List.map_append, List.map_cons, List.nodup_append] at distinct
      exact fun inside => distinct.2.2 _ inside _ List.mem_cons_self rfl
    have later := ih (done ++ [(key, returnedValue lib (key, value))]) (by simpa using distinct)
    rw [List.append_assoc, List.singleton_append] at later
    rw [List.map_cons, List.foldl_cons, mergeMember_masked fresh, later, List.append_assoc, List.singleton_append,
      List.map_cons]

theorem members_masked : (lib.rereading (maskSecrets (.object members))).members = members.map fun member =>
    (member.1, lib.rereading (if Secret member.1 then .text mask else maskSecrets member.2)) := by
  rw [maskSecrets, maskMembers_eq, Library.rereading, Value.mapFloats_object, Value.members, List.map_map]
  rfl

/-- What the masked document leaves of the configuration when it is merged into it. -/
theorem merge_masked (lib : Library F) (distinct : (members.map (·.1)).Nodup) :
    merge (.object members) (lib.rereading (maskSecrets (.object members))) = returned lib (.object members) := by
  rw [merge, members_masked]
  exact foldl_masked [] distinct

/-- A document that is no object has nothing to merge. -/
theorem merge_masked_other {doc : Value F} (other : ¬ doc.IsObject) :
    merge doc (lib.rereading (maskSecrets doc)) = doc := by
  cases doc with
  | object members => exact absurd trivial other
  | float x =>
    rw [maskSecrets, Library.rereading, Value.mapFloats, merge]
    cases lib.reread x <;> rfl
  | _ => rfl

end

/-! ## The round trip -/

section
variable {lib : Library F} (outcome : WriteOutcome) {text : Text} {doc : Value F}

theorem not_accepted_other (other : doc.members = []) : ¬ Accepted doc.member := by
  rintro ⟨-, filled⟩
  have nothing : doc.member = fun _ => .null := funext fun key => by rw [Value.member, other]; rfl
  refine filled "wifi_ssid" List.mem_cons_self (.inl ?_)
  rw [nothing]
  rfl

/-- Reading what is returned gives the configuration when each member is restored. -/
theorem rereading_returned_iff {members : List (Text × Value F)} :
    lib.rereading (returned lib (.object members)) = .object members ↔ ∀ member ∈ members, Restored lib member := by
  rw [returned, Value.members, Library.rereading, Value.mapFloats_object, List.map_map, Value.object.injEq,
    map_eq_self_iff]
  refine forall₂_congr fun member _ => ?_
  rw [Restored, Function.comp_apply, Prod.ext_iff]
  simp only [true_and, returnedValue]
  split
  · exact Iff.rfl
  · show lib.rereading (lib.rereading (maskSecrets member.2)) = member.2 ↔ _
    rw [lib.rereading_rereading, lib.rereading_rereading, mapFloats_maskSecrets_iff]

/-- Posting the masked configuration leaves what is read from the file exactly when it is
    refused, or the file cannot be opened, or is written whole and each member is
    restored. -/
theorem masked_round_trip_iff (read : lib.deserialize text = some doc) (keepsMasked : lib.Keeps (maskSecrets doc))
    (keepsMerged : lib.Keeps (merge doc (lib.rereading (maskSecrets doc)))) :
    (mergeAndSaveConfig lib outcome (some text) (maskedConfigJson lib (some text))).2.bind lib.deserialize = some doc ↔
      (Accepted (returned lib doc).member → outcome.opens = true →
        outcome.Whole (lib.serialize (merge doc (lib.rereading (maskSecrets doc)))) ∧
          ∀ member ∈ doc.members, Restored lib member) := by
  have posting : lib.deserialize (maskedConfigJson lib (some text)) = some (lib.rereading (maskSecrets doc)) := by
    rw [maskedConfigJson, Option.bind_some, read, keepsMasked.whole]
  rcases mergeAndSaveConfig_cases outcome read posting with ⟨accepted, opens, done⟩ | ⟨refused, err, done⟩
  · cases doc with
    | object members =>
      have merged := merge_masked lib (lib.distinct read)
      have kept := read_written outcome keepsMerged (merge_object (show (Value.object members).IsObject from trivial))
      rw [done, Option.bind_some, kept]
      rw [merged] at accepted ⊢
      simp only [accepted, opens, forall_const]
      by_cases whole : outcome.Whole (lib.serialize (returned lib (.object members)))
      · rw [if_pos whole, Option.some.injEq, rereading_returned_iff]
        exact (and_iff_right whole).symm
      · simp [whole]
    | _ =>
      rw [merge_masked_other id] at accepted
      exact absurd accepted (not_accepted_other rfl)
  · rw [done, Option.bind_some, read]
    refine iff_of_true rfl fun accepted opens => ?_
    cases doc with
    | object members =>
      rw [merge_masked lib (lib.distinct read)] at refused
      exact absurd ⟨accepted, opens⟩ refused
    | _ => exact absurd accepted (not_accepted_other rfl)

end

end

/-! ## A secret in an environment -/

def setUpLibrary : Library Empty := JsonDoc.printing [setUp, maskSecrets setUp] (by decide +kernel)

theorem set_up_bare : ∀ member ∈ setUp.members, maskSecrets member.2 = member.2 := by
  simp only [setUp, Value.members, List.forall_mem_cons, maskSecrets, List.not_mem_nil, false_implies, implies_true,
    and_self]

theorem set_up_merged : merge setUp (setUpLibrary.rereading (maskSecrets setUp)) = setUp := by
  refine (merge_masked setUpLibrary (by decide +kernel)).trans (congrArg Value.object ?_)
  refine map_eq_self_iff.mpr fun member inside => Prod.ext rfl ?_
  rw [returnedValue, setUpLibrary, JsonDoc.rereading_printing, set_up_bare member inside, ite_self]

theorem set_up_returned :
    (mergeAndSaveConfig setUpLibrary saveWhole (some (JsonDoc.print setUp))
        (maskedConfigJson setUpLibrary (some (JsonDoc.print setUp)))).2.bind setUpLibrary.deserialize = some setUp := by
  have read : setUpLibrary.deserialize (JsonDoc.print setUp) = some setUp :=
    JsonDoc.read_printing [] (List.forall_mem_nil _)
  have keepsMasked : setUpLibrary.Keeps (maskSecrets setUp) :=
    JsonDoc.keeps_printing [setUp] (by decide +kernel) (by decide +kernel)
  have keepsMerged : setUpLibrary.Keeps setUp :=
    JsonDoc.keeps_printing [] (by decide +kernel) (by decide +kernel)
  refine (masked_round_trip_iff saveWhole read keepsMasked (set_up_merged.symm ▸ keepsMerged)).mpr fun _ _ => ⟨nofun, ?_⟩
  intro member inside
  rw [Restored, setUpLibrary, JsonDoc.rereading_printing, JsonDoc.rereading_printing, set_up_bare member inside]
  split
  · rfl
  · exact ⟨rfl, rfl⟩

/-- The configuration with an environment that has a password of its own. -/
def benchSetUp : Value Empty :=
  .object (setUp.members ++
    [("active_env".toList, .text "bench".toList),
      ("environments".toList,
        .object [("bench".toList, .object [("omada_password".toList, .text "bench admin".toList)])])])

def benchLibrary : Library Empty :=
  JsonDoc.printing
    [benchSetUp, maskSecrets benchSetUp, merge benchSetUp (maskSecrets benchSetUp)] (by decide +kernel)

def benchPassword (doc : Value Empty) : Option Text :=
  chars (((doc.member "environments".toList).member "bench".toList).member "omada_password".toList)

/-- The mask is stored in place of the password. -/
theorem bench_password_lost :
    let saved := mergeAndSaveConfig benchLibrary saveWhole (some (JsonDoc.print benchSetUp))
      (maskedConfigJson benchLibrary (some (JsonDoc.print benchSetUp)))
    saved.1 = none ∧ benchPassword benchSetUp = some "bench admin".toList ∧
      (saved.2.bind benchLibrary.deserialize).map benchPassword = some (some mask) ∧
        saved.2.bind benchLibrary.deserialize ≠ some benchSetUp := by
  intro saved
  have lost : (saved.2.bind benchLibrary.deserialize).map benchPassword = some (some mask) := by decide +kernel
  refine ⟨by decide +kernel, by decide +kernel, lost, fun same => ?_⟩
  rw [same] at lost
  exact absurd lost (by decide +kernel)

end EllaFi.MaskedConfig
