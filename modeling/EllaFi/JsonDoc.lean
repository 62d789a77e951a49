import EllaFi.TextLines
import Mathlib.Data.List.Nodup

/-!
Documents of JSON as a library holds them that tells integers from floating-point
numbers. The members of an object are found by their keys; assigning one changes no other
(`member_setMember`). A document that is written and read again has its floating-point
numbers changed and nothing else (`Library`), which leaves a member where it was
(`member_mapFloats`).
-/
namespace EllaFi.JsonDoc
open EllaFi.TextLines (Text)

/-- `F` are the floating-point numbers. -/
inductive Value (F : Type) where
  | null
  | bool (b : Bool)
  | int (z : Int)
  | float (x : F)
  | text (s : Text)
  | array (items : List (Value F))
  | object (members : List (Text × Value F))

/-- What a floating-point number can be read as once it was written. -/
inductive Number (F : Type) where
  | null
  | int (z : Int)
  | float (x : F)

namespace Value
variable {F : Type}

/-- The rule for a property of all values. -/
@[elab_as_elim]
theorem induct {motive : Value F → Prop} (null : motive .null) (bool : ∀ b, motive (.bool b))
    (int : ∀ z, motive (.int z)) (float : ∀ x, motive (.float x)) (text : ∀ s, motive (.text s))
    (array : ∀ items, (∀ item ∈ items, motive item) → motive (.array items))
    (object : ∀ members, (∀ member ∈ members, motive member.2) → motive (.object members)) (v : Value F) : motive v :=
  Value.rec (motive_1 := motive) (motive_2 := fun items => ∀ item ∈ items, motive item)
    (motive_3 := fun members => ∀ member ∈ members, motive member.2) (motive_4 := fun member => motive member.2)
    null bool int float text array object (List.forall_mem_nil _)
    (fun _ _ first rest => List.forall_mem_cons.mpr ⟨first, rest⟩) (List.forall_mem_nil _)
    (fun _ _ first rest => List.forall_mem_cons.mpr ⟨first, rest⟩) (fun _ _ own => own) v

/-! ## Members -/

def isNull : Value F → Bool
  | .null => true
  | _ => false

def members : Value F → List (Text × Value F)
  | .object members => members
  | _ => []

/-- The member under a key; null where there is none. -/
def member (v : Value F) (key : Text) : Value F := (v.members.lookup key).getD .null

/-- Assigns a member in place, or as the last one. -/
def assign (key : Text) (value : Value F) : List (Text × Value F) → List (Text × Value F)
  | [] => [(key, value)]
  | (k, v) :: rest => if k = key then (k, value) :: rest else (k, v) :: assign key value rest

/-- Null becomes an object by it; another value that is none stays as it is. -/
def setMember (v : Value F) (key : Text) (value : Value F) : Value F :=
  match v with
  | .null => .object [(key, value)]
  | .object members => .object (assign key value members)
  | other => other

def IsObject : Value F → Prop
  | .object _ => True
  | _ => False

section
variable {v value : Value F} {key other : Text} {members : List (Text × Value F)}

theorem lookup_member {α : Type} (first : Text × α) (rest : List (Text × α)) :
    (first :: rest).lookup other = if other = first.1 then some first.2 else rest.lookup other := by
  obtain ⟨k, v⟩ := first
  rw [List.lookup_cons]
  by_cases same : other = k
  · simp [same]
  · simp [same, beq_false_of_ne same]

theorem lookup_fresh {α : Type} {members : List (Text × α)} (fresh : key ∉ members.map (·.1)) :
    members.lookup key = none := by
  rw [List.lookup_eq_none_iff]
  intro member inside
  exact bne_iff_ne.mpr fun same => fresh (List.mem_map.mpr ⟨member, inside, same.symm⟩)

theorem mem_of_lookup {α : Type} {members : List (Text × α)} {value : α} (found : members.lookup key = some value) :
    (key, value) ∈ members := by
  obtain ⟨before, after, rfl, -⟩ := List.lookup_eq_some_iff.mp found
  exact List.mem_append_right before List.mem_cons_self

theorem lookup_map {α β : Type} (f : Text → α → β) (members : List (Text × α)) :
    (members.map fun member => (member.1, f member.1 member.2)).lookup key = (members.lookup key).map (f key) := by
  induction members with
  | nil => rfl
  | cons first rest ih =>
    rw [List.map_cons, lookup_member, lookup_member, ih]
    split
    · next own => rw [Option.map_some, own]
    · rfl

theorem lookup_assign : (assign key value members).lookup other = if other = key then some value else members.lookup other := by
  induction members with
  | nil => rw [assign, lookup_member]
  | cons first rest ih =>
    rw [assign]
    split
    · next here =>
      rw [lookup_member, lookup_member, here]
      split <;> rfl
    · next here =>
      rw [lookup_member, lookup_member, ih]
      split
      · next own => rw [if_neg fun same => here (own.symm.trans same)]
      · rfl

theorem member_setMember (object : v.IsObject) :
    (v.setMember key value).member other = if other = key then value else v.member other := by
  cases v with
  | object members =>
    simp only [setMember, member, Value.members, lookup_assign]
    split <;> rfl
  | _ => cases object

theorem setMember_object (object : v.IsObject) : (v.setMember key value).IsObject := by
  cases v with
  | object members => trivial
  | _ => cases object

theorem isObject_of_member (there : v.member key ≠ .null) : v.IsObject := by
  cases v with
  | object members => trivial
  | _ => exact absurd rfl there

end

/-! ## Floating-point numbers -/

mutual

def mapFloats (h : F → Value F) : Value F → Value F
  | .null => .null
  | .bool b => .bool b
  | .int z => .int z
  | .float x => h x
  | .text s => .text s
  | .array items => .array (mapItems h items)
  | .object members => .object (mapMembers h members)

def mapItems (h : F → Value F) : List (Value F) → List (Value F)
  | [] => []
  | item :: rest => mapFloats h item :: mapItems h rest

def mapMembers (h : F → Value F) : List (Text × Value F) → List (Text × Value F)
  | [] => []
  | (key, value) :: rest => (key, mapFloats h value) :: mapMembers h rest

end

section
variable {h : F → Value F}

theorem mapItems_eq (items : List (Value F)) : mapItems h items = items.map (mapFloats h) := by
  induction items with
  | nil => rfl
  | cons item rest ih => rw [mapItems, ih, List.map_cons]

theorem mapMembers_eq (members : List (Text × Value F)) :
    mapMembers h members = members.map fun member => (member.1, member.2.mapFloats h) := by
  induction members with
  | nil => rfl
  | cons member rest ih => rw [mapMembers, ih, List.map_cons]

theorem mapFloats_array (items : List (Value F)) : (array items).mapFloats h = .array (items.map (mapFloats h)) := by
  rw [mapFloats, mapItems_eq]

theorem mapFloats_object (members : List (Text × Value F)) :
    (object members).mapFloats h = .object (members.map fun member => (member.1, member.2.mapFloats h)) := by
  rw [mapFloats, mapMembers_eq]

/-- A floating-point number becomes none of the values with parts. -/
def Scalar (h : F → Value F) : Prop := ∀ x, (h x).members = []

theorem members_mapFloats (scalar : Scalar h) (v : Value F) :
    (v.mapFloats h).members = v.members.map fun member => (member.1, member.2.mapFloats h) := by
  cases v with
  | object members => rw [mapFloats_object]; rfl
  | float x => exact scalar x
  | _ => rfl

theorem member_mapFloats (scalar : Scalar h) (v : Value F) (key : Text) :
    (v.mapFloats h).member key = (v.member key).mapFloats h := by
  rw [member, members_mapFloats scalar, lookup_map fun _ => mapFloats h, member]
  cases v.members.lookup key <;> rfl

theorem mapFloats_mapFloats (g : F → Value F) (v : Value F) :
    (v.mapFloats h).mapFloats g = v.mapFloats fun x => (h x).mapFloats g := by
  induction v using induct with
  | array items ih =>
    simp only [mapFloats_array, List.map_map, array.injEq]
    exact List.map_congr_left ih
  | object members ih =>
    simp only [mapFloats_object, List.map_map, object.injEq]
    exact List.map_congr_left fun member inside => Prod.ext rfl (ih member inside)
  | _ => rfl

end

end Value

/-! ## Libraries -/

def Number.value {F : Type} : Number F → Value F
  | .null => .null
  | .int z => .int z
  | .float x => .float x

/-- How documents are read and written. A document that was read has one member under
    each key. -/
structure Library (F : Type) where
  deserialize : Text → Option (Value F)
  serialize : Value F → Text
  reread : F → Number F
  distinct : ∀ {text members}, deserialize text = some (.object members) → (members.map (·.1)).Nodup

namespace Library
variable {F : Type} (lib : Library F)

/-- What a value reads as once it was written. -/
def rereading (v : Value F) : Value F := v.mapFloats fun x => (lib.reread x).value

/-- A document that is written is read again, and an object only from its whole text. -/
structure Keeps (v : Value F) : Prop where
  whole : lib.deserialize (lib.serialize v) = some (lib.rereading v)
  cut : v.IsObject → ∀ count < (lib.serialize v).length, lib.deserialize ((lib.serialize v).take count) = none

theorem reread_scalar : Value.Scalar fun x => (lib.reread x).value := by
  intro x
  show (lib.reread x).value.members = []
  cases lib.reread x <;> rfl

theorem lookup_rereading (v : Value F) (key : Text) :
    (lib.rereading v).members.lookup key = (v.members.lookup key).map lib.rereading := by
  rw [rereading, Value.members_mapFloats lib.reread_scalar]
  exact Value.lookup_map (fun _ => lib.rereading) v.members

theorem rereading_rereading (v : Value F) :
    lib.rereading (lib.rereading v) = v.mapFloats fun x => lib.rereading (lib.reread x).value :=
  Value.mapFloats_mapFloats _ v

theorem member_rereading (v : Value F) (key : Text) : (lib.rereading v).member key = lib.rereading (v.member key) :=
  Value.member_mapFloats lib.reread_scalar v key

end Library

/-! ## Documents without floating-point numbers -/

def printChar (c : Char) : Text :=
  if c = '"' ∨ c = '\\' then ['\\', c]
  else if c = '\n' then ['\\', 'n']
  else if c = '\r' then ['\\', 'r']
  else if c = '\t' then ['\\', 't']
  else if c.toNat = 8 then ['\\', 'b']
  else if c.toNat = 12 then ['\\', 'f']
  else if c.toNat = 0 then ['\\', 'u', '0', '0', '0', '0']
  else [c]

def printText (s : Text) : Text := '"' :: s.flatMap printChar ++ ['"']

mutual

def print : Value Empty → Text
  | .null => "null".toList
  | .bool b => (toString b).toList
  | .int z => (toString z).toList
  | .text s => printText s
  | .array items => '[' :: printItems items ++ [']']
  | .object members => '\x7b' :: printMembers members ++ ['\x7d']

def printItems : List (Value Empty) → Text
  | [] => []
  | [item] => print item
  | item :: rest => print item ++ ',' :: printItems rest

def printMembers : List (Text × Value Empty) → Text
  | [] => []
  | [(key, value)] => printText key ++ ':' :: print value
  | (key, value) :: rest => printText key ++ ':' :: print value ++ ',' :: printMembers rest

end

/-- The library as far as some documents go. -/
def printing (docs : List (Value Empty)) (distinct : ∀ doc ∈ docs, (doc.members.map (·.1)).Nodup) : Library Empty where
  deserialize text := docs.find? fun doc => print doc = text
  serialize := print
  reread := nofun
  distinct found := distinct _ (List.mem_of_find?_eq_some found)

theorem rereading_printing {docs : List (Value Empty)} {distinct : ∀ doc ∈ docs, (doc.members.map (·.1)).Nodup}
    (v : Value Empty) : (printing docs distinct).rereading v = v := by
  induction v using Value.induct with
  | float x => cases x
  | array items ih =>
    rw [Library.rereading, Value.mapFloats_array]
    exact congrArg Value.array ((List.map_congr_left (g := id) ih).trans (List.map_id _))
  | object members ih =>
    rw [Library.rereading, Value.mapFloats_object]
    refine congrArg Value.object ((List.map_congr_left (g := id) fun member inside => ?_).trans (List.map_id _))
    exact Prod.ext rfl (ih member inside)
  | _ => rfl

section
variable (before : List (Value Empty)) {after : List (Value Empty)} {v : Value Empty}
  {distinct : ∀ doc ∈ before ++ v :: after, (doc.members.map (·.1)).Nodup}

theorem read_printing (differs : ∀ doc ∈ before, print doc ≠ print v) :
    (printing (before ++ v :: after) distinct).deserialize (print v) = some v := by
  have absent : before.find? (fun doc => print doc = print v) = none := by
    simpa using differs
  simp [printing, List.find?_append, absent]

theorem keeps_printing (differs : ∀ doc ∈ before, print doc ≠ print v)
    (whole : ∀ doc ∈ before ++ v :: after, print doc <+: print v → print doc = print v) :
    (printing (before ++ v :: after) distinct).Keeps v where
  whole := by rw [rereading_printing]; exact read_printing before differs
  cut _ count fewer := by
    refine List.find?_eq_none.mpr fun doc inside same => ?_
    have taken : print doc = (print v).take count := of_decide_eq_true same
    have full := whole doc inside (taken ▸ List.take_prefix count (print v))
    have short := congrArg List.length (taken.symm.trans full)
    rw [List.length_take] at short
    exact absurd short (by have : count < (print v).length := fewer; omega)

/-- Among texts of which none begins another, each document is kept. -/
theorem keeps_of_mem {docs : List (Value Empty)} {v : Value Empty} {distinct : ∀ doc ∈ docs, (doc.members.map (·.1)).Nodup}
    (differ : (docs.map print).Nodup)
    (whole : ∀ doc ∈ docs, ∀ other ∈ docs, print other <+: print doc → print other = print doc) (inside : v ∈ docs) :
    (printing docs distinct).Keeps v := by
  obtain ⟨before, after, rfl⟩ := List.append_of_mem inside
  refine keeps_printing before (fun doc earlier same => ?_) (whole v inside)
  rw [List.map_append, List.map_cons, List.nodup_append] at differ
  exact differ.2.2 _ (List.mem_map_of_mem earlier) _ List.mem_cons_self same

end

end EllaFi.JsonDoc
