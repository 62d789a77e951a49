import Mathlib.Data.List.DropRight
import Mathlib.Data.List.Induction

/-!
The last entry of a log that has a property, and the entries since then. A log splits
at that entry in one way (`lastWhere_eq_some`), and a new entry is the last one or
leaves it (`lastWhere_snoc`). What holds of each entry and those before it is shown for
one new entry after the other (`each_snoc`).
-/
namespace EllaFi.Recent
universe u
variable {Entry : Type u} (p : Entry → Bool)

/-- The last entry with the property. -/
def lastWhere (log : List Entry) : Option Entry := (log.filter p).getLast?

/-- The entries since the last one with the property. -/
def since (log : List Entry) : List Entry := log.rtakeWhile fun entry => ! p entry

/-- Of every entry and what came before it. -/
def Each (P : List Entry → Entry → Prop) (log : List Entry) : Prop :=
  ∀ before entry after, log = before ++ entry :: after → P before entry

section
variable {p} {log : List Entry} {entry : Entry}

@[simp] theorem lastWhere_nil : lastWhere p [] = none := rfl

theorem lastWhere_snoc (log : List Entry) (entry : Entry) :
    lastWhere p (log ++ [entry]) = if p entry then some entry else lastWhere p log := by
  unfold lastWhere
  rw [List.filter_append]
  by_cases own : p entry
  · simp [own]
  · simp [own]

theorem lastWhere_new (own : p entry) (log : List Entry) : lastWhere p (log ++ [entry]) = some entry := by
  rw [lastWhere_snoc, if_pos own]

theorem lastWhere_other (other : ¬ p entry) (log : List Entry) : lastWhere p (log ++ [entry]) = lastWhere p log := by
  rw [lastWhere_snoc, if_neg other]

@[simp] theorem since_nil : since p [] = [] := rfl

theorem since_snoc (log : List Entry) (entry : Entry) :
    since p (log ++ [entry]) = if p entry then [] else since p log ++ [entry] := by
  unfold since
  by_cases own : p entry
  · rw [if_pos own, List.rtakeWhile_concat_neg _ _ _ (by simpa using own)]
  · rw [if_neg own, List.rtakeWhile_concat_pos _ _ _ (by simpa using own)]

theorem lastWhere_eq_none : lastWhere p log = none ↔ ∀ entry ∈ log, ¬ p entry := by
  rw [lastWhere, List.getLast?_eq_none_iff, List.filter_eq_nil_iff]

/-- None since then has the property. -/
theorem not_of_mem_since (inside : entry ∈ since p log) : ¬ p entry := by
  have := List.mem_rtakeWhile_imp inside
  simpa using this

/-- The log up to the last entry with the property, and since. -/
theorem lastWhere_eq_some :
    lastWhere p log = some entry ↔ p entry ∧ ∃ before, log = before ++ entry :: since p log := by
  induction log using List.reverseRecOn with
  | nil => simp
  | append_singleton log last ih =>
    rw [lastWhere_snoc, since_snoc]
    by_cases own : p last
    · rw [if_pos own, if_pos own, Option.some.injEq]
      constructor
      · rintro rfl
        exact ⟨own, log, rfl⟩
      · rintro ⟨-, before, same⟩
        exact List.singleton_injective (List.append_inj' same rfl).2
    · rw [if_neg own, if_neg own, ih]
      refine and_congr_right fun _ => exists_congr fun before => ?_
      rw [← List.cons_append, ← List.append_assoc, List.append_left_inj]

theorem each_nil {P : List Entry → Entry → Prop} : Each P [] := by
  intro before entry after split
  cases before <;> cases split

theorem each_snoc {P : List Entry → Entry → Prop} : Each P (log ++ [entry]) ↔ Each P log ∧ P log entry := by
  constructor
  · refine fun each => ⟨fun before other after split => ?_, each log entry [] rfl⟩
    exact each before other (after ++ [entry]) (by rw [split, List.append_assoc, List.cons_append])
  · rintro ⟨each, last⟩ before other after split
    cases after using List.reverseRecOn with
    | nil =>
      obtain ⟨rfl, same⟩ := List.append_inj' split rfl
      exact List.singleton_injective same ▸ last
    | append_singleton after final =>
      rw [← List.cons_append, ← List.append_assoc] at split
      exact each before other after (List.append_inj' split rfl).1

end

end EllaFi.Recent
