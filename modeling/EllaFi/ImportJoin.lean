import EllaFi.Joins
import EllaFi.MoneyStore

/-!
Imports in any order. The groups of a payload rise in the ledger
(`importGroup_eq`), so that a list of imports leaves the highest used count of every
group, in whichever order they come, and the union of their groups. An import that is
repeated adds nothing to the groups; the months are overwritten, so that it puts back what
others have set since (`import_joins`, `second_import_overwrites`).
-/
namespace EllaFi.ImportJoin
open EllaFi.MoneyStore EllaFi.Totals EllaFi.Joins

/-- The used count of a group; `⊥` where the ledger does not have it. -/
def usedOf (money : Money) (id : String) : WithBot Int := rankOf Group.used money.groups id

/-- The groups of a payload, as they would be written. -/
def importedGroups : Option Payload → List (String × Group)
  | none => []
  | some payload => payload.groups.map fun entry => (entry.1, importedGroup entry.2)

/-- The highest used count that the payloads have for a group. -/
def importedUsed (payloads : List (Option Payload)) (id : String) : WithBot Int :=
  highest Group.used id (payloads.flatMap importedGroups)

def importAll (payloads : List (Option Payload)) (money : Money) : Money :=
  payloads.foldl (fun money payload => moneyImport payload money) money

/-! ## Groups -/

section
variable {money : Money} {payloads : List (Option Payload)}

theorem importGroup_eq (money : Money) (entry : String × ImportedGroup) :
    importGroup money entry =
      { money with groups := raise Group.used money.groups (entry.1, importedGroup entry.2) } := by
  unfold importGroup raise
  split
  · next absent => simp only [absent]
  · next g found =>
    simp only [found]
    by_cases low : entry.2.used ≤ g.used
    · rw [if_pos low, if_pos (by exact low)]
    · rw [if_neg low, if_neg (by exact low)]

theorem foldl_importGroup_eq (groups : List (String × ImportedGroup)) (money : Money) :
    groups.foldl importGroup money =
      { money with
        groups := (groups.map fun entry => (entry.1, importedGroup entry.2)).foldl (raise Group.used) money.groups } := by
  induction groups generalizing money with
  | nil => rfl
  | cons entry rest ih => rw [List.foldl_cons, ih, importGroup_eq, List.map_cons, List.foldl_cons]

theorem foldl_importIncome_eq (income : List (String × ImportedIncome)) (money : Money) :
    (income.foldl importIncome money).groups = money.groups := by
  induction income generalizing money with
  | nil => rfl
  | cons entry rest ih => rw [List.foldl_cons, ih]; rfl

theorem import_groups (payload : Option Payload) (money : Money) :
    (moneyImport payload money).groups = (importedGroups payload).foldl (raise Group.used) money.groups := by
  cases payload with
  | none => rfl
  | some payload => rw [moneyImport, foldl_importIncome_eq, foldl_importGroup_eq, importedGroups]

theorem importAll_groups (payloads : List (Option Payload)) (money : Money) :
    (importAll payloads money).groups = (payloads.flatMap importedGroups).foldl (raise Group.used) money.groups := by
  unfold importAll
  induction payloads generalizing money with
  | nil => rfl
  | cons payload rest ih => rw [List.foldl_cons, ih, import_groups, List.flatMap_cons, List.foldl_append]

end

/-! ## Income -/

/-- A month's income with the sides that are given. -/
def overlaid (cur : Option Income) (s : ImportedIncome) : Income where
  vendo := s.vendo.getD ((cur.map (·.vendo)).getD 0)
  voucher := s.voucher.getD ((cur.map (·.voucher)).getD 0)

/-- What two imports of a month give together. -/
def merged (s t : ImportedIncome) : ImportedIncome where
  vendo := t.vendo.or s.vendo
  voucher := t.voucher.or s.voucher

theorem overlaid_overlaid (cur : Option Income) (s t : ImportedIncome) :
    overlaid (some (overlaid cur s)) t = overlaid cur (merged s t) := by
  obtain ⟨vendo, voucher⟩ := t
  cases vendo <;> cases voucher <;> rfl

/-- Nothing is given. -/
def notGiven : ImportedIncome := { vendo := none, voucher := none }

@[simp] theorem merged_notGiven (s : ImportedIncome) : merged notGiven s = s := by
  obtain ⟨vendo, voucher⟩ := s
  cases vendo <;> cases voucher <;> rfl

/-- Several imports of a month are one. -/
theorem foldl_overlaid (first : ImportedIncome) (rest : List ImportedIncome) (cur : Option Income) :
    (first :: rest).foldl (fun cur s => some (overlaid cur s)) cur = some (overlaid cur (rest.foldl merged first)) := by
  induction rest generalizing first with
  | nil => rfl
  | cons second rest ih =>
    calc (first :: second :: rest).foldl (fun cur s => some (overlaid cur s)) cur
        = (merged first second :: rest).foldl (fun cur s => some (overlaid cur s)) cur := by
          rw [List.foldl_cons, List.foldl_cons, List.foldl_cons, overlaid_overlaid]
      _ = some (overlaid cur (rest.foldl merged (merged first second))) := ih _

/-- What the payload gives for a month, in its order. -/
def givenFor (payload : Option Payload) (month : String) : List ImportedIncome :=
  match payload with
  | none => []
  | some payload => (payload.income.filter fun entry => entry.1 = month).map (·.2)

theorem foldl_importIncome_income (income : List (String × ImportedIncome)) (money : Money) :
    (income.foldl importIncome money).income =
      income.foldl (fun table entry => table.insert entry.1 (overlaid (table.lookup entry.1) entry.2)) money.income := by
  induction income generalizing money with
  | nil => rfl
  | cons entry rest ih => rw [List.foldl_cons, ih]; rfl

/-- An import changes a month by what it gives for it. -/
theorem import_income (payload : Option Payload) (money : Money) (month : String) :
    (moneyImport payload money).income.lookup month =
      (givenFor payload month).foldl (fun cur s => some (overlaid cur s)) (money.income.lookup month) := by
  cases payload with
  | none => rfl
  | some payload =>
    rw [moneyImport, foldl_importIncome_income, lookup_foldl_change, foldl_importGroup_eq]
    rfl

theorem importAll_income (payloads : List (Option Payload)) (money : Money) (month : String) :
    (importAll payloads money).income.lookup month =
      (payloads.flatMap (givenFor · month)).foldl (fun cur s => some (overlaid cur s)) (money.income.lookup month) := by
  unfold importAll
  induction payloads generalizing money with
  | nil => rfl
  | cons payload rest ih => rw [List.foldl_cons, ih, import_income, List.flatMap_cons, List.foldl_append]

/-- What payloads give for a month together: of each side the last one. -/
def given (payloads : List (Option Payload)) (month : String) : ImportedIncome :=
  (payloads.flatMap (givenFor · month)).foldl merged notGiven

/-- No side that the payload gives has been given otherwise by those since. -/
def NotOverwritten (payload : Option Payload) (since : List (Option Payload)) (month : String) : Prop :=
  (∀ v ∈ (given [payload] month).vendo, ∀ w ∈ (given since month).vendo, w = v) ∧
    ∀ v ∈ (given [payload] month).voucher, ∀ w ∈ (given since month).voucher, w = v

/-- Imports on a month that has an income. -/
theorem importAll_some {payloads : List (Option Payload)} {money : Money} {month : String} {cur : Income}
    (there : money.income.lookup month = some cur) :
    (importAll payloads money).income.lookup month = some (overlaid (some cur) (given payloads month)) := by
  rw [importAll_income, there, given]
  cases payloads.flatMap (givenFor · month) with
  | nil => rfl
  | cons first rest => rw [foldl_overlaid, List.foldl_cons, merged_notGiven]

theorem importAll_append (first second : List (Option Payload)) (money : Money) :
    importAll (first ++ second) money = importAll second (importAll first money) := List.foldl_append ..

/-- One side of a month that is given again. -/
theorem side_again (p a : Option Int) (x : Int) :
    p.getD (a.getD (p.getD x)) = a.getD (p.getD x) ↔ ∀ v ∈ p, ∀ w ∈ a, w = v := by
  cases p <;> cases a <;> simp [eq_comm]

/-- A payload that is applied again changes a month exactly if it was overwritten. -/
theorem month_again_iff (money : Money) (payload : Option Payload) (since : List (Option Payload)) (month : String) :
    (moneyImport payload (importAll (payload :: since) money)).income.lookup month =
        (importAll (payload :: since) money).income.lookup month ↔
      NotOverwritten payload since month := by
  have after (money : Money) := importAll_income [payload] money month
  have again : moneyImport payload (importAll (payload :: since) money) =
      importAll [payload] (importAll (payload :: since) money) := rfl
  rw [again]
  cases own : givenFor payload month with
  | nil =>
    have nothing : [payload].flatMap (givenFor · month) = [] := by simp [own]
    rw [after, nothing, List.foldl_nil]
    simp [NotOverwritten, given, nothing, notGiven]
  | cons first rest =>
    have whole : [payload].flatMap (givenFor · month) = first :: rest := by simp [own]
    have stored : (importAll [payload] money).income.lookup month =
        some (overlaid (money.income.lookup month) (given [payload] month)) := by
      rw [after, whole, foldl_overlaid, given, whole, List.foldl_cons, merged_notGiven]
    have held : (importAll (payload :: since) money).income.lookup month =
        some (overlaid (some (overlaid (money.income.lookup month) (given [payload] month))) (given since month)) :=
      importAll_some stored
    rw [importAll_some held, held, Option.some.injEq, Income.mk.injEq]
    exact and_congr (side_again ..) (side_again ..)

/-! ## The join -/

/-- After any list of imports every group has the highest of its used count and all
    the imported ones, the groups are the union, and the order does not matter; a
    payload that is applied again changes no count, and a month exactly if one applied since
    has overwritten what it gives for the month. -/
theorem import_joins (money : Money) (payloads : List (Option Payload)) :
    (∀ id, usedOf (importAll payloads money) id = usedOf money id ⊔ importedUsed payloads id) ∧
    (∀ id, id ∈ (importAll payloads money).groups ↔
      id ∈ money.groups ∨ ∃ payload ∈ payloads, ∃ entry ∈ importedGroups payload, entry.1 = id) ∧
    (∀ others, payloads.Perm others → ∀ id, usedOf (importAll payloads money) id = usedOf (importAll others money) id) ∧
    (∀ payload ∈ payloads, ∀ id,
      usedOf (moneyImport payload (importAll payloads money)) id = usedOf (importAll payloads money) id) ∧
    ∀ before payload since, payloads = before ++ payload :: since → ∀ month,
      ((moneyImport payload (importAll payloads money)).income.lookup month =
          (importAll payloads money).income.lookup month ↔
        NotOverwritten payload since month) := by
  refine ⟨fun id => ?_, fun id => ?_, fun others perm id => ?_, fun payload given id => ?_, ?_⟩
  · rw [usedOf, importAll_groups]
    exact rankOf_foldl_raise _ _ _
  · rw [importAll_groups, mem_foldl_raise]
    simp only [List.mem_flatMap]
    constructor
    · rintro (before | ⟨entry, ⟨payload, given, inside⟩, own⟩)
      · exact .inl before
      · exact .inr ⟨payload, given, entry, inside, own⟩
    · rintro (before | ⟨payload, given, entry, inside, own⟩)
      · exact .inl before
      · exact .inr ⟨entry, ⟨payload, given, inside⟩, own⟩
  · rw [usedOf, usedOf, importAll_groups, importAll_groups]
    exact rankOf_foldl_perm (perm.flatMap_right _) _ _
  · have again : ∀ entry ∈ importedGroups payload, entry ∈ payloads.flatMap importedGroups :=
      fun entry inside => List.mem_flatMap.mpr ⟨payload, given, inside⟩
    rw [usedOf, import_groups, importAll_groups, foldl_raise_again again, usedOf, importAll_groups]
  · rintro before payload since rfl month
    rw [importAll_append]
    exact month_again_iff ..

/-! ## A month that is overwritten -/

/-- A payload with the coin income of a month. -/
def august (vendo : Int) : Option Payload :=
  some { groups := [], income := [("2026-08", { vendo := some vendo, voucher := none })] }

/-- A payload that is applied a second time, after another one, puts a month back. -/
theorem second_import_overwrites :
    ¬ ∀ (money : Money) (payloads : List (Option Payload)), ∀ payload ∈ payloads, ∀ month,
      (moneyImport payload (importAll payloads money)).income.lookup month =
        (importAll payloads money).income.lookup month := by
  intro unchanged
  have month := unchanged Money.empty [august 40, august 60] (august 40) (List.mem_cons_self ..) "2026-08"
  exact absurd month (by decide +kernel)

end EllaFi.ImportJoin
