import EllaFi.ConfigFile
import EllaFi.MoneyStore

/-!
Who sold a voucher, and for how much. Four passages of the source read a group's name and
description; they differ in the seller of a name without a space, and in the price where
the description has no whole number for it. All four agree about a group exactly when
neither is missing, or what is missing comes to the same (`attribution_agrees_iff`).
-/
namespace EllaFi.Attribution
open EllaFi.TextLines (Text)
open EllaFi.JsonDoc EllaFi.ConfigFile
open EllaFi.MoneyStore
open EllaFi.Totals (add)

/-- The price tag and the seller. -/
def restOf (name : String) : Text := name.toList.drop 9

/-- What follows the first space, or what stands for it. -/
def sellerIn (unspaced : Text → Text) (rest : Text) : Text :=
  if ' ' ∈ rest then (rest.dropWhile (· ≠ ' ')).drop 1 else unspaced rest

/-- How numbers are read from other values. -/
structure Conversions (F : Type) where
  truncate : F → Int
  parseNumber : Text → Int

section
variable {F : Type} (lib : Library F) (conversions : Conversions F)

/-- `as<int>()` -/
def asInt : Value F → Int
  | .int z => if -2 ^ 31 ≤ z ∧ z < 2 ^ 31 then z else 0
  | .float x => conversions.truncate x
  | .bool b => if b then 1 else 0
  | .text s => conversions.parseNumber s
  | _ => 0

/-- The price in a description; `unparsed` where that is no JSON. -/
def priceIn (read : Value F → Int) (unparsed : Int) (description : Text) : Int :=
  match lib.deserialize description with
  | some descDoc => read (descDoc.member "price".toList)
  | none => unparsed

/-- The seller and the price of a group that was generated here. -/
def attribution (unspaced : Text → Text) (read : Value F → Int) (unparsed : Int) (name : String)
    (description : Text) : Option (String × Int) :=
  if IsAutogen name then
    some (String.ofList (sellerIn unspaced (restOf name)), priceIn lib read unparsed description)
  else none

/-! ## The four passages -/

/-- In `moneyNightlyRollup`. -/
def rollupAttribution : String → Text → Option (String × Int) := attribution lib (fun _ => []) (orInt 0) 0

/-- In `handleAdminVouchers`. -/
def voucherListAttribution : String → Text → Option (String × Int) :=
  attribution lib (fun _ => []) (asInt conversions) 0

/-- For the sales page and the leaderboard. -/
def autogenSellerPrice (pricePerCoin : Int) : String → Text → Option (String × Int) :=
  attribution lib id (orInt pricePerCoin) pricePerCoin

/-- In `handleAdminStatement`. -/
def statementAttribution (pricePerCoin : Int) : String → Text → Option (String × Int) :=
  attribution lib id (orInt pricePerCoin) pricePerCoin

/-- All of them take a group for the same. -/
structure Agree (pricePerCoin : Int) (name : String) (description : Text) : Prop where
  voucherList : voucherListAttribution lib conversions name description = rollupAttribution lib name description
  pages : autogenSellerPrice lib pricePerCoin name description = rollupAttribution lib name description
  statement : statementAttribution lib pricePerCoin name description = rollupAttribution lib name description

/-! ## When they agree -/

/-- A seller is named behind a space, or nothing follows the prefix. -/
def Named (name : String) : Prop := ' ' ∈ restOf name ∨ restOf name = []

/-- A whole number of 32 bits. -/
def Whole (v : Value F) : Prop := ∃ z, v = .int z ∧ -2 ^ 31 ≤ z ∧ z < 2 ^ 31

/-- It reads as 0. -/
def Worthless : Value F → Prop
  | .int z => -2 ^ 31 ≤ z → z < 2 ^ 31 → z = 0
  | .float x => conversions.truncate x = 0
  | .bool b => b = false
  | .text s => conversions.parseNumber s = 0
  | _ => True

/-- The description has a whole number for the price, or nothing else is worth anything
    either. -/
def Priced (pricePerCoin : Int) (description : Text) : Prop :=
  (∃ descDoc, lib.deserialize description = some descDoc ∧ Whole (descDoc.member "price".toList)) ∨
    pricePerCoin = 0 ∧ ∀ descDoc, lib.deserialize description = some descDoc →
      Worthless conversions (descDoc.member "price".toList)

variable {lib conversions} {pricePerCoin : Int} {name : String} {description : Text} {v : Value F}

theorem asInt_eq_zero : asInt conversions v = 0 ↔ Worthless conversions v := by
  cases v with
  | int z =>
    simp only [asInt, Worthless]
    split
    · next fits => exact ⟨fun zero _ _ => zero, fun zero => zero fits.1 fits.2⟩
    · next out => exact iff_of_true rfl fun low high => absurd ⟨low, high⟩ out
  | bool b => cases b <;> simp [asInt, Worthless]
  | _ => simp [asInt, Worthless]

theorem orInt_whole (conversions : Conversions F) (whole : Whole v) (otherwise : Int) :
    orInt otherwise v = asInt conversions v := by
  obtain ⟨z, rfl, fits⟩ := whole
  simp only [orInt, asInt, if_pos fits]

theorem orInt_other (other : ¬ Whole v) (otherwise : Int) : orInt otherwise v = otherwise := by
  cases v with
  | int z =>
    rw [orInt, if_neg]
    intro fits
    exact other ⟨z, rfl, fits⟩
  | _ => rfl

/-- One value is read alike exactly when it is a whole number, or worth nothing as is what
    stands for it. -/
theorem read_iff : asInt conversions v = orInt 0 v ∧ orInt pricePerCoin v = orInt 0 v ↔
    Whole v ∨ pricePerCoin = 0 ∧ Worthless conversions v := by
  by_cases whole : Whole v
  · simp [orInt_whole conversions whole, whole]
  · rw [orInt_other whole, orInt_other whole, asInt_eq_zero]
    simp [whole, and_comm]

theorem price_iff :
    priceIn lib (asInt conversions) 0 description = priceIn lib (orInt 0) 0 description ∧
        priceIn lib (orInt pricePerCoin) pricePerCoin description = priceIn lib (orInt 0) 0 description ↔
      Priced lib conversions pricePerCoin description := by
  unfold priceIn Priced
  cases lib.deserialize description with
  | none => simp
  | some descDoc =>
    simp only [Option.some.injEq, exists_eq_left', forall_eq']
    exact read_iff

/-- A name is read alike exactly when it has a space, or nothing to take for the seller. -/
theorem seller_iff : sellerIn id (restOf name) = sellerIn (fun _ => []) (restOf name) ↔ Named name := by
  unfold sellerIn Named
  by_cases spaced : ' ' ∈ restOf name
  · simp [spaced]
  · simp [spaced]

theorem attribution_eq_iff {unspaced other : Text → Text} {read others : Value F → Int} {unparsed unread : Int}
    (autogen : IsAutogen name) :
    attribution lib unspaced read unparsed name description = attribution lib other others unread name description ↔
      sellerIn unspaced (restOf name) = sellerIn other (restOf name) ∧
        priceIn lib read unparsed description = priceIn lib others unread description := by
  simp only [attribution, if_pos autogen, Option.some.injEq, Prod.mk.injEq, String.ofList_inj]

theorem attribution_agrees_iff (lib : Library F) (conversions : Conversions F) (pricePerCoin : Int) (name : String)
    (description : Text) : Agree lib conversions pricePerCoin name description ↔
      (IsAutogen name → Named name ∧ Priced lib conversions pricePerCoin description) := by
  by_cases autogen : IsAutogen name
  · constructor
    · rintro ⟨voucherList, pages, -⟩ -
      have listed := (attribution_eq_iff autogen).mp voucherList
      have paged := (attribution_eq_iff autogen).mp pages
      exact ⟨seller_iff.mp paged.1, price_iff.mp ⟨listed.2, paged.2⟩⟩
    · intro condition
      obtain ⟨named, priced⟩ := condition autogen
      have seller := seller_iff.mpr named
      obtain ⟨listed, paged⟩ := price_iff.mpr priced
      exact ⟨(attribution_eq_iff autogen).mpr ⟨rfl, listed⟩, (attribution_eq_iff autogen).mpr ⟨seller, paged⟩,
        (attribution_eq_iff autogen).mpr ⟨seller, paged⟩⟩
  · have other (unspaced : Text → Text) (read : Value F → Int) (unparsed : Int) :
        attribution lib unspaced read unparsed name description = none := if_neg autogen
    refine iff_of_true ⟨?_, ?_, ?_⟩ fun own => absurd own autogen
    · exact (other _ _ _).trans (other _ _ _).symm
    · exact (other _ _ _).trans (other _ _ _).symm
    · exact (other _ _ _).trans (other _ _ _).symm

/-! ## The money record's pass -/

theorem sellerOf_eq : sellerOf name = String.ofList (sellerIn (fun _ => []) (restOf name)) := by
  unfold sellerIn
  split
  · rfl
  · next unspaced =>
    have none_ : (restOf name).dropWhile (· ≠ ' ') = [] := by
      rw [List.dropWhile_eq_nil_iff]
      intro c inside
      exact decide_eq_true fun space => unspaced (space ▸ inside)
    rw [sellerOf, show name.toList.drop 9 = restOf name from rfl, none_, List.drop_nil]

/-- The pass takes a group as `rollupAttribution` says. -/
theorem rollupGroup_attribution {prices : Prices} {now : Nat} {pass : Pass} {g : VoucherGroup}
    (own : g.price = priceIn lib (orInt 0) 0 description) :
    rollupGroup prices now pass g =
      match rollupAttribution lib g.name description with
      | none => pass
      | some (seller, price) =>
        { money := moneyUpsertGroup pass.money g.id g.name seller (monthOf prices (g.createdMillis / 1000)) g.usedCount
            price commissionRatePercent now
          sellerDay :=
            if moneyGroupUsed pass.money g.id < g.usedCount ∧ seller ≠ "" ∧ 0 < price then
              add pass.sellerDay (seller, (g.usedCount - moneyGroupUsed pass.money g.id) * price)
            else pass.sellerDay
          live := g.id :: pass.live } := by
  rw [rollupGroup, rollupAttribution, attribution]
  split
  · simp only [sellerOf_eq, own]
  · rfl

end

/-! ## A group without a seller -/

/-- A description of 5 pesos. -/
def five : Value Empty := .object [("price".toList, .int 5)]

def fiveLibrary : Library Empty := printing [five] (by decide)

/-- The rollup and the list have no seller for it, the other pages its price tag. -/
theorem unnamed_disagrees :
    ¬ Agree fiveLibrary { truncate := nofun, parseNumber := fun _ => 0 } 1 "AUTOGEN: 5P2H-abc" (print five) := by
  intro agree
  have own : IsAutogen "AUTOGEN: 5P2H-abc" := by decide
  have named := seller_iff.mp ((attribution_eq_iff own).mp agree.pages).1
  exact absurd named (by unfold Named; decide)

end EllaFi.Attribution
