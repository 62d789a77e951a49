import EllaFi.Session
import Mathlib.Logic.Function.Basic

/-!
`SessionCache`: the entries by MAC and the index from an address to the MAC that
holds it now. The structure carries what every operation keeps: an entry stands
under its own MAC, and an indexed address leads to an entry whose current address
it is. So a lookup by address never returns an entry that has moved elsewhere
(`findByIp_clientIp`), and an address has one holder. `upsert` is the only
operation that moves an address (`upsert_ipToMac`); a write to the other fields
leaves the index alone (`write_ipToMac`).
-/
namespace EllaFi.Cache
open EllaFi.Session
open Function (update)

structure SessionCache where
  byMac : String → Option SessionParams
  ipToMac : String → Option String
  keyed : ∀ {mac s}, byMac mac = some s → s.clientMac = mac
  indexed : ∀ {ip mac}, ipToMac ip = some mac → ∃ s, byMac mac = some s ∧ s.clientIp = ip
  named : ipToMac "" = none

namespace SessionCache

def empty : SessionCache where
  byMac _ := none
  ipToMac _ := none
  keyed := nofun
  indexed := nofun
  named := rfl

section
variable (cache : SessionCache)

/-- The MAC that `upsert` files an entry under. -/
def key (ip mac : String) : String := if mac = "" then (cache.ipToMac ip).getD ip else mac

/-- The entry under a MAC, made with the defaults where there is none. -/
def entry (mac : String) : SessionParams := { (cache.byMac mac).getD {} with clientMac := mac }

/-- The index without the address that `key` held before, when it still holds it. -/
def released (key : String) : String → Option String :=
  let old := (cache.entry key).clientIp
  if old ≠ "" ∧ cache.ipToMac old = some key then update cache.ipToMac old none else cache.ipToMac

def upsertIndex (ip key : String) : String → Option String :=
  if ip = "" then cache.ipToMac
  else if (cache.entry key).clientIp = ip then update cache.ipToMac ip (some key)
  else update (cache.released key) ip (some key)

def upsertEntry (ip key : String) : SessionParams :=
  if ip = "" then cache.entry key else { cache.entry key with clientIp := ip }

end

@[simp] theorem entry_clientMac (cache : SessionCache) (mac : String) : (cache.entry mac).clientMac = mac := rfl

theorem entry_of_byMac {cache : SessionCache} {mac : String} {s : SessionParams} (found : cache.byMac mac = some s) :
    cache.entry mac = s := by
  have own := cache.keyed found
  rcases s with ⟨⟩
  cases own
  simp [entry, found]

@[simp] theorem upsertEntry_clientMac (cache : SessionCache) (ip key : String) :
    (cache.upsertEntry ip key).clientMac = key := by
  unfold upsertEntry; split <;> rfl

/-- An upsert writes no field but the two keys. -/
theorem upsertEntry_eq (cache : SessionCache) (ip key : String) :
    cache.upsertEntry ip key =
      { cache.entry key with clientIp := if ip = "" then (cache.entry key).clientIp else ip } := by
  unfold upsertEntry; split <;> rfl

/-- An address that `key` held is released by a move: no other address leads to
    `key` any more. -/
theorem released_eq (cache : SessionCache) (key other : String) :
    cache.released key other = if cache.ipToMac other = some key then none else cache.ipToMac other := by
  by_cases held : cache.ipToMac other = some key
  · obtain ⟨s, found, current⟩ := cache.indexed held
    have own : (cache.entry key).clientIp = other := by rw [entry_of_byMac found, current]
    have nonempty : other ≠ "" := by
      rintro rfl
      rw [cache.named] at held
      cases held
    simp [released, own, nonempty, held]
  · rw [if_neg held]
    unfold released
    split
    · next mine =>
      have elsewhere : other ≠ (cache.entry key).clientIp := by
        intro same
        exact held (same ▸ mine.2)
      rw [Function.update_of_ne elsewhere]
    · rfl

/-- Who holds each address after an upsert: the upserted one goes to `key`, which
    gives up any other. -/
theorem upsertIndex_eq (cache : SessionCache) {ip : String} (key : String) (given : ip ≠ "") (other : String) :
    cache.upsertIndex ip key other =
      if other = ip then some key else if cache.ipToMac other = some key then none else cache.ipToMac other := by
  unfold upsertIndex
  rw [if_neg given]
  split
  · next stays =>
    by_cases same : other = ip
    · simp [same]
    · have free : cache.ipToMac other ≠ some key := by
        intro held
        obtain ⟨s, found, current⟩ := cache.indexed held
        exact same (by rw [← current, ← entry_of_byMac found, stays])
      simp [same, free]
  · by_cases same : other = ip
    · simp [same]
    · simp [same, released_eq]

section
variable (cache : SessionCache)

/-- Create or update the entry for `mac`, recording `ip` as its current address. -/
def upsert (ip : String) (mac : String := "") : SessionCache where
  byMac := update cache.byMac (cache.key ip mac) (some (cache.upsertEntry ip (cache.key ip mac)))
  ipToMac := cache.upsertIndex ip (cache.key ip mac)
  keyed := by
    intro under s found
    by_cases here : under = cache.key ip mac
    · subst here
      rw [Function.update_self, Option.some.injEq] at found
      rw [← found, upsertEntry_clientMac]
    · rw [Function.update_of_ne here] at found
      exact cache.keyed found
  indexed := by
    intro at_ holder held
    generalize cache.key ip mac = key at held ⊢
    by_cases given : ip = ""
    · simp only [upsertIndex, given, if_true] at held
      obtain ⟨s, found, current⟩ := cache.indexed held
      by_cases here : holder = key
      · subst here
        exact ⟨_, Function.update_self .., by simp [upsertEntry, given, entry_of_byMac found, current]⟩
      · exact ⟨s, by rw [Function.update_of_ne here, found], current⟩
    · rw [cache.upsertIndex_eq key given] at held
      split at held
      · next same =>
        cases held
        exact ⟨_, Function.update_self .., by simp [upsertEntry, given, same]⟩
      · split at held
        · cases held
        · next notMine =>
          obtain ⟨s, found, current⟩ := cache.indexed held
          have elsewhere : holder ≠ key := fun same => notMine (same ▸ held)
          exact ⟨s, by rw [Function.update_of_ne elsewhere, found], current⟩
  named := by
    by_cases given : ip = ""
    · simp [upsertIndex, given, cache.named]
    · rw [cache.upsertIndex_eq _ given, if_neg (Ne.symm given)]
      simp [cache.named]

/-- Assignments through a pointer to the entry of `mac`. -/
def write (mac : String) (fields : FieldWrite) : SessionCache where
  byMac := update cache.byMac mac ((cache.byMac mac).map fields.apply)
  ipToMac := cache.ipToMac
  keyed := by
    intro under s found
    by_cases here : under = mac
    · subst here
      rw [Function.update_self] at found
      obtain ⟨before, there, rfl⟩ := Option.map_eq_some_iff.mp found
      rw [fields.keepsMac, cache.keyed there]
    · rw [Function.update_of_ne here] at found
      exact cache.keyed found
  indexed := by
    intro ip holder held
    obtain ⟨s, found, current⟩ := cache.indexed held
    by_cases here : holder = mac
    · subst here
      exact ⟨fields.apply s, by simp [found], by rw [fields.keepsIp, current]⟩
    · exact ⟨s, by rw [Function.update_of_ne here, found], current⟩
  named := cache.named

def findByMac (mac : String) : Option SessionParams := if mac = "" then none else cache.byMac mac

def findByIp (ip : String) : Option SessionParams :=
  if ip = "" then none else (cache.ipToMac ip).bind cache.byMac

end

/-! ## What the operations do -/

section
variable {cache : SessionCache} {ip mac : String} {s : SessionParams}

@[simp] theorem key_of_mac (given : mac ≠ "") : cache.key ip mac = mac := if_neg given

theorem upsert_byMac (cache : SessionCache) (ip mac under : String) :
    (cache.upsert ip mac).byMac under =
      if under = cache.key ip mac then some (cache.upsertEntry ip under) else cache.byMac under := by
  by_cases here : under = cache.key ip mac
  · subst here
    simp [upsert]
  · simp [upsert, here]

theorem upsert_ipToMac (given : ip ≠ "") (other : String) :
    (cache.upsert ip mac).ipToMac other =
      if other = ip then some (cache.key ip mac)
      else if cache.ipToMac other = some (cache.key ip mac) then none else cache.ipToMac other :=
  upsertIndex_eq cache _ given other

@[simp] theorem upsert_ipToMac_empty (cache : SessionCache) (mac : String) :
    (cache.upsert "" mac).ipToMac = cache.ipToMac := rfl

@[simp] theorem write_ipToMac (cache : SessionCache) (mac : String) (fields : FieldWrite) :
    (cache.write mac fields).ipToMac = cache.ipToMac := rfl

theorem write_byMac (cache : SessionCache) (mac : String) (fields : FieldWrite) (under : String) :
    (cache.write mac fields).byMac under =
      if under = mac then (cache.byMac under).map fields.apply else cache.byMac under := by
  by_cases here : under = mac
  · subst here
    simp [write]
  · simp [write, here]

theorem write_self (fields : FieldWrite) (found : cache.byMac mac = some s) :
    (cache.write mac fields).byMac mac = some (fields.apply s) := by
  rw [write_byMac, if_pos rfl, found, Option.map_some]

theorem findByMac_some : cache.findByMac mac = some s ↔ mac ≠ "" ∧ cache.byMac mac = some s := by
  simp [findByMac]

theorem findByIp_some :
    cache.findByIp ip = some s ↔ cache.ipToMac ip = some s.clientMac ∧ cache.byMac s.clientMac = some s := by
  constructor
  · intro found
    unfold findByIp at found
    split at found
    · cases found
    · obtain ⟨mac, held, there⟩ := Option.bind_eq_some_iff.mp found
      rw [cache.keyed there]
      exact ⟨held, there⟩
  · rintro ⟨held, there⟩
    have given : ip ≠ "" := by
      rintro rfl
      rw [cache.named] at held
      cases held
    simp [findByIp, given, held, there]

/-- A lookup by address returns the entry whose current address it is. -/
theorem findByIp_clientIp (found : cache.findByIp ip = some s) : s.clientIp = ip := by
  obtain ⟨held, there⟩ := findByIp_some.mp found
  obtain ⟨s', there', current⟩ := cache.indexed held
  rw [there] at there'
  cases there'
  exact current

/-- The index decides whose entry a lookup by address returns. -/
theorem findByIp_mac (cache : SessionCache) (ip : String) :
    (cache.findByIp ip).map (·.clientMac) = cache.ipToMac ip := by
  cases held : cache.ipToMac ip with
  | none => simp [findByIp, held]
  | some mac =>
    obtain ⟨s, there, -⟩ := cache.indexed held
    have own := cache.keyed there
    rw [findByIp_some.mpr ⟨own.symm ▸ held, own.symm ▸ there⟩, Option.map_some, own]

end

end SessionCache

end EllaFi.Cache
