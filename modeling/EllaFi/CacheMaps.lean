import EllaFi.Cache
import Mathlib.Data.List.Induction

/-!
The two maps of `SessionCache` on their own, and what any calls of `upsert` make of
them. From the empty maps on they are those of a cache (`upserts_maps`), so an
indexed address always leads to an entry whose address it is, whatever the strings,
and each call moves only the entry and the addresses that it is about
(`upserts_indexed`).
-/
namespace EllaFi.CacheMaps
open EllaFi.Session EllaFi.Cache
open Function (update)

/-- `_byMac` and `_ipToMac`. -/
structure Maps where
  byMac : String → Option SessionParams
  ipToMac : String → Option String

namespace Maps

def empty : Maps where
  byMac _ := none
  ipToMac _ := none

section
variable (maps : Maps)

/-- The key of the entry that an upsert is about. -/
def key (ip mac : String) : String := if mac = "" then (maps.ipToMac ip).getD ip else mac

/-- `_byMac[mac]` with its MAC assigned. -/
def entry (mac : String) : SessionParams := { (maps.byMac mac).getD {} with clientMac := mac }

/-- The index once `key` has given up an address that it no longer has. -/
def released (ip key : String) : String → Option String :=
  let old := (maps.entry key).clientIp
  if old ≠ ip ∧ old ≠ "" ∧ maps.ipToMac old = some key then update maps.ipToMac old none else maps.ipToMac

def upsert (ip : String) (mac : String := "") : Maps :=
  let key := maps.key ip mac
  if ip = "" then { maps with byMac := update maps.byMac key (some (maps.entry key)) }
  else
    { byMac := update maps.byMac key (some { maps.entry key with clientIp := ip })
      ipToMac := update (maps.released ip key) ip (some key) }

def findByMac (mac : String) : Option SessionParams := if mac = "" then none else maps.byMac mac

def findByIp (ip : String) : Option SessionParams :=
  if ip = "" then none else (maps.ipToMac ip).bind maps.byMac

/-- Calls of `upsert`, each with its address and MAC. -/
def upserts (calls : List (String × String)) : Maps := calls.foldl (fun maps call => maps.upsert call.1 call.2) maps

end

end Maps

/-- The index leads to entries that have the address, and each entry has its key. -/
structure Maps.Indexed (maps : Maps) : Prop where
  indexed : ∀ ip key, maps.ipToMac ip = some key → ∃ s, maps.byMac key = some s ∧ s.clientIp = ip
  keyed : ∀ key s, maps.byMac key = some s → s.clientMac = key

/-- A call changes the entry and the addresses that it is about, and nothing else. -/
structure Maps.Moves (maps : Maps) (ip mac : String) : Prop where
  found : ip ≠ "" → mac ≠ "" →
    ∃ s, (maps.upsert ip mac).findByIp ip = some s ∧ (maps.upsert ip mac).findByMac mac = some s
  entry :
    let before := (maps.byMac (maps.key ip mac)).getD {}
    (maps.upsert ip mac).byMac (maps.key ip mac) =
      some { before with clientMac := maps.key ip mac, clientIp := if ip = "" then before.clientIp else ip }
  entries : ∀ other, other ≠ maps.key ip mac → (maps.upsert ip mac).byMac other = maps.byMac other
  index : ∀ other, other ≠ ip → (∀ s, maps.byMac (maps.key ip mac) = some s → other ≠ s.clientIp) →
    (maps.upsert ip mac).ipToMac other = maps.ipToMac other

/-! ## The maps of a cache -/

/-- The maps without what the structure promises of them. -/
def mapsOf (cache : SessionCache) : Maps where
  byMac := cache.byMac
  ipToMac := cache.ipToMac

section
variable (cache : SessionCache) (ip mac : String)

theorem mapsOf_key : (mapsOf cache).key ip mac = cache.key ip mac := rfl

theorem mapsOf_released (key : String) :
    (mapsOf cache).released ip key = if (cache.entry key).clientIp = ip then cache.ipToMac else cache.released key := by
  have same : (mapsOf cache).entry key = cache.entry key := rfl
  simp only [Maps.released, SessionCache.released, same]
  by_cases stays : (cache.entry key).clientIp = ip
  · rw [if_pos stays, if_neg fun moves => moves.1 stays]
    rfl
  · simp only [stays, ne_eq, not_false_eq_true, true_and, if_false]
    rfl

theorem mapsOf_upsert : (mapsOf cache).upsert ip mac = mapsOf (cache.upsert ip mac) := by
  unfold Maps.upsert
  by_cases given : ip = ""
  · subst given
    rfl
  · rw [mapsOf_key, if_neg given, mapsOf_released, mapsOf, Maps.mk.injEq]
    simp only [SessionCache.upsert, SessionCache.upsertIndex, SessionCache.upsertEntry, if_neg given]
    refine ⟨rfl, ?_⟩
    split <;> rfl

end

/-- Whatever the calls were, the maps are those of a cache. -/
theorem upserts_maps (calls : List (String × String)) : ∃ cache : SessionCache, Maps.empty.upserts calls = mapsOf cache := by
  induction calls using List.reverseRecOn with
  | nil => exact ⟨.empty, rfl⟩
  | append_singleton before call ih =>
    obtain ⟨cache, same⟩ := ih
    refine ⟨cache.upsert call.1 call.2, ?_⟩
    rw [← mapsOf_upsert, ← same]
    simp [Maps.upserts]

/-! ## One call -/

section
variable {cache : SessionCache} {ip mac : String}

theorem find_same (givenIp : ip ≠ "") (givenMac : mac ≠ "") :
    ∃ s, (cache.upsert ip mac).findByIp ip = some s ∧ (cache.upsert ip mac).findByMac mac = some s := by
  have there : (cache.upsert ip mac).byMac mac = some (cache.upsertEntry ip mac) := by
    rw [SessionCache.upsert_byMac, SessionCache.key_of_mac givenMac, if_pos rfl]
  have held : (cache.upsert ip mac).ipToMac ip = some mac := by
    rw [SessionCache.upsert_ipToMac givenIp, if_pos rfl, SessionCache.key_of_mac givenMac]
  refine ⟨cache.upsertEntry ip mac, ?_, SessionCache.findByMac_some.mpr ⟨givenMac, there⟩⟩
  rw [SessionCache.findByIp_some, SessionCache.upsertEntry_clientMac]
  exact ⟨held, there⟩

/-- An address that is neither given nor the entry's former one keeps its holder. -/
theorem index_kept {other : String} (elsewhere : other ≠ ip)
    (notFormer : ∀ s, cache.byMac (cache.key ip mac) = some s → other ≠ s.clientIp) :
    (cache.upsert ip mac).ipToMac other = cache.ipToMac other := by
  by_cases given : ip = ""
  · rw [given, SessionCache.upsert_ipToMac_empty]
  · rw [SessionCache.upsert_ipToMac given, if_neg elsewhere]
    refine if_neg fun held => ?_
    obtain ⟨s, found, current⟩ := cache.indexed held
    exact notFormer s found current.symm

theorem entries_kept {mac' : String} (there : (cache.byMac mac').isSome) : ((cache.upsert ip mac).byMac mac').isSome := by
  rw [SessionCache.upsert_byMac]
  split
  · rfl
  · exact there

end

/-- No later call removes an entry. -/
theorem upserts_kept (cache : SessionCache) (later : List (String × String)) {mac : String}
    (there : (cache.byMac mac).isSome) : (((mapsOf cache).upserts later).byMac mac).isSome := by
  induction later generalizing cache with
  | nil => exact there
  | cons call rest ih =>
    simp only [Maps.upserts, List.foldl_cons, mapsOf_upsert]
    exact ih _ (entries_kept there)

/-- After any calls the index and the entries agree, later calls keep every entry, and
    each changes what it is about and nothing else. -/
theorem upserts_indexed (calls : List (String × String)) :
    Maps.Indexed (Maps.upserts .empty calls) ∧
      (∀ later key, ((Maps.upserts .empty calls).byMac key).isSome →
        (((Maps.upserts .empty calls).upserts later).byMac key).isSome) ∧
      ∀ ip mac, Maps.Moves (Maps.upserts .empty calls) ip mac := by
  obtain ⟨cache, same⟩ := upserts_maps calls
  rw [same]
  refine ⟨⟨fun ip key => cache.indexed, fun key s => cache.keyed⟩, fun later key => upserts_kept cache later,
    fun ip mac => ?_⟩
  constructor <;> simp only [mapsOf_upsert, mapsOf_key]
  case found => exact find_same
  case entry =>
    have moved : (cache.upsert ip mac).byMac (cache.key ip mac) = some (cache.upsertEntry ip (cache.key ip mac)) := by
      rw [SessionCache.upsert_byMac, if_pos rfl]
    rw [SessionCache.upsertEntry_eq] at moved
    exact moved
  case entries =>
    intro other elsewhere
    exact (SessionCache.upsert_byMac cache ip mac other).trans (if_neg elsewhere)
  case index => exact fun other => index_kept

end EllaFi.CacheMaps
