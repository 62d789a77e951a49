import EllaFi.LoginNonces
import EllaFi.Runs

/-!
The throttle of the logins. A failed login is counted under its address in one of eight
slots, and an address with five counted failures is refused until a cooldown after the last
of them. A success starts over (`success_starts_over`). Where every failure of an address
finds a slot, it has no more than five in any cooldown period since its last success
(`login_throttled`); but a failure that finds none is not counted (`full_table_forgets`).
-/
namespace EllaFi.LoginThrottle
open EllaFi.LoginNonces
open EllaFi.Runs (Throughout Always throughout_always always_mono)

/-! ## The slots -/

section
variable {ip : BitVec 32} {now : Millis} {fails : List AdminFails}

theorem findIdx?_split {α : Type} {p : α → Bool} {items : List α} {i : Nat} (found : items.findIdx? p = some i) :
    ∃ before item after, items = before ++ item :: after ∧ before.length = i ∧ p item := by
  obtain ⟨inside, holds, -⟩ := List.findIdx?_eq_some_iff_getElem.mp found
  exact ⟨items.take i, items[i], items.drop (i + 1), by simp, by simp; omega, holds⟩

/-- What becomes of the table with a failure: the slot of its address counts one more, or
    a slot that is free or expired is taken for it, or there is none. -/
theorem recordFail_cases (ip : BitVec 32) (now : Millis) (fails : List AdminFails) :
    (∃ before f after, fails = before ++ f :: after ∧ f.ip = ip ∧ recordFail ip now fails = before ++
      { f with count := (if TtlLive f.untilMs now then f.count else 0) + 1, untilMs := now + adminFailCooldownMs } :: after) ∨
    ((∀ f ∈ fails, f.ip ≠ ip) ∧ ∃ before f after, fails = before ++ f :: after ∧ (f.ip = 0 ∨ ¬ TtlLive f.untilMs now) ∧
      recordFail ip now fails = before ++ { ip, count := 1, untilMs := now + adminFailCooldownMs } :: after) ∨
    ((∀ f ∈ fails, f.ip ≠ ip ∧ f.ip ≠ 0 ∧ TtlLive f.untilMs now) ∧ recordFail ip now fails = fails) := by
  unfold recordFail
  cases own : fails.findIdx? (·.ip = ip) with
  | some i =>
    obtain ⟨before, f, after, rfl, rfl, holds⟩ := findIdx?_split own
    exact .inl ⟨before, f, after, rfl, of_decide_eq_true holds, by simp [List.modify_eq_take_cons_drop]⟩
  | none =>
    have absent : ∀ f ∈ fails, f.ip ≠ ip := by simpa using own
    cases room : fails.findIdx? (fun f => f.ip = 0 ∨ ¬ TtlLive f.untilMs now) with
    | some i =>
      obtain ⟨before, f, after, rfl, rfl, holds⟩ := findIdx?_split room
      exact .inr (.inl ⟨absent, before, f, after, rfl, of_decide_eq_true holds, by simp⟩)
    | none =>
      have full : ∀ f ∈ fails, f.ip ≠ 0 ∧ TtlLive f.untilMs now := by simpa using room
      exact .inr (.inr ⟨fun f inside => ⟨absent f inside, full f inside⟩, rfl⟩)

theorem mem_clearFails {f : AdminFails} (inside : f ∈ fails) (other : f.ip ≠ ip) : f ∈ clearFails ip fails :=
  List.mem_map.mpr ⟨f, inside, if_neg other⟩

/-- A failure of another address leaves a slot that is neither free nor expired. -/
theorem mem_recordFail {f : AdminFails} (inside : f ∈ fails) (other : f.ip ≠ ip) (taken : f.ip ≠ 0)
    (live : TtlLive f.untilMs now) : f ∈ recordFail ip now fails := by
  rcases recordFail_cases ip now fails with
    ⟨before, g, after, rfl, own, result⟩ | ⟨-, before, g, after, rfl, room, result⟩ | ⟨-, result⟩
  · rw [result]
    rcases List.mem_append.mp inside with first | rest
    · exact List.mem_append_left _ first
    · rcases List.mem_cons.mp rest with rfl | last
      · exact absurd own other
      · exact List.mem_append_right _ (List.mem_cons_of_mem _ last)
  · rw [result]
    rcases List.mem_append.mp inside with first | rest
    · exact List.mem_append_left _ first
    · rcases List.mem_cons.mp rest with rfl | last
      · exact absurd room (not_or.mpr ⟨taken, not_not.mpr live⟩)
      · exact List.mem_append_right _ (List.mem_cons_of_mem _ last)
  · rwa [result]

/-- The address has one slot at most, and no slot counts less than nothing. -/
structure Tidy (ip : BitVec 32) (fails : List AdminFails) : Prop where
  alone : fails.countP (·.ip = ip) ≤ 1
  counts : ∀ f ∈ fails, 0 ≤ f.count

theorem Tidy.recordFail (tidy : Tidy ip fails) (source : BitVec 32) : Tidy ip (recordFail source now fails) := by
  obtain ⟨alone, counts⟩ := tidy
  rcases recordFail_cases source now fails with
    ⟨before, g, after, rfl, own, result⟩ | ⟨absent, before, g, after, rfl, -, result⟩ | ⟨-, result⟩
  · rw [result]
    obtain ⟨first, here, last⟩ := List.forall_mem_append.mp counts |>.imp_right List.forall_mem_cons.mp
    refine ⟨by simpa [List.countP_append, List.countP_cons] using alone, List.forall_mem_append.mpr ⟨first, ?_⟩⟩
    refine List.forall_mem_cons.mpr ⟨?_, last⟩
    dsimp only
    split <;> omega
  · rw [result]
    obtain ⟨first, -, last⟩ := List.forall_mem_append.mp counts |>.imp_right List.forall_mem_cons.mp
    refine ⟨?_, List.forall_mem_append.mpr ⟨first, List.forall_mem_cons.mpr ⟨Int.one_nonneg, last⟩⟩⟩
    by_cases own : source = ip
    · obtain ⟨noneFirst, -, noneLast⟩ := List.forall_mem_append.mp absent |>.imp_right List.forall_mem_cons.mp
      have noFirst : before.countP (·.ip = ip) = 0 := by simpa [own] using noneFirst
      have noLast : after.countP (·.ip = ip) = 0 := by simpa [own] using noneLast
      rw [List.countP_append, List.countP_cons, noFirst, noLast]
      split <;> simp
    · rw [List.countP_append, List.countP_cons, if_neg (by simpa using own)]
      rw [List.countP_append, List.countP_cons] at alone
      omega
  · rw [result]
    exact ⟨alone, counts⟩

theorem Tidy.clearFails (tidy : Tidy ip fails) (known : ip ≠ 0) (source : BitVec 32) : Tidy ip (clearFails source fails) := by
  constructor
  · refine le_trans ?_ tidy.alone
    rw [LoginNonces.clearFails, List.countP_map]
    refine List.countP_mono_left fun f _ own => ?_
    simp only [Function.comp_apply, decide_eq_true_eq] at own ⊢
    split at own
    · exact absurd own.symm known
    · exact own
  · intro f inside
    obtain ⟨g, there, rfl⟩ := List.mem_map.mp inside
    split
    · exact le_rfl
    · exact tidy.counts g there

theorem tidy_boot (known : ip ≠ 0) : Tidy ip boot.fails where
  alone := by
    have none_ : boot.fails.countP (·.ip = ip) = 0 := by simpa [boot] using known.symm
    omega
  counts f inside := by rw [List.eq_of_mem_replicate inside]

/-- The slot that the address has is the one that is counted up. -/
theorem recordFail_own (tidy : Tidy ip fails) {g : AdminFails} (there : g ∈ fails) (own : g.ip = ip)
    (live : TtlLive g.untilMs now) :
    ∃ f ∈ recordFail ip now fails, f.ip = ip ∧ f.count = g.count + 1 ∧ f.untilMs = now + adminFailCooldownMs := by
  rcases recordFail_cases ip now fails with
    ⟨before, f, after, rfl, same, result⟩ | ⟨absent, -⟩ | ⟨absent, -⟩
  · have alone := tidy.alone
    rw [List.countP_append, List.countP_cons, if_pos (decide_eq_true same)] at alone
    have noFirst := List.countP_eq_zero.mp (show before.countP (·.ip = ip) = 0 by omega)
    have noLast := List.countP_eq_zero.mp (show after.countP (·.ip = ip) = 0 by omega)
    have here : g = f := by
      rcases List.mem_append.mp there with first | rest
      · exact absurd (decide_eq_true own) (noFirst g first)
      · rcases List.mem_cons.mp rest with here | last
        · exact here
        · exact absurd (decide_eq_true own) (noLast g last)
    subst here
    rw [result]
    exact ⟨_, List.mem_append_right _ List.mem_cons_self, same, by rw [if_pos live], rfl⟩
  · exact absurd own (absent g there)
  · exact absurd own (absent g there).1

theorem recordFail_room (tidy : Tidy ip fails) (room : ∃ f ∈ fails, f.ip = ip ∨ f.ip = 0 ∨ ¬ TtlLive f.untilMs now) :
    ∃ f ∈ recordFail ip now fails, f.ip = ip ∧ 1 ≤ f.count ∧ f.untilMs = now + adminFailCooldownMs := by
  rcases recordFail_cases ip now fails with
    ⟨before, f, after, rfl, same, result⟩ | ⟨-, before, f, after, rfl, -, result⟩ | ⟨full, -⟩
  · rw [result]
    refine ⟨_, List.mem_append_right _ List.mem_cons_self, same, ?_, rfl⟩
    have counted := tidy.counts f (List.mem_append_right _ List.mem_cons_self)
    dsimp only
    split <;> omega
  · rw [result]
    exact ⟨_, List.mem_append_right _ List.mem_cons_self, rfl, le_rfl, rfl⟩
  · obtain ⟨f, inside, own | free | expired⟩ := room
    · exact absurd own (full f inside).1
    · exact absurd free (full f inside).2.1
    · exact absurd (full f inside).2.2 expired

end

/-! ## Logins -/

section
variable (sha256Hex : String → String) (adminPassword : String) (ip : BitVec 32)

/-- The login names a nonce that can be used, and has the right digest. -/
def Correct (s : Admin) (now : Millis) (credentials : Credentials) : Prop :=
  (liveSlot now credentials.nonce s.nonces).isSome ∧ DigestOk sha256Hex adminPassword credentials

instance (s : Admin) (now : Millis) (credentials : Credentials) :
    Decidable (Correct sha256Hex adminPassword s now credentials) := inferInstanceAs (Decidable (_ ∧ _))

/-- The ways that a login can go. -/
theorem login_cases (s : Admin) (now : Millis) (source : BitVec 32) (body : Option Credentials) :
    let answer := handleAdminLogin sha256Hex adminPassword now source body s
    (throttled source now s.fails ∧ answer.2.status = 429 ∧ answer.1.fails = s.fails) ∨
    (body = none ∧ answer.2.status = 400 ∧ answer.1.fails = s.fails) ∨
    (∃ credentials, body = some credentials ∧ ¬ throttled source now s.fails ∧
      Correct sha256Hex adminPassword s now credentials ∧ answer.2.status = 200 ∧
      answer.1.fails = clearFails source s.fails) ∨
    (∃ credentials, body = some credentials ∧ ¬ throttled source now s.fails ∧
      ¬ Correct sha256Hex adminPassword s now credentials ∧ answer.2.status = 401 ∧
      answer.1.fails = recordFail source now s.fails) := by
  intro answer
  by_cases slow : throttled source now s.fails
  · exact .inl (by simp [answer, handleAdminLogin, slow])
  · cases body with
    | none => exact .inr (.inl (by simp [answer, handleAdminLogin, slow]))
    | some credentials =>
      cases found : liveSlot now credentials.nonce s.nonces with
      | none =>
        exact .inr (.inr (.inr ⟨credentials, rfl, slow, by simp [Correct, found], by
          simp [answer, handleAdminLogin, slow, found, refuse]⟩))
      | some i =>
        by_cases digestOk : DigestOk sha256Hex adminPassword credentials
        · exact .inr (.inr (.inl ⟨credentials, rfl, slow, by simp [Correct, found, digestOk], by
            simp [answer, handleAdminLogin, slow, found, digestOk]⟩))
        · exact .inr (.inr (.inr ⟨credentials, rfl, slow, by simp [Correct, digestOk], by
            simp [answer, handleAdminLogin, slow, found, digestOk, refuse]⟩))

/-! ## Runs -/

/-- The status with which a login of the address is answered. -/
def answered (s : Admin) : Event → Option Nat
  | .challenge .. => none
  | .login now source body =>
    if source = ip then some (handleAdminLogin sha256Hex adminPassword (.ofNat 32 now) source body s).2.status else none

/-- The times at which a password of the address is checked and found wrong. -/
def failedAt (s : Admin) : List Event → List Nat
  | [] => []
  | e :: rest =>
    (if answered sha256Hex adminPassword ip s e = some 401 then [e.now] else []) ++
      failedAt (serve sha256Hex adminPassword s e).1 rest

/-- The server with the clock, and the times at which the address failed since it last
    succeeded, the last one first. -/
structure Watch where
  admin : Admin
  clock : Nat
  failures : List Nat

def start : Watch := { admin := boot, clock := 0, failures := [] }

/-- The clock does not go back. -/
def attempt (w : Watch) (e : Event) : Option Watch :=
  if e.now < w.clock then none
  else
    some
      { admin := (serve sha256Hex adminPassword w.admin e).1
        clock := e.now
        failures :=
          match answered sha256Hex adminPassword ip w.admin e with
          | some 200 => []
          | some 401 => e.now :: w.failures
          | _ => w.failures }

def cooldown : Nat := adminFailCooldownMs.toNat

/-- An address has no more failures in a cooldown period than are allowed; and once it has
    so many, it is refused until a cooldown after the last of them. -/
structure Throttles (w : Watch) : Prop where
  limit : ∀ since, ((w.failures.countP fun t => since ≤ t ∧ t < since + cooldown : Nat) : Int) ≤ adminMaxFails
  refuses : ∀ last ∈ w.failures.head?, adminMaxFails ≤ w.failures.countP (fun t => last < t + cooldown) →
    ∀ now body, w.clock ≤ now → now < last + cooldown →
      (handleAdminLogin sha256Hex adminPassword (.ofNat 32 now) ip body w.admin).2.status = 429

/-- A failure of the address finds a slot: its own, a free or an expired one. -/
def FindsSlot (w : Watch) : Event → Prop
  | .challenge .. => True
  | .login now source body =>
    source = ip → ∀ credentials ∈ body, ¬ throttled ip (.ofNat 32 now) w.admin.fails →
      ¬ Correct sha256Hex adminPassword w.admin (.ofNat 32 now) credentials →
        ∃ f ∈ w.admin.fails, f.ip = ip ∨ f.ip = 0 ∨ ¬ TtlLive f.untilMs (.ofNat 32 now)

instance (w : Watch) (e : Event) : Decidable (FindsSlot sha256Hex adminPassword ip w e) :=
  match e with
  | .challenge .. => .isTrue trivial
  | .login .. => inferInstanceAs (Decidable (_ → ∀ credentials ∈ _, _))

end

/-! ## Failures in a row -/

/-- How many of the last failures followed each other in less than a cooldown. -/
def streak : List Nat → Nat
  | [] => 0
  | [_] => 1
  | t :: earlier :: rest => if t < earlier + cooldown then streak (earlier :: rest) + 1 else 1

/-- The failures of a period that the last one is in are in a row. -/
theorem window_le_streak {t since : Nat} {failures : List Nat}
    (sorted : (t :: failures).Pairwise fun later earlier => earlier ≤ later) (inside : t < since + cooldown) :
    ((t :: failures).countP fun t => since ≤ t ∧ t < since + cooldown) ≤ streak (t :: failures) := by
  induction failures generalizing t with
  | nil => exact List.countP_le_length
  | cons earlier rest ih =>
    obtain ⟨last, sortedRest⟩ := List.pairwise_cons.mp sorted
    obtain ⟨before, -⟩ := List.pairwise_cons.mp sortedRest
    have here := last earlier List.mem_cons_self
    have later := ih sortedRest (by omega)
    rw [List.countP_cons, streak]
    by_cases near : t < earlier + cooldown
    · rw [if_pos near]
      split <;> omega
    · have gone : (earlier :: rest).countP (fun t => since ≤ t ∧ t < since + cooldown) = 0 := by
        refine List.countP_eq_zero.mpr fun other there => ?_
        have order : other ≤ earlier := by
          rcases List.mem_cons.mp there with rfl | there
          · exact le_rfl
          · exact before other there
        simp only [decide_eq_true_eq]
        omega
      rw [gone, if_neg near]
      split <;> omega

/-- The slot of a failure is live until a cooldown after it, whatever the counter. -/
theorem live_of_recent {last now : Nat} (order : last ≤ now) (recent : now < last + cooldown) :
    TtlLive (BitVec.ofNat 32 last + adminFailCooldownMs) (.ofNat 32 now) := by
  have period : adminFailCooldownMs.toNat = 60000 := rfl
  have width : cooldown = 60000 := rfl
  have apart : (BitVec.ofNat 32 last + adminFailCooldownMs - BitVec.ofNat 32 now).toNat = last + 60000 - now := by
    rw [BitVec.toNat_sub, BitVec.toNat_add, BitVec.toNat_ofNat, BitVec.toNat_ofNat, period]
    omega
  rw [TtlLive, BitVec.toInt_eq_toNat_cond, apart]
  split <;> omega

/-! ## What every request keeps -/

/-- The last failures in a row are counted in a slot of the address, for as long as they
    count. -/
structure Tracked (ip : BitVec 32) (w : Watch) : Prop where
  tidy : Tidy ip w.admin.fails
  past : ∀ t ∈ w.failures, t ≤ w.clock
  sorted : w.failures.Pairwise fun later earlier => earlier ≤ later
  held : ∀ last ∈ w.failures.head?, w.clock < last + cooldown → ∃ f ∈ w.admin.fails,
    f.ip = ip ∧ (streak w.failures : Int) ≤ f.count ∧ f.untilMs = .ofNat 32 last + adminFailCooldownMs
  limit : ∀ since, ((w.failures.countP fun t => since ≤ t ∧ t < since + cooldown : Nat) : Int) ≤ adminMaxFails

section
variable {sha256Hex : String → String} {adminPassword : String} {ip : BitVec 32} {w next : Watch}

/-- A request that is no failure of the address keeps the slot while it counts. -/
theorem Tracked.kept (tracked : Tracked ip w) (later : w.clock ≤ next.clock) (same : next.failures = w.failures)
    (tidy : Tidy ip next.admin.fails)
    (stays : ∀ f ∈ w.admin.fails, f.ip = ip → TtlLive f.untilMs (.ofNat 32 next.clock) → f ∈ next.admin.fails) :
    Tracked ip next := by
  obtain ⟨-, past, sorted, held, limit⟩ := tracked
  refine ⟨tidy, ?_, same ▸ sorted, ?_, same ▸ limit⟩
  · rw [same]
    exact fun t inside => (past t inside).trans later
  · rw [same]
    intro last newest recent
    obtain ⟨f, inside, own, counted, expires⟩ := held last newest (by omega)
    have before := past last (List.mem_of_head? newest)
    refine ⟨f, stays f inside own ?_, own, counted, expires⟩
    rw [expires]
    exact live_of_recent (before.trans later) recent

/-- A success of the address starts over. -/
theorem Tracked.fresh (none_ : next.failures = []) (tidy : Tidy ip next.admin.fails) : Tracked ip next := by
  refine ⟨tidy, ?_, none_ ▸ .nil, ?_, ?_⟩ <;> rw [none_]
  · exact List.forall_mem_nil _
  · rintro last ⟨⟩
  · exact fun _ => Int.natCast_nonneg 5

/-- A failure of the address is counted, and was allowed. -/
theorem Tracked.failed (tracked : Tracked ip w) {now : Nat} (later : w.clock ≤ now)
    (allowed : ¬ throttled ip (.ofNat 32 now) w.admin.fails)
    (room : ∃ f ∈ w.admin.fails, f.ip = ip ∨ f.ip = 0 ∨ ¬ TtlLive f.untilMs (.ofNat 32 now))
    (clock : next.clock = now) (failures : next.failures = now :: w.failures)
    (fails : next.admin.fails = recordFail ip (.ofNat 32 now) w.admin.fails) : Tracked ip next := by
  obtain ⟨tidy, past, sorted, held, limit⟩ := tracked
  have sortedNext : (now :: w.failures).Pairwise fun later earlier => earlier ≤ later :=
    List.pairwise_cons.mpr ⟨fun t inside => (past t inside).trans later, sorted⟩
  -- The new failure goes on from the last one while that one's slot is live, or is the first of a row.
  have counted : (streak (now :: w.failures) : Int) ≤ adminMaxFails ∧ ∃ f ∈ recordFail ip (.ofNat 32 now) w.admin.fails,
      f.ip = ip ∧ (streak (now :: w.failures) : Int) ≤ f.count ∧ f.untilMs = .ofNat 32 now + adminFailCooldownMs := by
    have most : adminMaxFails = 5 := rfl
    cases row : w.failures with
    | nil =>
      obtain ⟨f, inside, own, count, expires⟩ := recordFail_room tidy room
      exact ⟨by simp [streak, most], f, inside, own, by simpa [streak] using count, expires⟩
    | cons last rest =>
      unfold streak
      by_cases recent : now < last + cooldown
      · have newest : last ∈ w.failures.head? := by simp [row]
        obtain ⟨g, there, own, count, expires⟩ := held last newest (by omega)
        have live : TtlLive g.untilMs (.ofNat 32 now) := by
          rw [expires]
          exact live_of_recent ((past last (by simp [row])).trans later) recent
        have few : ¬ adminMaxFails ≤ g.count := by
          intro many
          refine allowed (List.any_eq_true.mpr ⟨g, there, ?_⟩)
          exact decide_eq_true ⟨own, many, live⟩
        obtain ⟨f, inside, ownNew, counts, expiresNew⟩ := recordFail_own tidy there own live
        rw [row] at count
        rw [if_pos recent]
        exact ⟨by push_cast; omega, f, inside, ownNew, by push_cast; omega, expiresNew⟩
      · obtain ⟨f, inside, own, count, expires⟩ := recordFail_room tidy room
        rw [if_neg recent]
        exact ⟨by rw [most]; decide, f, inside, own, by exact_mod_cast count, expires⟩
  refine ⟨fails ▸ tidy.recordFail ip, ?_, failures ▸ sortedNext, ?_, ?_⟩
  · rw [failures, clock]
    exact List.forall_mem_cons.mpr ⟨le_rfl, fun t inside => (past t inside).trans later⟩
  · rw [failures, fails]
    intro last newest _
    obtain rfl : now = last := by simpa using newest
    exact counted.2
  · rw [failures]
    intro since
    by_cases inside : since ≤ now ∧ now < since + cooldown
    · exact le_trans (by exact_mod_cast window_le_streak sortedNext inside.2) counted.1
    · rw [List.countP_cons, if_neg (by simpa using inside)]
      exact limit since

theorem Tracked.attempted {e : Event} (tracked : Tracked ip w) (known : ip ≠ 0)
    (finds : FindsSlot sha256Hex adminPassword ip w e) (taken : attempt sha256Hex adminPassword ip w e = some next) :
    Tracked ip next := by
  unfold attempt at taken
  split at taken
  · cases taken
  · next forward =>
    have later : w.clock ≤ e.now := by omega
    obtain rfl := Option.some.inj taken
    cases e with
    | challenge now random =>
      exact tracked.kept later rfl tracked.tidy fun f inside _ _ => inside
    | login now source body =>
      have cases := login_cases sha256Hex adminPassword w.admin (.ofNat 32 now) source body
      by_cases own : source = ip
      · subst own
        rcases cases with ⟨-, status, fails⟩ | ⟨-, status, fails⟩ | ⟨_, -, -, -, status, fails⟩ |
          ⟨credentials, rfl, allowed, wrong, status, fails⟩
        · exact tracked.kept later (by simp [answered, status]) (fails ▸ tracked.tidy) fun f inside _ _ => fails ▸ inside
        · exact tracked.kept later (by simp [answered, status]) (fails ▸ tracked.tidy) fun f inside _ _ => fails ▸ inside
        · exact .fresh (by simp [answered, status]) (fails ▸ tracked.tidy.clearFails known source)
        · exact tracked.failed later allowed (finds rfl credentials rfl allowed wrong) rfl (by simp [answered, status, Event.now])
            fails
      · have unheard : answered sha256Hex adminPassword ip w.admin (.login now source body) = none := if_neg own
        refine tracked.kept later (by rw [unheard]) ?_ fun f inside mine live => ?_
        · rcases cases with ⟨-, -, fails⟩ | ⟨-, -, fails⟩ | ⟨_, -, -, -, -, fails⟩ | ⟨_, -, -, -, -, fails⟩
          · exact fails ▸ tracked.tidy
          · exact fails ▸ tracked.tidy
          · exact fails ▸ tracked.tidy.clearFails known source
          · exact fails ▸ tracked.tidy.recordFail source
        · have other : f.ip ≠ source := fun same => own (same ▸ mine)
          rcases cases with ⟨-, -, fails⟩ | ⟨-, -, fails⟩ | ⟨_, -, -, -, -, fails⟩ | ⟨_, -, -, -, -, fails⟩
          · exact fails ▸ inside
          · exact fails ▸ inside
          · exact fails ▸ mem_clearFails inside other
          · exact fails ▸ mem_recordFail inside other (mine ▸ known) live

/-- Five failures within a cooldown of the last are in a row, so its slot counts five. -/
theorem Tracked.throttles (tracked : Tracked ip w) : Throttles sha256Hex adminPassword ip w := by
  refine ⟨tracked.limit, fun last newest many now body later recent => ?_⟩
  obtain ⟨f, inside, own, counted, expires⟩ := tracked.held last newest (by omega)
  obtain ⟨rest, row⟩ : ∃ rest, w.failures = last :: rest := by
    cases failures : w.failures with
    | nil => simp [failures] at newest
    | cons first rest => exact ⟨rest, by simpa [failures] using newest⟩
  have sorted := row ▸ tracked.sorted
  have before : ∀ t ∈ last :: rest, t ≤ last :=
    List.forall_mem_cons.mpr ⟨le_rfl, (List.pairwise_cons.mp sorted).1⟩
  have short : w.failures.countP (fun t => last < t + cooldown) ≤ streak w.failures := by
    rw [row]
    refine le_trans (List.countP_mono_left fun t there near => ?_)
      (window_le_streak sorted (by omega : last < last + 1 - cooldown + cooldown))
    have order := before t there
    simp only [decide_eq_true_eq] at near ⊢
    omega
  have live : TtlLive f.untilMs (.ofNat 32 now) := by
    rw [expires]
    exact live_of_recent ((tracked.past last (List.mem_of_head? newest)).trans later) recent
  have slow : throttled ip (.ofNat 32 now) w.admin.fails :=
    List.any_eq_true.mpr ⟨f, inside, decide_eq_true ⟨own, by omega, live⟩⟩
  unfold handleAdminLogin
  rw [if_pos slow]

/-- Where every failure of an address finds a slot, it has no more than five in a cooldown
    period since it last succeeded, and after five it is refused until the cooldown is
    over, whatever the other addresses do. -/
theorem login_throttled (known : ip ≠ 0) {events : List Event}
    (finds : Throughout (attempt sha256Hex adminPassword ip) (FindsSlot sha256Hex adminPassword ip) start events) :
    Always (attempt sha256Hex adminPassword ip) (Throttles sha256Hex adminPassword ip) start events :=
  always_mono (fun _ => Tracked.throttles)
    (throughout_always (fun _ _ _ tracked found taken => tracked.attempted known found taken)
      (.fresh rfl (tidy_boot known)) finds)

end

theorem login_throttled_among_others :
    Always (attempt (fun _ => "") "" 5) (Throttles (fun _ => "") "" 5) start
      (List.replicate 5 (.login 1000 5 (some ⟨"", ""⟩)) ++ [.login 2000 6 (some ⟨"", ""⟩), .login 3000 5 (some ⟨"", ""⟩)]) :=
  login_throttled (by decide) (by decide)

/-- A success clears the count: four failures before it and four behind it are eight in
    one period. -/
theorem success_starts_over :
    ¬ ∀ (sha256Hex : String → String) (adminPassword : String) (ip : BitVec 32) (events : List Event),
      events.Pairwise (fun earlier later => earlier.now ≤ later.now) → ∀ since,
        (((failedAt sha256Hex adminPassword ip boot events).countP fun t => since ≤ t ∧ t < since + cooldown : Nat) : Int) ≤
          adminMaxFails := by
  intro always
  have eight := always (fun _ => String.ofList (List.replicate 64 'a')) "" 5
    (List.replicate 4 (.login 1000 5 (some ⟨"", ""⟩)) ++
      .challenge 2000 (.replicate 16 0) ::
      .login 3000 5 (some ⟨String.ofList (List.replicate 32 '0'), String.ofList (List.replicate 64 'a')⟩) ::
      List.replicate 4 (.login 4000 5 (some ⟨"", ""⟩))) (by decide) 0
  revert eight
  decide

/-- With the eight slots taken by others a failure is not counted, and nothing refuses the
    address. -/
theorem full_table_forgets {ip : BitVec 32} {now : Millis} {fails : List AdminFails}
    (full : ∀ f ∈ fails, f.ip ≠ ip ∧ f.ip ≠ 0 ∧ TtlLive f.untilMs now) :
    recordFail ip now fails = fails ∧ ¬ throttled ip now fails := by
  constructor
  · rcases recordFail_cases ip now fails with ⟨before, f, after, rfl, own, -⟩ | ⟨-, before, f, after, rfl, room, -⟩ | ⟨-, same⟩
    · exact absurd own (full f (by simp)).1
    · obtain ⟨-, taken, live⟩ := full f (by simp)
      exact absurd room (not_or.mpr ⟨taken, not_not.mpr live⟩)
    · exact same
  · intro slow
    obtain ⟨f, inside, holds⟩ := List.any_eq_true.mp slow
    exact (full f inside).1 (of_decide_eq_true holds).1

example : failedAt (fun _ => "") "" 9 boot
    ((List.range 8).map (fun i => .login 1000 (.ofNat 32 (i + 1)) (some ⟨"", ""⟩)) ++
      List.replicate 6 (.login 2000 9 (some ⟨"", ""⟩))) = List.replicate 6 2000 := by decide

end EllaFi.LoginThrottle
