import Mathlib.Data.List.Induction
import Mathlib.Data.List.Nodup

/-!
The login of an administrator. A challenge puts a new nonce into one of eight slots, over
an expired or the oldest one, for a minute; a login takes the nonce that it names out of
its slot, whatever becomes of it. So every nonce decides one login at most, and a login
succeeds only with a nonce that was issued less than a minute ago and has decided none
before (`nonces_single_use`).
-/
namespace EllaFi.LoginNonces

/-- The counter of milliseconds. -/
abbrev Millis : Type := BitVec 32

def adminNonceTtlMs : Millis := 60000
def adminMaxFails : Int := 5
def adminFailCooldownMs : Millis := 60000

def TtlLive (expiresMs now : Millis) : Prop := 0 < (expiresMs - now).toInt

instance (expiresMs now : Millis) : Decidable (TtlLive expiresMs now) := inferInstanceAs (Decidable (0 < _))

structure AdminNonce where
  nonce : String := ""
  expiresMs : Millis := 0

structure AdminFails where
  ip : BitVec 32 := 0
  count : Int := 0
  untilMs : Millis := 0

/-- What the server holds of the logins. -/
structure Admin where
  nonces : List AdminNonce
  fails : List AdminFails

def boot : Admin where
  nonces := List.replicate 8 {}
  fails := List.replicate 8 {}

structure Response where
  status : Nat
  body : String
  cookie : Option String := none

/-! ## Challenges -/

/-- Two digits for each byte. -/
def randomHex (random : Vector (BitVec 8) 16) : String :=
  String.ofList (random.toList.flatMap fun b => [Nat.digitChar (b.toNat / 16), Nat.digitChar (b.toNat % 16)])

/-- The first slot that is free or expired, or else the one that expires first. -/
def slotFor (now : Millis) : Nat → Nat → Millis → List AdminNonce → Nat
  | _, slot, _, [] => slot
  | i, slot, oldest, n :: rest =>
    if ¬ TtlLive n.expiresMs now then i
    else if n.expiresMs < oldest then slotFor now (i + 1) i n.expiresMs rest
    else slotFor now (i + 1) slot oldest rest

def handleAdminChallenge (now : Millis) (random : Vector (BitVec 8) 16) (s : Admin) : Admin × Response :=
  let nonce := randomHex random
  ({ s with nonces := s.nonces.set (slotFor now 0 0 0xffffffff s.nonces) { nonce, expiresMs := now + adminNonceTtlMs } },
    { status := 200, body := "\x7b\"nonce\":\"" ++ nonce ++ "\"\x7d" })

/-! ## Logins -/

def recordFail (ip : BitVec 32) (now : Millis) (fails : List AdminFails) : List AdminFails :=
  match fails.findIdx? (·.ip = ip) with
  | some i =>
    fails.modify i fun f =>
      { f with count := (if TtlLive f.untilMs now then f.count else 0) + 1, untilMs := now + adminFailCooldownMs }
  | none =>
    match fails.findIdx? fun f => f.ip = 0 ∨ ¬ TtlLive f.untilMs now with
    | some i => fails.set i { ip, count := 1, untilMs := now + adminFailCooldownMs }
    | none => fails

def clearFails (ip : BitVec 32) (fails : List AdminFails) : List AdminFails :=
  fails.map fun f => if f.ip = ip then {} else f

def throttled (ip : BitVec 32) (now : Millis) (fails : List AdminFails) : Bool :=
  fails.any fun f => f.ip = ip ∧ adminMaxFails ≤ f.count ∧ TtlLive f.untilMs now

/-- What the body of a login has under `nonce` and `digest`. -/
structure Credentials where
  nonce : String
  digest : String

/-- The slot of a nonce that can be used. -/
def liveSlot (now : Millis) (nonce : String) (nonces : List AdminNonce) : Option Nat :=
  nonces.findIdx? fun n => n.nonce ≠ "" ∧ n.nonce = nonce ∧ TtlLive n.expiresMs now

section
variable (sha256Hex : String → String) (adminPassword : String)

def persistentToken : String := sha256Hex ("ellafi-cookie-v1:" ++ adminPassword)

def sessionCookie : String :=
  "ellafi_admin=" ++ persistentToken sha256Hex adminPassword ++ "; Path=/; Max-Age=315360000; HttpOnly; SameSite=Strict"

/-- The digest is compared in constant time. -/
def DigestOk (credentials : Credentials) : Prop :=
  credentials.digest.length = 64 ∧ credentials.digest = sha256Hex (credentials.nonce ++ ":" ++ adminPassword)

instance (credentials : Credentials) : Decidable (DigestOk sha256Hex adminPassword credentials) :=
  inferInstanceAs (Decidable (_ ∧ _))

def refuse (ip : BitVec 32) (now : Millis) (s : Admin) : Admin × Response :=
  ({ s with fails := recordFail ip now s.fails }, { status := 401, body := "\x7b\"error\":\"invalid password\"\x7d" })

/-- A body that is no JSON is none. -/
def handleAdminLogin (now : Millis) (ip : BitVec 32) (body : Option Credentials) (s : Admin) : Admin × Response :=
  if throttled ip now s.fails then
    (s, { status := 429, body := "\x7b\"error\":\"too many attempts — wait a minute\"\x7d" })
  else
    match body with
    | none => (s, { status := 400, body := "\x7b\"error\":\"bad request\"\x7d" })
    | some credentials =>
      match liveSlot now credentials.nonce s.nonces with
      | none => refuse ip now s
      | some i =>
        let burned : Admin := { s with nonces := s.nonces.set i {} }
        if DigestOk sha256Hex adminPassword credentials then
          ({ burned with fails := clearFails ip burned.fails },
            { status := 200, body := "\x7b\"ok\":true\x7d", cookie := some (sessionCookie sha256Hex adminPassword) })
        else refuse ip now burned

/-! ## Runs -/

/-- A request, and how many milliseconds the server has run. -/
inductive Event where
  | challenge (now : Nat) (random : Vector (BitVec 8) 16)
  | login (now : Nat) (ip : BitVec 32) (body : Option Credentials)

def Event.now : Event → Nat
  | .challenge now _ | .login now _ _ => now

/-- The nonce that a challenge issues. -/
def Event.issued : Event → Option String
  | .challenge _ random => some (randomHex random)
  | .login .. => none

def serve (s : Admin) : Event → Admin × Response
  | .challenge now random => handleAdminChallenge (.ofNat 32 now) random s
  | .login now ip body => handleAdminLogin sha256Hex adminPassword (.ofNat 32 now) ip body s

def served (events : List Event) : Admin := events.foldl (fun s e => (serve sha256Hex adminPassword s e).1) boot

/-- The nonce that is taken for a login and decides it. -/
def decidedBy (s : Admin) : Event → Option String
  | .challenge .. => none
  | .login now ip body =>
    if throttled ip (.ofNat 32 now) s.fails then none
    else body.bind fun credentials => (liveSlot (.ofNat 32 now) credentials.nonce s.nonces).map fun _ => credentials.nonce

/-- The nonces that decided the logins of a run, in their order. -/
def decisions (s : Admin) : List Event → List String
  | [] => []
  | e :: rest => (decidedBy s e).toList ++ decisions (serve sha256Hex adminPassword s e).1 rest

end

/-- The clock does not go back and does not reach the sign, and every nonce is new. -/
structure Orderly (events : List Event) : Prop where
  nondecreasing : events.Pairwise fun earlier later => earlier.now ≤ later.now
  early : ∀ e ∈ events, e.now < 2147483648
  distinct : (events.filterMap Event.issued).Nodup

/-- A challenge at a time issued the nonce. -/
def IssuedAt (events : List Event) (now : Nat) (nonce : String) : Prop :=
  ∃ random, .challenge now random ∈ events ∧ randomHex random = nonce

/-! ## One slot -/

/-- The comparison of 32 bits is that of the times. -/
theorem ttlLive_iff {issued now : Nat} (order : issued ≤ now) (early : now < 2147483648) :
    TtlLive (BitVec.ofNat 32 issued + adminNonceTtlMs) (.ofNat 32 now) ↔ now < issued + 60000 := by
  have ttl : adminNonceTtlMs.toNat = 60000 := rfl
  have apart : (BitVec.ofNat 32 issued + adminNonceTtlMs - BitVec.ofNat 32 now).toNat =
      (issued + 60000 + 4294967296 - now) % 4294967296 := by
    rw [BitVec.toNat_sub, BitVec.toNat_add, BitVec.toNat_ofNat, BitVec.toNat_ofNat, ttl]
    omega
  rw [TtlLive, BitVec.toInt_eq_toNat_cond, apart]
  split <;> omega

theorem liveSlot_some {now : Millis} {nonce : String} {nonces : List AdminNonce} {i : Nat}
    (found : liveSlot now nonce nonces = some i) :
    ∃ n, nonces[i]? = some n ∧ n ∈ nonces ∧ n.nonce = nonce ∧ nonce ≠ "" ∧ TtlLive n.expiresMs now := by
  obtain ⟨inside, holds, -⟩ := List.findIdx?_eq_some_iff_getElem.mp found
  obtain ⟨named, own, live⟩ := of_decide_eq_true holds
  exact ⟨nonces[i], List.getElem?_eq_getElem inside, List.getElem_mem inside, own, own ▸ named, live⟩

/-- No two slots hold one nonce. -/
def Apart (nonces : List AdminNonce) : Prop := nonces.Pairwise fun n other => n.nonce ≠ "" → n.nonce ≠ other.nonce

theorem apart_set {nonces : List AdminNonce} {n : AdminNonce} (apart : Apart nonces)
    (new : n.nonce ≠ "" → ∀ other ∈ nonces, other.nonce ≠ n.nonce) (i : Nat) : Apart (nonces.set i n) := by
  induction nonces generalizing i with
  | nil => exact apart
  | cons first rest ih =>
    obtain ⟨ahead, apartRest⟩ := List.pairwise_cons.mp apart
    have newRest : n.nonce ≠ "" → ∀ other ∈ rest, other.nonce ≠ n.nonce :=
      fun named other inside => new named other (List.mem_cons_of_mem _ inside)
    cases i with
    | zero => exact List.pairwise_cons.mpr ⟨fun other inside named => (newRest named other inside).symm, apartRest⟩
    | succ i =>
      refine List.pairwise_cons.mpr ⟨fun other inside named => ?_, ih apartRest newRest i⟩
      rcases List.mem_or_eq_of_mem_set inside with there | rfl
      · exact ahead other there named
      · intro same
        exact new (same ▸ named) first List.mem_cons_self same

/-- A nonce that was taken out of its slot is in none. -/
theorem taken_out {nonces : List AdminNonce} {n : AdminNonce} {i : Nat} (apart : Apart nonces) (held : nonces[i]? = some n)
    (named : n.nonce ≠ "") : ∀ other ∈ nonces.set i {}, other.nonce ≠ n.nonce := by
  induction nonces generalizing i with
  | nil => nofun
  | cons first rest ih =>
    obtain ⟨ahead, apartRest⟩ := List.pairwise_cons.mp apart
    cases i with
    | zero =>
      obtain rfl := Option.some.inj held
      exact List.forall_mem_cons.mpr ⟨named.symm, fun other inside => (ahead other inside named).symm⟩
    | succ i =>
      refine List.forall_mem_cons.mpr ⟨fun same => ?_, ih apartRest held⟩
      exact ahead n (List.mem_of_getElem? held) (same ▸ named) same

/-! ## One request -/

section
variable {sha256Hex : String → String} {adminPassword : String} {s : Admin} {events : List Event} {e : Event}

/-- What a request does to the slots: a challenge fills one, and a login empties the one
    of the nonce that decides it. -/
theorem serve_cases (sha256Hex : String → String) (adminPassword : String) (s : Admin) (e : Event) :
    (∃ now random i, e = .challenge now random ∧ decidedBy s e = none ∧
      (serve sha256Hex adminPassword s e).1.nonces =
        s.nonces.set i { nonce := randomHex random, expiresMs := .ofNat 32 now + adminNonceTtlMs }) ∨
    (∃ now ip credentials i, e = .login now ip (some credentials) ∧ decidedBy s e = some credentials.nonce ∧
      liveSlot (.ofNat 32 now) credentials.nonce s.nonces = some i ∧
      (serve sha256Hex adminPassword s e).1.nonces = s.nonces.set i {}) ∨
    e.issued = none ∧ decidedBy s e = none ∧ (serve sha256Hex adminPassword s e).1.nonces = s.nonces := by
  cases e with
  | challenge now random => exact .inl ⟨now, random, _, rfl, rfl, rfl⟩
  | login now ip body =>
    by_cases slow : throttled ip (.ofNat 32 now) s.fails
    · exact .inr (.inr ⟨rfl, by simp [decidedBy, slow], by simp [serve, handleAdminLogin, slow]⟩)
    · cases body with
      | none => exact .inr (.inr ⟨rfl, by simp [decidedBy], by simp [serve, handleAdminLogin, slow]⟩)
      | some credentials =>
        cases found : liveSlot (.ofNat 32 now) credentials.nonce s.nonces with
        | none =>
          exact .inr (.inr ⟨rfl, by simp [decidedBy, slow, found], by simp [serve, handleAdminLogin, slow, found, refuse]⟩)
        | some i =>
          refine .inr (.inl ⟨now, ip, credentials, i, rfl, by simp [decidedBy, slow, found], found, ?_⟩)
          rw [serve, handleAdminLogin, if_neg slow]
          simp only [found]
          split
          · rfl
          · rfl

/-- A login succeeds only when a nonce decides it, and by the right digest. -/
theorem login_ok {now : Nat} {ip : BitVec 32} {body : Option Credentials}
    (ok : (serve sha256Hex adminPassword s (.login now ip body)).2.status = 200) :
    ∃ credentials i, body = some credentials ∧ DigestOk sha256Hex adminPassword credentials ∧
      liveSlot (.ofNat 32 now) credentials.nonce s.nonces = some i := by
  simp only [serve, handleAdminLogin] at ok
  split at ok
  · cases ok
  · split at ok
    · cases ok
    · next credentials =>
      split at ok
      · cases ok
      · next i found =>
        split at ok
        · next digestOk => exact ⟨credentials, i, rfl, digestOk, found⟩
        · cases ok

/-! ## Runs of requests -/

theorem served_snoc : served sha256Hex adminPassword (events ++ [e]) =
    (serve sha256Hex adminPassword (served sha256Hex adminPassword events) e).1 := by
  simp [served]

theorem decisions_append (s : Admin) (events later : List Event) :
    decisions sha256Hex adminPassword s (events ++ later) = decisions sha256Hex adminPassword s events ++
      decisions sha256Hex adminPassword (events.foldl (fun s e => (serve sha256Hex adminPassword s e).1) s) later := by
  induction events generalizing s with
  | nil => rfl
  | cons e rest ih => simp only [List.cons_append, decisions, List.foldl_cons, ih, List.append_assoc]

theorem decisions_snoc : decisions sha256Hex adminPassword boot (events ++ [e]) =
    decisions sha256Hex adminPassword boot events ++ (decidedBy (served sha256Hex adminPassword events) e).toList := by
  rw [decisions_append]
  simp [decisions, served]

/-- The slots hold nonces that were issued and have decided no login yet, and only issued
    nonces decide any. -/
structure Sound (sha256Hex : String → String) (adminPassword : String) (events : List Event) (s : Admin) : Prop where
  issued : ∀ n ∈ s.nonces, n.nonce ≠ "" →
    ∃ now, IssuedAt events now n.nonce ∧ n.expiresMs = .ofNat 32 now + adminNonceTtlMs
  apart : Apart s.nonces
  unused : ∀ n ∈ s.nonces, n.nonce ≠ "" → n.nonce ∉ decisions sha256Hex adminPassword boot events
  past : ∀ nonce ∈ decisions sha256Hex adminPassword boot events, nonce ∈ events.filterMap Event.issued
  once : (decisions sha256Hex adminPassword boot events).Nodup

theorem Orderly.prefix (orderly : Orderly (events ++ [e])) : Orderly events where
  nondecreasing := (List.pairwise_append.mp orderly.nondecreasing).1
  early other inside := orderly.early other (List.mem_append_left _ inside)
  distinct := by
    have distinct := orderly.distinct
    rw [List.filterMap_append] at distinct
    exact distinct.of_append_left

theorem sound_boot : Sound sha256Hex adminPassword [] boot where
  issued n inside named := absurd (congrArg AdminNonce.nonce (List.eq_of_mem_replicate inside)) named
  apart := by
    refine List.pairwise_replicate.mpr (.inr ?_)
    exact fun named => absurd rfl named
  unused _ _ _ := List.not_mem_nil
  past := nofun
  once := .nil

/-- A new nonce has not been issued before. -/
theorem fresh_nonce {now : Nat} {random : Vector (BitVec 8) 16} (orderly : Orderly (events ++ [.challenge now random])) :
    randomHex random ∉ events.filterMap Event.issued := by
  have distinct := orderly.distinct
  rw [List.filterMap_append] at distinct
  intro before
  exact (List.nodup_append.mp distinct).2.2 _ before _ (List.mem_singleton.mpr rfl) rfl

theorem issued_mem {now : Nat} {nonce : String} (issued : IssuedAt events now nonce) :
    nonce ∈ events.filterMap Event.issued := by
  obtain ⟨random, inside, rfl⟩ := issued
  exact List.mem_filterMap.mpr ⟨_, inside, rfl⟩

theorem IssuedAt.later {now : Nat} {nonce : String} (issued : IssuedAt events now nonce) (later : List Event) :
    IssuedAt (events ++ later) now nonce := by
  obtain ⟨random, inside, own⟩ := issued
  exact ⟨random, List.mem_append_left _ inside, own⟩

theorem Sound.issued_later {s : Admin} (sound : Sound sha256Hex adminPassword events s) (e : Event) {n : AdminNonce}
    (inside : n ∈ s.nonces) (named : n.nonce ≠ "") :
    ∃ now, IssuedAt (events ++ [e]) now n.nonce ∧ n.expiresMs = .ofNat 32 now + adminNonceTtlMs := by
  obtain ⟨now, issued, expires⟩ := sound.issued n inside named
  exact ⟨now, issued.later [e], expires⟩

theorem Sound.past_later {s : Admin} (sound : Sound sha256Hex adminPassword events s) (e : Event) {nonce : String}
    (decided : nonce ∈ decisions sha256Hex adminPassword boot events) :
    nonce ∈ (events ++ [e]).filterMap Event.issued := by
  rw [List.filterMap_append]
  exact List.mem_append_left _ (sound.past nonce decided)

/-- A challenge fills a slot with a nonce that is new. -/
theorem Sound.filled {s next : Admin} {now i : Nat} {random : Vector (BitVec 8) 16}
    (sound : Sound sha256Hex adminPassword events s) (orderly : Orderly (events ++ [.challenge now random]))
    (same : decisions sha256Hex adminPassword boot (events ++ [.challenge now random]) =
      decisions sha256Hex adminPassword boot events)
    (slots : next.nonces = s.nonces.set i { nonce := randomHex random, expiresMs := .ofNat 32 now + adminNonceTtlMs }) :
    Sound sha256Hex adminPassword (events ++ [.challenge now random]) next := by
  have fresh := fresh_nonce orderly
  have unheld : ∀ n ∈ s.nonces, randomHex random ≠ "" → n.nonce ≠ randomHex random := by
    intro n inside named own
    obtain ⟨before, issued, -⟩ := sound.issued n inside (own ▸ named)
    exact fresh (own ▸ issued_mem issued)
  constructor
  · rw [slots]
    intro n inside named
    rcases List.mem_or_eq_of_mem_set inside with there | rfl
    · exact sound.issued_later _ there named
    · exact ⟨now, ⟨random, List.mem_append_right _ List.mem_cons_self, rfl⟩, rfl⟩
  · rw [slots]
    exact apart_set sound.apart (fun named n inside => unheld n inside named) i
  · rw [slots, same]
    intro n inside named
    rcases List.mem_or_eq_of_mem_set inside with there | rfl
    · exact sound.unused n there named
    · exact fun decided => fresh (sound.past _ decided)
  · rw [same]
    exact fun nonce => sound.past_later _
  · rw [same]
    exact sound.once

/-- A login takes the nonce that it names out of its slot, and no other slot has it. -/
theorem Sound.taken {s next : Admin} {now : Millis} {nonce : String} {i : Nat}
    (sound : Sound sha256Hex adminPassword events s) (found : liveSlot now nonce s.nonces = some i)
    (longer : decisions sha256Hex adminPassword boot (events ++ [e]) =
      decisions sha256Hex adminPassword boot events ++ [nonce])
    (slots : next.nonces = s.nonces.set i {}) : Sound sha256Hex adminPassword (events ++ [e]) next := by
  obtain ⟨taken, held, there, rfl, named, -⟩ := liveSlot_some found
  have unused := sound.unused taken there named
  constructor
  · rw [slots]
    intro n inside known
    rcases List.mem_or_eq_of_mem_set inside with there | rfl
    · exact sound.issued_later e there known
    · exact absurd rfl known
  · rw [slots]
    exact apart_set sound.apart (fun known => absurd rfl known) i
  · rw [slots, longer]
    intro n inside known again
    rcases List.mem_append.mp again with before | now
    · rcases List.mem_or_eq_of_mem_set inside with there | rfl
      · exact sound.unused n there known before
      · exact known rfl
    · exact taken_out sound.apart held named n inside (List.mem_singleton.mp now)
  · rw [longer]
    intro nonce inside
    rcases List.mem_append.mp inside with before | now
    · exact sound.past_later e before
    · obtain rfl := List.mem_singleton.mp now
      obtain ⟨when, challenged, -⟩ := sound.issued_later e there named
      exact issued_mem challenged
  · rw [longer]
    refine List.nodup_append.mpr ⟨sound.once, List.nodup_singleton _, ?_⟩
    intro nonce before other now same
    exact unused (List.mem_singleton.mp now ▸ same ▸ before)

/-- Another request leaves the slots as they are. -/
theorem Sound.kept {s next : Admin} (sound : Sound sha256Hex adminPassword events s)
    (same : decisions sha256Hex adminPassword boot (events ++ [e]) = decisions sha256Hex adminPassword boot events)
    (slots : next.nonces = s.nonces) : Sound sha256Hex adminPassword (events ++ [e]) next := by
  constructor
  · rw [slots]
    exact fun n => sound.issued_later e
  · rw [slots]
    exact sound.apart
  · rw [slots, same]
    exact sound.unused
  · rw [same]
    exact fun nonce => sound.past_later e
  · rw [same]
    exact sound.once

theorem sound_step (orderly : Orderly (events ++ [e])) {s : Admin} (isServed : s = served sha256Hex adminPassword events)
    (sound : Sound sha256Hex adminPassword events s) :
    Sound sha256Hex adminPassword (events ++ [e]) (serve sha256Hex adminPassword s e).1 := by
  have decided := @decisions_snoc sha256Hex adminPassword events e
  rw [← isServed] at decided
  rcases serve_cases sha256Hex adminPassword s e with
    ⟨now, random, i, rfl, none_, slots⟩ | ⟨now, ip, credentials, i, rfl, some_, found, slots⟩ | ⟨-, none_, slots⟩
  · rw [none_] at decided
    exact sound.filled orderly (decided.trans (List.append_nil _)) slots
  · rw [some_] at decided
    exact sound.taken found decided slots
  · rw [none_] at decided
    exact sound.kept (decided.trans (List.append_nil _)) slots

theorem sound_served (orderly : Orderly events) :
    Sound sha256Hex adminPassword events (served sha256Hex adminPassword events) := by
  induction events using List.reverseRecOn with
  | nil => exact sound_boot
  | append_singleton before e ih =>
    rw [served_snoc]
    exact sound_step orderly rfl (ih orderly.prefix)

theorem orderly_before {before after : List Event} (orderly : Orderly (before ++ after)) : Orderly before := by
  induction after using List.reverseRecOn with
  | nil => rwa [List.append_nil] at orderly
  | append_singleton between e ih =>
    rw [← List.append_assoc] at orderly
    exact ih orderly.prefix

/-- A nonce that can be used was issued less than a minute ago. -/
theorem issued_before {before after : List Event} {now : Nat} {ip : BitVec 32} {body : Option Credentials} {nonce : String}
    {i : Nat} (orderly : Orderly (before ++ .login now ip body :: after))
    (found : liveSlot (.ofNat 32 now) nonce (served sha256Hex adminPassword before).nonces = some i) :
    ∃ issued, IssuedAt before issued nonce ∧ issued ≤ now ∧ now < issued + 60000 := by
  obtain ⟨n, -, there, own, named, live⟩ := liveSlot_some found
  obtain ⟨issued, ⟨random, challenged, made⟩, expires⟩ :=
    (sound_served (orderly_before orderly)).issued n there (own ▸ named)
  have order : issued ≤ now :=
    (List.pairwise_append.mp orderly.nondecreasing).2.2 _ challenged _ List.mem_cons_self
  have early : now < 2147483648 := orderly.early (.login now ip body) (List.mem_append_right _ List.mem_cons_self)
  rw [expires, ttlLive_iff order early] at live
  exact ⟨issued, ⟨random, challenged, made.trans own⟩, order, live⟩

/-- Every nonce decides one login at most, and a login succeeds only with the digest over
    a nonce that was issued less than a minute ago and has decided no login before. -/
theorem nonces_single_use (sha256Hex : String → String) (adminPassword : String) {events : List Event}
    (orderly : Orderly events) :
    (decisions sha256Hex adminPassword boot events).Nodup ∧
      ∀ before now ip body after, events = before ++ .login now ip body :: after →
        (handleAdminLogin sha256Hex adminPassword (.ofNat 32 now) ip body (served sha256Hex adminPassword before)).2.status =
          200 →
        ∃ credentials, body = some credentials ∧
          credentials.digest = sha256Hex (credentials.nonce ++ ":" ++ adminPassword) ∧
          (∃ issued, IssuedAt before issued credentials.nonce ∧ issued ≤ now ∧ now < issued + 60000) ∧
          credentials.nonce ∉ decisions sha256Hex adminPassword boot before := by
  refine ⟨(sound_served orderly).once, ?_⟩
  rintro before now ip body after rfl ok
  obtain ⟨credentials, i, rfl, digestOk, found⟩ := login_ok ok
  obtain ⟨n, -, there, own, named, -⟩ := liveSlot_some found
  have unused := (sound_served (orderly_before orderly)).unused n there (own ▸ named)
  rw [own] at unused
  exact ⟨credentials, rfl, digestOk.2, issued_before orderly found, unused⟩

end

/-! ## A challenge and a login -/

def zeros : Vector (BitVec 8) 16 := Vector.replicate 16 0

def zeroDigest : String := String.ofList (List.replicate 64 '0')

def zeroLogin : Event := .login 2000 1 (some { nonce := randomHex zeros, digest := zeroDigest })

theorem zero_orderly : Orderly [.challenge 1000 zeros, zeroLogin] where
  nondecreasing := List.pairwise_pair.mpr (by decide)
  early := List.forall_mem_cons.mpr ⟨by decide, List.forall_mem_singleton.mpr (by decide)⟩
  distinct := List.nodup_singleton _

theorem nonces_single_use_login :
    (serve (fun _ => zeroDigest) "" (served (fun _ => zeroDigest) "" [.challenge 1000 zeros]) zeroLogin).2.status = 200 ∧
      ∃ issued, IssuedAt [.challenge 1000 zeros] issued (randomHex zeros) ∧ issued ≤ 2000 ∧ 2000 < issued + 60000 := by
  have ok : (serve (fun _ => zeroDigest) "" (served (fun _ => zeroDigest) "" [.challenge 1000 zeros]) zeroLogin).2.status =
      200 := by decide +kernel
  obtain ⟨credentials, same, -, issued, -⟩ :=
    (nonces_single_use (fun _ => zeroDigest) "" zero_orderly).2 [.challenge 1000 zeros] 2000 1 _ [] rfl ok
  cases same
  exact ⟨ok, issued⟩

end EllaFi.LoginNonces
