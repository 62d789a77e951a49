import EllaFi.Network
import EllaFi.Runs
import Mathlib.Data.List.Dedup

/-!
The coins that a master passes on from its slaves' packets, in whatever order, however
often and however late they arrive. A packet is fresh for no longer than twice the
freshness window (`fresh_span`), and the ring holds what came since (`recalls_since`),
as long as no more than 64 packets came in such a span. So no coin is passed on twice
and none that is new is taken for a replay (`coins_credited_once`).
-/
namespace EllaFi.CoinReplay
open EllaFi.Rings EllaFi.Network
open EllaFi.Runs (run Throughout run_keeps run_cons)

/-- A datagram that arrives; a coin under a good tag is one that a slave has sent. -/
structure Arrival where
  datagram : Datagram
  authentic : datagram.tagged → datagram.type = some .coinInserted → ∃ mac : Mac, datagram.body = coinInsertedBody mac

def Arrival.coin (mac : Mac) (ts : Nat) : Arrival where
  datagram := slaveSendCoinInserted mac ts
  authentic _ _ := ⟨mac, rfl⟩

structure Receiver where
  /-- Milliseconds of Unix time. -/
  now : Nat
  seen : CoinSeen
  /-- The coins that were passed on, with the times when they were. -/
  passed : List (Seen × Nat)

def booted (now : Nat) : Receiver := { now, seen := emptySeen, passed := [] }

inductive Action where
  | elapse (ms : Nat)
  | arrive (arrival : Arrival)

/-- The call of `masterRecvCoinInserted`, if there is one. -/
def passedOn (received : Received) (ts now : Nat) : List (Seen × Nat) :=
  match received with
  | .coinInserted mac => [({ mac, ts }, now)]
  | _ => []

def step (s : Receiver) : Action → Option Receiver
  | .elapse ms => some { s with now := s.now + ms }
  | .arrive arrival =>
    let handled := networkLoop true s.now s.seen arrival.datagram
    some { s with seen := handled.2, passed := s.passed ++ passedOn handled.1 arrival.datagram.ts s.now }

/-- In no span of twice the freshness window more different coins are passed on than
    the ring has slots. -/
def Spaced (passed : List (Seen × Nat)) : Prop :=
  ∀ start, ((passed.filter fun entry => start ≤ entry.2 ∧ entry.2 ≤ start + 2 * netFreshWindowMs).map (·.1)).dedup.length ≤
    coinSeenN

/-- A fresh coin that was not passed on before is passed on. -/
def NewPasses (s : Receiver) (action : Action) : Prop :=
  ∀ mac ts, action = .arrive (.coin mac ts) → Fresh s.now ts → (∀ entry ∈ s.passed, entry.1 ≠ { mac := mac.chars, ts }) →
    (networkLoop true s.now s.seen (slaveSendCoinInserted mac ts)).1 = .coinInserted mac.chars

/-- The coins in the order of their times, each of a sender and fresh when it was
    passed on, and the last of them in the ring. -/
structure Orderly (s : Receiver) : Prop where
  recalls : Recalls blankSeen s.seen (s.passed.map (·.1))
  ordered : s.passed.Pairwise fun first second => first.2 ≤ second.2
  past : ∀ entry ∈ s.passed, entry.2 ≤ s.now
  fresh : ∀ entry ∈ s.passed, Fresh entry.2 entry.1.ts
  named : ∀ entry ∈ s.passed, entry.1.mac ≠ []

section
variable {s next : Receiver} {action : Action} {arrival : Arrival} {now later ts : Nat}

/-- What is fresh at two times is so within twice the window. -/
theorem fresh_span (early : Fresh now ts) (late : Fresh later ts) : later ≤ now + 2 * netFreshWindowMs := by
  unfold Fresh skew at early late
  split at early <;> split at late <;> omega

theorem spaced_prefix {passed more : List (Seen × Nat)} (spaced : Spaced (passed ++ more)) : Spaced passed := by
  intro start
  refine Nat.le_trans ?_ (spaced start)
  rw [List.filter_append, List.map_append]
  refine (List.subperm_of_subset (List.nodup_dedup _) fun coin inside => ?_).length_le
  rw [List.mem_dedup] at inside ⊢
  exact List.mem_append_left _ inside

/-- The coin of a packet under a good tag has a sender. -/
theorem arrival_named (carries : CarriesCoin now arrival.datagram) : coinInsertedMac arrival.datagram.body ≠ [] := by
  obtain ⟨tagged, -, type, -⟩ := carries
  obtain ⟨mac, body⟩ := arrival.authentic tagged type
  rw [body, mac_coinInsertedBody]
  intro empty
  have length := mac.length
  rw [empty] at length
  cases length

/-- What a packet does: nothing, or it is passed on and was not in the ring. -/
theorem arrive_some (taken : step s (.arrive arrival) = some next) :
    next = s ∨
      (CarriesCoin s.now arrival.datagram ∧
        ∃ coin : Seen, coin = { mac := coinInsertedMac arrival.datagram.body, ts := arrival.datagram.ts } ∧
          coin ∉ s.seen.slots ∧ next = { s with seen := s.seen.push coin, passed := s.passed ++ [(coin, s.now)] }) := by
  have moved : { s with
      seen := (networkLoop true s.now s.seen arrival.datagram).2
      passed := s.passed ++ passedOn (networkLoop true s.now s.seen arrival.datagram).1 arrival.datagram.ts s.now } =
        next := Option.some.inj taken
  subst moved
  by_cases carries : CarriesCoin s.now arrival.datagram
  · by_cases known : { mac := coinInsertedMac arrival.datagram.body, ts := arrival.datagram.ts } ∈ s.seen.slots
    · left
      simp [networkLoop_coin carries, known, passedOn]
    · refine .inr ⟨carries, _, rfl, known, ?_⟩
      simp [networkLoop_coin carries, known, passedOn]
  · left
    obtain ⟨same, other⟩ := @networkLoop_other s.now s.seen arrival.datagram carries
    have none_ : passedOn (networkLoop true s.now s.seen arrival.datagram).1 arrival.datagram.ts s.now = [] := by
      unfold passedOn
      split
      · next mac coin => exact absurd coin (other mac)
      · rfl
    simp [same, none_]

theorem step_orderly (orderly : Orderly s) (taken : step s action = some next) : Orderly next := by
  cases action with
  | elapse ms =>
    cases taken
    exact { orderly with past := fun entry inside => Nat.le_trans (orderly.past entry inside) (Nat.le_add_right _ _) }
  | arrive arrival =>
    rcases arrive_some taken with rfl | ⟨carries, coin, rfl, -, rfl⟩
    · exact orderly
    · refine ⟨?_, ?_, ?_, ?_, ?_⟩
      · rw [List.map_append]
        exact recalls_push orderly.recalls _
      · refine List.pairwise_append.mpr ⟨orderly.ordered, List.pairwise_singleton _ _, fun entry inside other last => ?_⟩
        rw [List.mem_singleton.mp last]
        exact orderly.past entry inside
      · intro entry inside
        rcases List.mem_append.mp inside with before | last
        · exact orderly.past entry before
        · rw [List.mem_singleton.mp last]
      · intro entry inside
        rcases List.mem_append.mp inside with before | last
        · exact orderly.fresh entry before
        · rw [List.mem_singleton.mp last]
          exact carries.2.1
      · intro entry inside
        rcases List.mem_append.mp inside with before | last
        · exact orderly.named entry before
        · rw [List.mem_singleton.mp last]
          exact arrival_named carries

/-- A coin that was passed on is in the ring as long as its packet is fresh. -/
theorem passed_in_ring (orderly : Orderly s) (spaced : Spaced s.passed) (once : (s.passed.map (·.1)).Nodup) {coin : Seen}
    {time : Nat} (passed : (coin, time) ∈ s.passed) (fresh : Fresh s.now coin.ts) : coin ∈ s.seen.slots := by
  refine recalls_since orderly.recalls orderly.ordered ?_ passed
  have span := fresh_span (orderly.fresh _ passed) fresh
  have within : s.passed.filter (fun entry => time ≤ entry.2 ∧ entry.2 ≤ time + 2 * netFreshWindowMs) =
      s.passed.filter fun entry => time ≤ entry.2 := by
    refine List.filter_congr fun entry inside => ?_
    have past := orderly.past entry inside
    simp only [decide_eq_decide, and_iff_left_iff_imp]
    intro _
    omega
  have few := spaced time
  rw [within, List.dedup_eq_self.mpr (once.sublist (List.filter_sublist.map _)), List.length_map] at few
  exact few

theorem step_once (orderly : Orderly s) (once : Spaced s.passed → (s.passed.map (·.1)).Nodup)
    (taken : step s action = some next) (spaced : Spaced next.passed) : (next.passed.map (·.1)).Nodup := by
  cases action with
  | elapse ms =>
    cases taken
    exact once spaced
  | arrive arrival =>
    rcases arrive_some taken with rfl | ⟨carries, coin, rfl, unknown, rfl⟩
    · exact once spaced
    · have before := spaced_prefix spaced
      simp only [List.map_append, List.map_cons, List.map_nil]
      refine List.nodup_append.mpr ⟨once before, List.nodup_singleton _, ?_⟩
      rintro coin passed other isLast rfl
      obtain ⟨⟨same, time⟩, inside, rfl⟩ := List.mem_map.mp passed
      obtain rfl := List.mem_singleton.mp isLast
      exact unknown (passed_in_ring orderly before (once before) inside carries.2.1)

theorem new_passes (orderly : Orderly s) (action : Action) : NewPasses s action := by
  rintro mac ts rfl fresh unseen
  have carries : CarriesCoin s.now (slaveSendCoinInserted mac ts) :=
    ⟨rfl, fresh, rfl, by simp [slaveSendCoinInserted, coinInsertedBody, mac.length, coinInsertedBodySize]⟩
  have unknown : { mac := mac.chars, ts } ∉ s.seen.slots := by
    intro inside
    rcases recalls_mem orderly.recalls inside with isBlank | passed
    · have empty : mac.chars = [] := congrArg Seen.mac isBlank
      have length := mac.length
      rw [empty] at length
      cases length
    · obtain ⟨entry, there, same⟩ := List.mem_map.mp passed
      exact unseen entry there same
  rw [networkLoop_coin carries]
  simp [slaveSendCoinInserted, mac_coinInsertedBody, unknown]

theorem booted_orderly (now : Nat) : Orderly (booted now) where
  recalls := recalls_blank _ _
  ordered := List.Pairwise.nil
  past _ inside := absurd inside List.not_mem_nil
  fresh _ inside := absurd inside List.not_mem_nil
  named _ inside := absurd inside List.not_mem_nil

theorem new_passes_throughout (orderly : Orderly s) (actions : List Action) : Throughout step NewPasses s actions := by
  induction actions generalizing s with
  | nil => trivial
  | cons action rest ih => exact ⟨new_passes orderly action, fun next taken => ih (step_orderly orderly taken)⟩

/-- In every run from a boot, every coin is passed on at most once, if no span of
    twice the freshness window has more than 64 of them, and every fresh coin that was
    not passed on before is. -/
theorem coins_credited_once {now : Nat} {actions : List Action} {last : Receiver}
    (ran : run step (booted now) actions = some last) (spaced : Spaced last.passed) :
    (last.passed.map (·.1)).Nodup ∧ Throughout step NewPasses (booted now) actions := by
  have invariant : Orderly last ∧ (Spaced last.passed → (last.passed.map (·.1)).Nodup) := by
    refine @run_keeps _ _ step (fun s => Orderly s ∧ (Spaced s.passed → (s.passed.map (·.1)).Nodup)) ?_ _ _ _
      ⟨booted_orderly now, fun _ => List.nodup_nil⟩ ran
    rintro s action next ⟨orderly, once⟩ taken
    exact ⟨step_orderly orderly taken, step_once orderly once taken⟩
  exact ⟨invariant.2 spaced, new_passes_throughout (booted_orderly now) actions⟩

end

/-! ## A packet that arrives twice -/

/-- DE:AD:BE:EF:00:01 -/
def testMac : Mac where
  chars := [68, 69, 58, 65, 68, 58, 66, 69, 58, 69, 70, 58, 48, 48, 58, 48, 49]
  length := by decide
  text := by decide

def twice : List Action :=
  [.arrive (.coin testMac 1700000000100), .elapse 200, .arrive (.coin testMac 1700000000100)]

def creditedOnce : Receiver where
  now := 1700000000300
  seen := emptySeen.push { mac := testMac.chars, ts := 1700000000100 }
  passed := [({ mac := testMac.chars, ts := 1700000000100 }, 1700000000100)]

theorem coins_credited_once_twice :
    (creditedOnce.passed.map (·.1)).Nodup ∧ Throughout step NewPasses (booted 1700000000100) twice := by
  refine coins_credited_once (by rfl) fun start => ?_
  refine Nat.le_trans ((List.dedup_sublist _).length_le) ?_
  rw [List.length_map]
  exact Nat.le_trans (List.length_filter_le _ _) (by decide)

end EllaFi.CoinReplay
