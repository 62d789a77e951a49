import EllaFi.Session
import Mathlib.Algebra.Order.Ring.Nat

/-!
What the coin tasks hand to one another: the events of the session queue, the
slot that binds a window to an address and a socket, and the coins of a window.
A tally is built one coin at a time, so its nodes always add up to its count
(`Tally.coin`).
-/
namespace EllaFi.Coins
open EllaFi.Session

/-! ## Events and the slot -/

/-- What fits into a character array of `size + 1` bytes. -/
def truncated (size : Nat) (text : String) : String := String.ofList (text.toList.take size)

inductive CoinSessionEvent where
  | start (socketFd : Int) (clientIp : String)
  | coin (mac : String)
  | fraudEnd
deriving DecidableEq, Repr

def startEvent (socketFd : Int) (clientIp : String) : CoinSessionEvent := .start socketFd (truncated 15 clientIp)

def coinEvent (mac : String) : CoinSessionEvent := .coin (truncated 17 mac)

structure CoinSessionSlot where
  clientIpV4 : UInt32
  socketFd : Int
deriving DecidableEq, Repr

def noClient : CoinSessionSlot := { clientIpV4 := 0, socketFd := -1 }

/-- The slot that a dequeued START stores. -/
def slotOf (address : IPAddress) (socketFd : Int) (clientIp : String) : CoinSessionSlot :=
  { clientIpV4 := coinIpToU32 address clientIp, socketFd }

/-! ## Tallies -/

/-- `nodeCounts[mac]++`, in the order of the keys. -/
def increment (mac : String) : List (String × Nat) → List (String × Nat)
  | [] => [(mac, 1)]
  | (node, count) :: rest =>
    if node = mac then (node, count + 1) :: rest
    else if mac < node then (mac, 1) :: (node, count) :: rest
    else (node, count) :: increment mac rest

theorem increment_sum (mac : String) (nodes : List (String × Nat)) :
    ((increment mac nodes).map (·.2)).sum = (nodes.map (·.2)).sum + 1 := by
  induction nodes with
  | nil => rfl
  | cons node rest ih =>
    simp only [increment]
    split
    · simp only [List.map_cons, List.sum_cons]; omega
    · split
      · simp only [List.map_cons, List.sum_cons]; omega
      · simp only [List.map_cons, List.sum_cons, ih]; omega

theorem increment_pos {mac : String} {nodes : List (String × Nat)} (positive : ∀ node ∈ nodes, 0 < node.2) :
    ∀ node ∈ increment mac nodes, 0 < node.2 := by
  induction nodes with
  | nil => simp [increment]
  | cons first rest ih =>
    obtain ⟨head, tail⟩ := List.forall_mem_cons.mp positive
    simp only [increment]
    split
    · exact List.forall_mem_cons.mpr ⟨Nat.succ_pos _, tail⟩
    · split
      · exact List.forall_mem_cons.mpr ⟨Nat.one_pos, positive⟩
      · exact List.forall_mem_cons.mpr ⟨head, ih tail⟩

/-- `COIN_COUNT` of a window, and how many of its coins each node took. -/
structure Tally where
  coinCount : Nat
  nodeCounts : List (String × Nat)
  complete : (nodeCounts.map (·.2)).sum = coinCount
  positive : ∀ node ∈ nodeCounts, 0 < node.2

def Tally.zero : Tally where
  coinCount := 0
  nodeCounts := []
  complete := rfl
  positive := nofun

def Tally.coin (tally : Tally) (mac : String) : Tally where
  coinCount := tally.coinCount + 1
  nodeCounts := increment mac tally.nodeCounts
  complete := by rw [increment_sum, tally.complete]
  positive := increment_pos tally.positive

/-- The tally of a window in which these nodes took coins, in order. -/
def tallyOf (macs : List String) : Tally := macs.foldl Tally.coin .zero

end EllaFi.Coins
