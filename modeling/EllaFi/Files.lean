import EllaFi.Session
import Mathlib.Logic.Function.Basic

/-!
The files of the firmware that money and time depend on: one file for each paused
session, and the logs of sales, refunds and activity. Opening a file can fail;
a log line is then dropped, and a pause is refused.
-/
namespace EllaFi.Files
open Function (update)

/-- A line of `/vendo_history.json`. -/
structure Sale where
  ts : Nat
  coins : Nat
  min : Nat
  node : String
deriving DecidableEq, Repr

/-- A line of `/refunds.log`. -/
structure Refund where
  ts : Nat
  mac : String
  coins : Nat
  minutes : Nat
  code : String
deriving DecidableEq, Repr

/-- A line of `/activity.log`. -/
structure Activity where
  ts : Nat
  action : String
  mac : String
  coins : Option Nat
  remain : Option Int
deriving DecidableEq, Repr

structure Flash where
  /-- The paused sessions by path, each an `unsigned long` of 32 bits. -/
  pausedSessions : String → Option Nat
  sales : List Sale
  refunds : List Refund
  activity : List Activity

def Flash.empty : Flash where
  pausedSessions _ := none
  sales := []
  refunds := []
  activity := []

/-! ## Paused sessions -/

def macToFilename (mac : String) : String :=
  "/pause_" ++ String.ofList (mac.toList.filter (· ≠ ':')) ++ ".dat"

section
variable (flash : Flash) (mac : String)

/-- `none` when the file cannot be opened. -/
def savePausedSessionFile (opens : Bool) (remainingMillis : Nat) : Option Flash :=
  if opens then
    some { flash with pausedSessions := update flash.pausedSessions (macToFilename mac) (some remainingMillis) }
  else none

def hasPausedSessionFile : Bool := (flash.pausedSessions (macToFilename mac)).isSome

def loadPausedSessionFile (opens : Bool) : Nat :=
  if opens then (flash.pausedSessions (macToFilename mac)).getD 0 else 0

def deletePausedSessionFile : Flash :=
  { flash with pausedSessions := update flash.pausedSessions (macToFilename mac) none }

end

/-! ## Logs -/

section
variable (flash : Flash) (clock : Nat) (opens : Bool)

def appendRefundLog (mac : String) (coins minutes : Nat) (code : String) : Flash :=
  if opens then { flash with refunds := flash.refunds ++ [{ ts := clock / 1000, mac, coins, minutes, code }] }
  else flash

def appendSaleLog (coins minutes : Nat) (nodeMac : String) : Flash :=
  if opens then
    { flash with sales := flash.sales ++ [{ ts := clock / 1000, coins, min := minutes, node := nodeMac }] }
  else flash

def appendActivityLog (action mac : String) (coins : Nat) (remainingMin : Int) : Flash :=
  if opens then
    { flash with activity := flash.activity ++
      [{ ts := clock / 1000, action, mac,
         coins := if coins = 0 then none else some coins,
         remain := if 0 ≤ remainingMin then some remainingMin else none }] }
  else flash

end

def refundCodeChars : List Char := "ABCDEFGHJKLMNPQRSTUVWXYZ23456789".toList

/-- Six characters, each drawn by a random number. -/
def generateRefundCode (random : Nat → Nat) : String :=
  String.ofList ((List.range 6).map fun i => refundCodeChars.getD (random i % refundCodeChars.length) 'A')

section
variable (flash : Flash) (clock : Nat) (opens : Bool)

@[simp] theorem appendActivityLog_sales (action mac : String) (coins : Nat) (remainingMin : Int) :
    (appendActivityLog flash clock opens action mac coins remainingMin).sales = flash.sales := by
  unfold appendActivityLog; split <;> rfl

@[simp] theorem appendActivityLog_refunds (action mac : String) (coins : Nat) (remainingMin : Int) :
    (appendActivityLog flash clock opens action mac coins remainingMin).refunds = flash.refunds := by
  unfold appendActivityLog; split <;> rfl

@[simp] theorem appendActivityLog_pausedSessions (action mac : String) (coins : Nat) (remainingMin : Int) :
    (appendActivityLog flash clock opens action mac coins remainingMin).pausedSessions = flash.pausedSessions := by
  unfold appendActivityLog; split <;> rfl

@[simp] theorem appendSaleLog_refunds (coins minutes : Nat) (nodeMac : String) :
    (appendSaleLog flash clock opens coins minutes nodeMac).refunds = flash.refunds := by
  unfold appendSaleLog; split <;> rfl

@[simp] theorem appendSaleLog_pausedSessions (coins minutes : Nat) (nodeMac : String) :
    (appendSaleLog flash clock opens coins minutes nodeMac).pausedSessions = flash.pausedSessions := by
  unfold appendSaleLog; split <;> rfl

@[simp] theorem appendRefundLog_sales (mac : String) (coins minutes : Nat) (code : String) :
    (appendRefundLog flash clock opens mac coins minutes code).sales = flash.sales := by
  unfold appendRefundLog; split <;> rfl

@[simp] theorem appendRefundLog_pausedSessions (mac : String) (coins minutes : Nat) (code : String) :
    (appendRefundLog flash clock opens mac coins minutes code).pausedSessions = flash.pausedSessions := by
  unfold appendRefundLog; split <;> rfl

end

end EllaFi.Files
