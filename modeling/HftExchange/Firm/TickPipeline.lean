import HftExchange.Firm.ExecutionEngine
import HftExchange.Firm.Signals

set_option autoImplicit false

namespace HftExchange

open Base

def itchMessageSize : Nat := 34

def ItchMessage.decode (raw : Bytes) : ItchMessage :=
  { msgType := raw.getD 0 0
    stockLocate := littleEndian ((raw.drop 1).take 2)
    internalId := littleEndian ((raw.drop 13).take 8)
    shares := littleEndian ((raw.drop 21).take 4)
    price := littleEndian ((raw.drop 25).take 8)
    side := raw.getD 33 0 }

def itchTimestamp (raw : Bytes) : Nat := littleEndian ((raw.drop 5).take 8)

def readBytes (buf : Bytes) (offset size : Nat) : Checked Bytes :=
  if offset + size ≤ buf.length then .ok ((buf.drop offset).take size) else .error .outOfBounds

-- What the thread finds each time it looks at the clock and at the members
-- that the receive thread writes.
structure Surroundings where
  tsc : Nat
  killSwitch : Bool
  currentPositions : Nat → BitVec 32

-- The members of the risk manager that belong to this thread.
structure RiskManager where
  msgCountThisSecond : Nat
  currentSecond : Nat
deriving DecidableEq, Repr

namespace RiskManager

def init : RiskManager := ⟨0, 0⟩

def maxOrderQty : Nat := 1000
def maxPosition : Int := 10000
def msgRateLimitPerSec : Nat := 5000

def underRateLimit (risk : RiskManager) (look : Surroundings) : Bool × RiskManager :=
  let nowSec := look.tsc / 3500000000
  let risk := if nowSec ≠ risk.currentSecond then ⟨0, nowSec⟩ else risk
  let count := (risk.msgCountThisSecond + 1) % 2 ^ 64
  (decide (count ≤ msgRateLimitPerSec), { risk with msgCountThisSecond := count })

-- The position is an int32_t, and so is its sum with the quantity.
def checkOrder (risk : RiskManager) (look : Surroundings) (a : NormalizedOrderAction) :
    Checked (Bool × RiskManager) :=
  if look.killSwitch then pure (false, risk)
  else if a.isCancel then pure (true, risk)
  else if maxOrderQty < a.quantity then pure (false, risk)
  else do
    let currentPos ← fetch positionInstruments look.currentPositions a.instrumentId
    let quantity := BitVec.ofNat 32 a.quantity
    if a.isBuy then
      if maxPosition < (currentPos + quantity).toInt then pure (false, risk)
      else pure (risk.underRateLimit look)
    else
      if (currentPos - quantity).toInt < -maxPosition then pure (false, risk)
      else pure (risk.underRateLimit look)

end RiskManager

inductive FirmStrategy (F : Type) where
  | maker (params : MakerParams F) (state : MarketMaker)
  | taker (params : TakerParams F) (state : Taker)

structure TickPipeline (F : Type) where
  builder : BookBuilder
  strategy : FirmStrategy F
  risk : RiskManager
  orderTracker : Nat → TrackedOrder
  sentOrders : List NormalizedOrderAction
  looks : Nat

section
variable {F : Type} (ops : FloatOps F) (around : Nat → Surroundings)

def FirmStrategy.onTick : FirmStrategy F → Input F → Checked (List NormalizedOrderAction × FirmStrategy F)
  | .maker params state, input => do
      let (actions, next) ← state.onTick ops params input
      pure (actions, .maker params next)
  | .taker params state, input => do
      let (actions, next) ← state.onTick ops params input
      pure (actions, .taker params next)

namespace TickPipeline

def init (strategy : FirmStrategy F) : TickPipeline F :=
    ⟨.init, strategy, .init, fun _ => ⟨0, false, 0, false⟩, [], 0⟩

def executeAction (p : TickPipeline F) (a : NormalizedOrderAction) : Checked (TickPipeline F) := do
  let orderTracker ←
    if a.isCancel = false ∧ a.internalOrderId < maxLiveOrders then
      store maxLiveOrders p.orderTracker a.internalOrderId ⟨a.instrumentId, a.isBuy, a.quantity, true⟩
    else pure p.orderTracker
  pure { p with orderTracker := orderTracker, sentOrders := p.sentOrders ++ [a] }

def submit (p : TickPipeline F) (a : NormalizedOrderAction) : Checked (TickPipeline F) := do
  let (safe, risk) ← p.risk.checkOrder (around p.looks) a
  let p := { p with risk := risk, looks := p.looks + 1 }
  if safe then p.executeAction a else pure p

def onTick (p : TickPipeline F) (tick : NormalizedTick) : Checked (TickPipeline F) := do
  let builder ← p.builder.processTick tick
  let snap ← builder.getSnapshot tick.instrumentId
  let (actions, strategy) ← p.strategy.onTick ops (tick, computeSignals ops snap)
  actions.foldlM (submit around) { p with builder := builder, strategy := strategy }

def onMessage (buf : Bytes) (p : TickPipeline F) (i : Nat) : Checked (TickPipeline F) := do
  let raw ← readBytes buf (i * itchMessageSize) itchMessageSize
  let tick := normalize (.decode raw) (itchTimestamp raw) (around p.looks).tsc
  { p with looks := p.looks + 1 }.onTick ops around tick

-- Bytes after the last whole message are ignored.
def onDatagram (p : TickPipeline F) (buf : Bytes) : Checked (TickPipeline F) :=
  (List.range (buf.length / itchMessageSize)).foldlM (onMessage ops around buf) p

end TickPipeline

end

end HftExchange
