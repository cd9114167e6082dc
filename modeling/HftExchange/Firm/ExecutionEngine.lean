import HftExchange.Firm.Strategy

set_option autoImplicit false

namespace HftExchange

open Base

def maxLiveOrders : Nat := 1000000
def positionInstruments : Nat := 1000

structure TrackedOrder where
  instrumentId : Nat
  isBuy : Bool
  remainingQty : Nat
  isActive : Bool
deriving DecidableEq, Repr

structure FillReport where
  orderId : Nat
  filledQty : Nat
  price : Nat
deriving DecidableEq, Repr

-- The market-data thread inside execute_action: the slot is published, the
-- counter is up, the order is not sent yet.
inductive SendPc where
  | idle
  | tracked (a : NormalizedOrderAction)
  | counted (a : NormalizedOrderAction)
deriving DecidableEq, Repr

-- The receive thread inside on_execution_report, after each of its updates of
-- shared state: the load of is_active, the position, the cash flow, the count of
-- reports, and the store that closes the order.
inductive FillPc where
  | idle
  | accepted (r : FillReport)
  | positioned (r : FillReport)
  | valued (r : FillReport)
  | acked (r : FillReport)
  | closed (r : FillReport)
deriving DecidableEq, Repr

-- The engine and the part of the risk manager that fills change. dispatched,
-- delivered and unknown are history: the orders handed to the connector, the
-- reports that were accounted for and those that met the error branch.
structure ExecutionEngine where
  orderTracker : Nat → TrackedOrder
  ordersAcked : Nat
  inFlight : Nat
  currentPositions : Nat → BitVec 32
  realizedPnl : BitVec 64
  send : SendPc
  fill : FillPc
  dispatched : List NormalizedOrderAction
  delivered : List FillReport
  unknown : List FillReport

inductive FirmLabel where
  | executeAction (a : NormalizedOrderAction)
  | sendStep
  | report (r : FillReport)
  | fillStep
deriving DecidableEq, Repr

namespace ExecutionEngine

def init : ExecutionEngine :=
  { orderTracker := fun _ => ⟨0, false, 0, false⟩
    ordersAcked := 0
    inFlight := 0
    currentPositions := fun _ => 0
    realizedPnl := 0
    send := .idle
    fill := .idle
    dispatched := []
    delivered := []
    unknown := [] }

-- Only new orders with an id inside the tracker are tracked.
def executeAction (s : ExecutionEngine) (a : NormalizedOrderAction) : ExecutionEngine :=
  match s.send with
  | .idle =>
      if a.isCancel = false ∧ a.internalOrderId < maxLiveOrders then
        { s with
          orderTracker := Function.update s.orderTracker a.internalOrderId ⟨a.instrumentId, a.isBuy,
            a.quantity, true⟩
          send := .tracked a }
      else { s with send := .counted a }
  | _ => s

def sendStep (s : ExecutionEngine) : ExecutionEngine :=
  match s.send with
  | .idle => s
  | .tracked a => { s with inFlight := (s.inFlight + 1) % 2 ^ 64, send := .counted a }
  | .counted a => { s with dispatched := s.dispatched ++ [a], send := .idle }

def onExecutionReport (s : ExecutionEngine) (r : FillReport) : ExecutionEngine :=
  match s.fill with
  | .idle =>
      if r.orderId < maxLiveOrders ∧ (s.orderTracker r.orderId).isActive = true
        then { s with fill := .accepted r }
      else { s with unknown := s.unknown ++ [r] }
  | _ => s

def signed32 (isBuy : Bool) (qty : Nat) : BitVec 32 :=
  if isBuy then BitVec.ofNat 32 qty else -BitVec.ofNat 32 qty

def notional (isBuy : Bool) (qty price : Nat) : BitVec 64 :=
  if isBuy then -(BitVec.ofNat 64 price * BitVec.ofNat 64 qty)
    else BitVec.ofNat 64 price * BitVec.ofNat 64 qty

def finish (s : ExecutionEngine) (r : FillReport) : ExecutionEngine :=
    { s with fill := .idle, delivered := s.delivered ++ [r] }

def fillStep (s : ExecutionEngine) : Checked ExecutionEngine :=
  match s.fill with
  | .idle => pure s
  | .accepted r => do
      let track := s.orderTracker r.orderId
      let position ← fetch positionInstruments s.currentPositions track.instrumentId
      let positions ← store positionInstruments s.currentPositions track.instrumentId
        (position + signed32 track.isBuy r.filledQty)
      pure { s with currentPositions := positions, fill := .positioned r }
  | .positioned r =>
      let track := s.orderTracker r.orderId
      pure { s with realizedPnl := s.realizedPnl + notional track.isBuy r.filledQty r.price,
                    fill := .valued r }
  | .valued r => pure { s with ordersAcked := (s.ordersAcked + 1) % 2 ^ 64, fill := .acked r }
  | .acked r =>
      let track := s.orderTracker r.orderId
      if track.remainingQty ≤ r.filledQty then
        pure { s with
          orderTracker := Function.update s.orderTracker r.orderId
            { track with remainingQty := 0, isActive := false }
          fill := .closed r }
      else
        pure (({ s with
          orderTracker := Function.update s.orderTracker r.orderId
            { track with remainingQty := track.remainingQty - r.filledQty } } :
          ExecutionEngine).finish r)
  | .closed r => pure
      (({ s with inFlight := (s.inFlight + (2 ^ 64 - 1)) % 2 ^ 64 } : ExecutionEngine).finish r)

end ExecutionEngine

def firmStep (s : ExecutionEngine) : FirmLabel → Checked ExecutionEngine
  | .executeAction a => pure (s.executeAction a)
  | .sendStep => pure s.sendStep
  | .report r => pure (s.onExecutionReport r)
  | .fillStep => s.fillStep

def filledQty (reports : List FillReport) (id : Nat) : Nat :=
    ((reports.filter (·.orderId = id)).map FillReport.filledQty).sum

def SendPc.order : SendPc → Option NormalizedOrderAction
  | .idle => none
  | .tracked a => some a
  | .counted a => some a

def FillPc.current : FillPc → Option FillReport
  | .idle => none
  | .accepted r | .positioned r | .valued r | .acked r | .closed r => some r

def ExecutionEngine.orders (s : ExecutionEngine) : List NormalizedOrderAction :=
    s.dispatched ++ s.send.order.toList

-- Calls come one after the other on each thread. Orders are new and have ids of
-- their own; a report is for an order that was sent, and the reports of an order
-- do not exceed its quantity.
def FirmAllowed (s : ExecutionEngine) : FirmLabel → Prop
  | .executeAction a => s.send = .idle ∧ a.isCancel = false ∧ a.internalOrderId < maxLiveOrders ∧
      a.quantity < 2 ^ 32 ∧
      ∀ o ∈ s.dispatched, o.internalOrderId ≠ a.internalOrderId
  | .report r => s.fill = .idle ∧ 1 ≤ r.filledQty ∧
      ∃ o ∈ s.dispatched, o.internalOrderId = r.orderId ∧
        filledQty s.delivered r.orderId + r.filledQty ≤ o.quantity
  | .sendStep => True
  | .fillStep => True

instance (s : ExecutionEngine) (label : FirmLabel) : Decidable (FirmAllowed s label) :=
  match label with
  | .executeAction a =>
      inferInstanceAs (Decidable (s.send = .idle ∧ a.isCancel = false ∧
      a.internalOrderId < maxLiveOrders ∧
      a.quantity < 2 ^ 32 ∧ ∀ o ∈ s.dispatched, o.internalOrderId ≠ a.internalOrderId))
  | .report r => inferInstanceAs (Decidable (s.fill = .idle ∧ 1 ≤ r.filledQty ∧
      ∃ o ∈ s.dispatched, o.internalOrderId = r.orderId ∧
        filledQty s.delivered r.orderId + r.filledQty ≤ o.quantity))
  | .sendStep => isTrue trivial
  | .fillStep => isTrue trivial

def AccountingRun : List FirmLabel → ExecutionEngine → Prop :=
  Run ExecutionEngine.init (Guarded FirmAllowed firmStep)

end HftExchange
