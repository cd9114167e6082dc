import HftExchange.Engine.Executions
import HftExchange.Firm.AccountingRun
import HftExchange.Firm.Tokens
import HftExchange.System.FillDelivery

set_option autoImplicit false

namespace HftExchange

open Base

-- A firm at the exchange: its client id, its token base as initialize checks
-- it, and its connection to the worker.
structure FirmLink where
  client : Nat
  tokenBase : Nat
  conn : Nat
  slice : tokenBase + tokenSlice ≤ connectorMaxClientOrders

-- The engines, the outbound side of the gateway's worker, and the firm behind
-- one of its connections. ops, pushed and chunks are history: the tasks of each
-- engine, what the worker did, and what recv() returned. pending are the calls
-- still to be made for the last chunk.
structure TradingLoop where
  firm : ExecutionEngine
  shards : Nat → Shard
  ops : Nat → List ShardOp
  egress : Egress
  pushed : List EgressLabel
  chunks : List Bytes
  raised : Bool
  pending : List Fill

inductive LoopLabel where
  | executeAction (a : NormalizedOrderAction)
  | sendStep
  | exchange (shard : Nat) (op : ShardOp)
  | gateway (label : EgressLabel)
  | recv (chunk : Bytes)
  | callback
  | fillStep
deriving DecidableEq, Repr

def Fill.report (fill : Fill) : FillReport := ⟨fill.orderId, fill.shares, fill.price⟩

structure Carries (tokenBase : Nat) (a : NormalizedOrderAction) (o : Order) : Prop where
  token : o.clientOrderId = orderTokenOf tokenBase a
  instrument : o.instrumentId = a.instrumentId
  side : o.side = if a.isBuy then .buy else .sell
  quantity : o.quantity = a.quantity
  price : o.price = a.price

def ownTokens (client : Nat) (ops : List ShardOp) : List Nat :=
  ops.filterMap fun op => match op with
    | .submit o => if o.clientId = client then some o.clientOrderId else none
    | .cancel _ _ => none

instance (tokenBase : Nat) (a : NormalizedOrderAction) (o : Order) : Decidable (Carries tokenBase a o) :=
  decidable_of_iff (o.clientOrderId = orderTokenOf tokenBase a ∧ o.instrumentId = a.instrumentId ∧
    o.side = (if a.isBuy then .buy else .sell) ∧ o.quantity = a.quantity ∧ o.price = a.price)
    ⟨fun ⟨token, instrument, side, quantity, price⟩ => ⟨token, instrument, side, quantity, price⟩,
      fun same => ⟨same.token, same.instrument, same.side, same.quantity, same.price⟩⟩

namespace TradingLoop

def init : TradingLoop :=
  { firm := .init
    shards := .init
    ops := fun _ => []
    egress := .init
    pushed := []
    chunks := []
    raised := false
    pending := [] }

section
variable (link : FirmLink) (loop : TradingLoop)

-- The gateway hands an engine orders of any clients within its limits. Those of
-- the firm are actions that it gave to its connector, each once.
def Placed : ShardOp → Prop
  | .submit o => o.clientOrderId < maxClientOrders ∧ o.quantity ≤ riskEngine.maxOrderQty ∧
      (o.clientId = link.client →
      (∃ a ∈ loop.firm.dispatched, Carries link.tokenBase a o) ∧ ∀ s ∈ List.range numShards,
        o.clientOrderId ∉ ownTokens link.client (loop.ops s))
  | .cancel _ _ => True

-- An engine pushes its reports in order. What meets a full queue is lost.
def Reported : EgressLabel → Prop
  | .ack s ack => s < numShards ∧ (acksFrom s loop.pushed ++ [ack]).Sublist (ackReports (loop.shards s))
  | _ => True

-- The receive thread is at recv(), and the next bytes of its connection are
-- there. Bytes of a report that was cut are not taken for an impossible size.
structure Receivable (chunk : Bytes) : Prop where
  idle : loop.firm.fill = .idle
  handled : loop.pending = []
  alive : loop.raised = false
  own : (loop.egress.conns link.conn).clientId = link.client
  sent : (loop.chunks ++ [chunk]).flatten <+: sentBytes (loop.egress.conns link.conn).sends
  small : ∀ fill ∈ (onMessage link.tokenBase chunk).fills, fill.shares < strayShares

def Allowed : LoopLabel → Prop
  | .executeAction a => FirmAllowed loop.firm (.executeAction a)
  | .exchange s op => s < numShards ∧ ShardAdmissible (loop.shards s) op ∧ loop.Placed link op
  | .gateway label => EgressAllowed loop.egress label ∧ loop.Reported label
  | .recv chunk => loop.Receivable link chunk
  | .callback => loop.firm.fill = .idle
  | .sendStep | .fillStep => True

def step (memory : Nat → Byte) (loop : TradingLoop) : LoopLabel → Checked TradingLoop
  | .executeAction a => pure { loop with firm := loop.firm.executeAction a }
  | .sendStep => pure { loop with firm := loop.firm.sendStep }
  | .exchange s op => do
      let next ← shardStep (loop.shards s) op
      pure { loop with shards := Function.update loop.shards s next,
                       ops := Function.update loop.ops s (loop.ops s ++ [op]) }
  | .gateway label => do
      let next ← egressStep memory loop.egress label
      pure { loop with egress := next, pushed := loop.pushed ++ [label] }
  | .recv chunk =>
      let received := onMessage link.tokenBase chunk
      pure { loop with chunks := loop.chunks ++ [chunk], raised := received.raised,
                       pending := received.fills }
  | .callback =>
      match loop.pending with
      | [] => pure loop
      | fill :: rest => pure { loop with firm := loop.firm.onExecutionReport fill.report, pending := rest }
  | .fillStep => do
      let next ← loop.firm.fillStep
      pure { loop with firm := next }

def ownReports : Nat :=
  ((List.range numShards).flatMap fun s => ackReports (loop.shards s)).countP
    fun ack => ack.clientId = link.client

def due : List FillReport := loop.firm.begun ++ loop.pending.map Fill.report

instance (chunk : Bytes) : Decidable (loop.Receivable link chunk) :=
  decidable_of_iff (loop.firm.fill = .idle ∧ loop.pending = [] ∧ loop.raised = false ∧
    (loop.egress.conns link.conn).clientId = link.client ∧ (loop.chunks ++ [chunk]).flatten <+:
      sentBytes (loop.egress.conns link.conn).sends ∧
    ∀ fill ∈ (onMessage link.tokenBase chunk).fills, fill.shares < strayShares)
    ⟨fun ⟨idle, handled, alive, own, sent, small⟩ => ⟨idle, handled, alive, own, sent, small⟩,
      fun ready => ⟨ready.idle, ready.handled, ready.alive, ready.own, ready.sent, ready.small⟩⟩

instance : (op : ShardOp) → Decidable (loop.Placed link op)
  | .submit _ => inferInstanceAs (Decidable (_ ∧ _))
  | .cancel _ _ => isTrue trivial

instance : (label : EgressLabel) → Decidable (loop.Reported label)
  | .ack _ _ => inferInstanceAs (Decidable (_ ∧ _))
  | .accept _ _ | .close _ | .writable _ _ | .drain _ _ => isTrue trivial

instance : (label : LoopLabel) → Decidable (loop.Allowed link label)
  | .executeAction a => inferInstanceAs (Decidable (FirmAllowed loop.firm (.executeAction a)))
  | .exchange _ _ | .gateway _ => inferInstanceAs (Decidable (_ ∧ _))
  | .recv chunk => inferInstanceAs (Decidable (loop.Receivable link chunk))
  | .callback => inferInstanceAs (Decidable (loop.firm.fill = .idle))
  | .sendStep | .fillStep => isTrue trivial

end

end TradingLoop

def LoopRun (link : FirmLink) (memory : Nat → Byte) : List LoopLabel → TradingLoop → Prop :=
  Run TradingLoop.init (Guarded (TradingLoop.Allowed link) (TradingLoop.step link memory))

def Execution.fill (tokenBase : Nat) (x : Execution) : FillReport :=
    ⟨x.order.clientOrderId - tokenBase, x.shares, x.price⟩

def Own (link : FirmLink) (sent : List NormalizedOrderAction) (o : Order) : Prop :=
  o.clientOrderId < maxClientOrders ∧ o.instrumentId < maxInstruments ∧
    (o.clientId = link.client → ∃ a ∈ sent,
    o.clientOrderId = link.tokenBase + a.internalOrderId ∧ o.instrumentId = a.instrumentId ∧
      o.side = if a.isBuy then .buy else .sell)

def Backed (link : FirmLink) (loop : TradingLoop) (reports : List FillReport) : Prop :=
  ∃ acks : List OutboundAck, (∀ ack ∈ acks, ack.clientId = link.client) ∧
    (acks : Multiset OutboundAck) ≤ ∑ s ∈ Finset.range numShards, ↑(ackReports (loop.shards s)) ∧
    (fillsOf link.tokenBase acks).map Fill.report = reports

structure LoopInv (link : FirmLink) (memory : Nat → Byte) (loop : TradingLoop) : Prop where
  engines : ∀ s, s < numShards → ShardRun (.init s) (loop.ops s) (loop.shards s)
  screened : ∀ s, s < numShards → Screened (loop.ops s)
  placed : ∀ s, s < numShards → ∀ o, .submit o ∈ loop.ops s → o.clientId = link.client →
    ∃ a ∈ loop.firm.dispatched, Carries link.tokenBase a o
  once : (∑ s ∈ Finset.range numShards, (ownTokens link.client (loop.ops s) : Multiset Nat)).Nodup
  gateway : EgressRun memory loop.pushed loop.egress
  reported : ∀ s, s < numShards → (acksFrom s loop.pushed).Sublist (ackReports (loop.shards s))
  received : ((drainSocket link.tokenBase loop.chunks).fills.map Fill.report,
    (drainSocket link.tokenBase loop.chunks).raised) =
    (loop.due, loop.raised)
  small : ∀ fill ∈ (drainSocket link.tokenBase loop.chunks).fills, fill.shares < strayShares
  backed : Backed link loop loop.due
  accounting : ∃ labels, AccountingRun labels loop.firm

def soldLink : FirmLink := ⟨2, 1_000_000, 1, by decide⟩

def soldBytes : Bytes :=
  ((execute EgressAllowed (egressStep fun _ => 0) .init soldLabels).map fun e =>
    sentBytes (e.conns 1).sends).getD []

def soldLoop : List LoopLabel :=
  [.executeAction ⟨7, 0, 100, 10, false, false, 0, 0, 0⟩, .sendStep, .sendStep] ++ soldOps.map
    (.exchange 0) ++ soldLabels.map .gateway ++
    [.recv soldBytes, .callback] ++ List.replicate 6 .fillStep

end HftExchange
