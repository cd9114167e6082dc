import HftExchange.Firm.Tokens
import HftExchange.Protocol.Messages

set_option autoImplicit false

namespace HftExchange

open Base

structure EnterRequest where
  msgType : Byte
  orderToken : Bytes
  side : Byte
  shares : Nat
  stock : Bytes
  price : Nat
  timeInForce : Nat
  firm : Bytes
  display : Byte
  capacity : Byte
  isoEligibility : Byte
  minQuantity : Nat
  crossType : Byte
  customerType : Byte
  t1ExchangeSend : Nat
  t2TradingRecv : Nat
  t3TradingEnq : Nat
  t4NetworkDeq : Nat
deriving DecidableEq, Repr

structure CancelRequest where
  msgType : Byte
  orderToken : Bytes
  shares : Nat
deriving DecidableEq, Repr

inductive OuchRequest where
  | enter (req : EnterRequest)
  | cancel (req : CancelRequest)
deriving DecidableEq, Repr

def OuchRequest.untimed : OuchRequest → OuchRequest
  | .enter req => .enter { req with t4NetworkDeq := 0 }
  | .cancel req => .cancel req

structure ConnectorConfig where
  numConnections : Nat
  tokenBase : Nat
  firmId : Bytes

-- The array of the stack that std::to_chars writes to.
abbrev TokenDigits := Vector Byte 14

-- A number of more than 14 digits leaves the array unspecified, and all of it is
-- copied: the result of the conversion is not looked at.
def writeOrderToken (temp : TokenDigits) (value : Nat) : Bytes :=
    if value < 10 ^ 14 then encodeOrderToken value else temp.toList

def enterRequest (config : ConnectorConfig) (a : NormalizedOrderAction) (temp : TokenDigits)
    (t4 : Nat) : EnterRequest :=
  { msgType := ascii 'O'
    orderToken := writeOrderToken temp (orderTokenOf config.tokenBase a)
    side := if a.isBuy then ascii 'B' else ascii 'S'
    shares := a.quantity
    stock := encodeSymbol (a.instrumentId % 2 ^ 16)
    price := a.price % 2 ^ 32
    timeInForce := 99998
    firm := config.firmId
    display := ascii 'Y'
    capacity := ascii 'P'
    isoEligibility := ascii 'Y'
    minQuantity := 0
    crossType := ascii 'N'
    customerType := ascii 'R'
    t1ExchangeSend := a.t1ExchangeSend
    t2TradingRecv := a.t2TradingRecv
    t3TradingEnq := a.t3TradingEnq
    t4NetworkDeq := t4 }

def cancelRequest (config : ConnectorConfig) (a : NormalizedOrderAction)
    (temp : TokenDigits) : CancelRequest :=
  { msgType := ascii 'X', orderToken := writeOrderToken temp (orderTokenOf config.tokenBase a),
    shares := a.quantity }

theorem write_order_token_field (temp : TokenDigits) (value : Nat) :
    TokenField value (writeOrderToken temp value) := by
  unfold writeOrderToken
  split
  · rename_i small
    exact (token_field_small value _ small).mpr rfl
  · rename_i large
    exact token_field_large value _ (Nat.le_of_not_lt large) temp.length_toList

def connIdx (config : ConnectorConfig) (a : NormalizedOrderAction) : Nat :=
    a.instrumentId % config.numConnections

def orderQueueSize : Nat := 1024
def batchSize : Nat := 64

-- The transmit thread and its queue. enqueued is history: all that send_order
-- has put into the queue.
structure Transmitter where
  orderQueue : List NormalizedOrderAction
  batches : Nat → Nat → EnterRequest
  batchCounts : Nat → Nat
  totalProcessed : Nat
  wires : Nat → List OuchRequest
  enqueued : List NormalizedOrderAction

-- send_order puts an action into the queue, or the thread takes one turn, with
-- the time it reads and the bytes that are in its array.
inductive TransmitLabel where
  | enqueue (a : NormalizedOrderAction)
  | turn (stamp : Nat) (temp : TokenDigits)
deriving DecidableEq, Repr

namespace Transmitter

def init (batches : Nat → Nat → EnterRequest) : Transmitter :=
  { orderQueue := [], batches := batches, batchCounts := fun _ => 0, totalProcessed := 0,
    wires := fun _ => [], enqueued := [] }

-- A full queue makes send_order try again.
def enqueue (s : Transmitter) (a : NormalizedOrderAction) : Transmitter :=
  if s.orderQueue.length < orderQueueSize
    then { s with orderQueue := s.orderQueue ++ [a], enqueued := s.enqueued ++ [a] } else s

def write (s : Transmitter) (conn : Nat) (messages : List OuchRequest) : Transmitter :=
  { s with wires := Function.update s.wires conn (s.wires conn ++ messages) }

def pending (s : Transmitter) (conn : Nat) : List OuchRequest :=
  (List.range (s.batchCounts conn)).map fun k => .enter (s.batches conn k)

-- The end of a round of the batched loop: one send for each connection that has
-- something.
def flush (config : ConnectorConfig) (s : Transmitter) : Transmitter :=
  if 0 < s.totalProcessed then
    { s with
      wires := fun conn => if conn < config.numConnections then s.wires conn ++ s.pending conn
        else s.wires conn
      batchCounts := fun conn => if conn < config.numConnections then 0 else s.batchCounts conn
      totalProcessed := 0 }
  else s

def batchedTurn (config : ConnectorConfig) (s : Transmitter) (stamp : Nat) (temp : TokenDigits) :
    Checked Transmitter :=
  if s.totalProcessed < batchSize then
    match s.orderQueue with
    | [] => pure (s.flush config)
    | a :: rest =>
        if !a.isCancel then do
          let conn := connIdx config a
          let batch ← store batchSize (s.batches conn) (s.batchCounts conn) (enterRequest config a temp stamp)
          pure { s with
            orderQueue := rest
            batches := Function.update s.batches conn batch
            batchCounts := Function.update s.batchCounts conn (s.batchCounts conn + 1)
            totalProcessed := s.totalProcessed + 1 }
        else pure { s with orderQueue := rest }
  else pure (s.flush config)

-- Mode 1 or 2.
def directTurn (config : ConnectorConfig) (s : Transmitter) (stamp : Nat) (temp : TokenDigits) :
    Checked Transmitter :=
  match s.orderQueue with
  | [] => pure s
  | a :: rest =>
      let s := { s with orderQueue := rest }
      if !a.isCancel then pure (s.write (connIdx config a) [.enter (enterRequest config a temp stamp)])
      else pure (s.write (connIdx config a) [.cancel (cancelRequest config a temp)])

end Transmitter

section
variable (config : ConnectorConfig) (turn : ConnectorConfig → Transmitter → Nat → TokenDigits →
  Checked Transmitter)

def transmitStep (s : Transmitter) : TransmitLabel → Checked Transmitter
  | .enqueue a => pure (s.enqueue a)
  | .turn stamp temp => turn config s stamp temp

def TransmitRun (start : Transmitter) : List TransmitLabel → Transmitter → Prop :=
  Run start (Guarded (fun _ _ => True) (transmitStep config turn))

end

end HftExchange
