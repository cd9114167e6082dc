import HftExchange.Book.Ladder
import HftExchange.Protocol.Messages

set_option autoImplicit false

namespace HftExchange

open Base

def poolCapacityPerShard : Nat := 500000
def maxOrdersLookup : Nat := poolCapacityPerShard

structure Order where
  internalId : Nat
  clientOrderId : Nat
  price : Nat
  quantity : Nat
  clientId : Nat
  instrumentId : Nat
  workerId : Nat
  side : Side
deriving DecidableEq, Repr

-- The pool's memory. An Order pointer is the index of its slot, and the two
-- intrusive pointers of the struct are kept beside the other members.
structure Heap where
  order : Slot → Order
  links : Links

-- What the matching code hands to other threads, in program order: pushes to
-- the three outbound queues and calls of pool->deallocate. A push that finds
-- its queue full changes nothing in the book.
inductive Output where
  | itch (message : ItchMessage)
  | dropCopy (message : DropCopyMessage)
  | ack (worker : Nat) (message : OutboundAck)
  | release (slot : Slot)
deriving DecidableEq, Repr

structure Shared where
  heap : Heap
  ordersById : Slot → Option Slot
  out : List Output

structure OrderBook where
  ladder : Side → Ladder

structure BookState where
  shared : Shared
  book : OrderBook

def Side.opposite : Side → Side
  | .buy => .sell
  | .sell => .buy

def sideByte : Side → Byte
  | .buy => ascii 'B'
  | .sell => ascii 'S'

def Limit.add (limit : Limit) (links : Links) (o : Slot) : Limit × Links :=
  match limit.tail with
  | none => ({ head := some o, tail := some o },
      { next := Function.update links.next o none, prev := Function.update links.prev o none })
  | some last => ({ limit with tail := some o },
      { next := Function.update (Function.update links.next last (some o)) o none
        prev := Function.update links.prev o (some last) })

-- if (pointer) pointer->member = value
def writeThrough (member : Slot → Option Slot) (pointer value : Option Slot) : Slot → Option Slot :=
  match pointer with
  | some cell => Function.update member cell value
  | none => member

def Limit.remove (limit : Limit) (links : Links) (o : Slot) : Limit × Links :=
  let next := writeThrough links.next (links.prev o) (links.next o)
  let prev := writeThrough links.prev (next o) (links.prev o)
  let head := if limit.head = some o then next o else limit.head
  let tail := if limit.tail = some o then prev o else limit.tail
  ({ head := head, tail := tail },
    { next := Function.update next o none, prev := Function.update prev o none })

namespace Shared

def emit (shared : Shared) (output : Output) : Shared := { shared with out := shared.out ++ [output] }

def broadcast (shared : Shared) (type : Byte) (internalId price qty inst : Nat) (side : Byte) : Shared :=
  shared.emit (.itch ⟨type, inst, internalId, qty, price, side⟩)

def sendDropCopy (shared : Shared) (clientId internalId price qty inst : Nat) (side : Side)
    (state : OrderState) : Shared :=
  shared.emit (.dropCopy ⟨clientId, internalId, price, qty, inst, state, side⟩)

def sendAck (shared : Shared) (o : Order) (execShares execPrice : Nat) (liquidityFlag : Byte) : Shared :=
  shared.emit (.ack o.workerId
    { report := ⟨ascii 'E', encodeOrderToken o.clientOrderId, execShares, execPrice, liquidityFlag,
        List.replicate 8 0⟩
      clientId := o.clientId })

def deallocate (shared : Shared) (slot : Slot) : Shared := shared.emit (.release slot)

def order (shared : Shared) (slot : Slot) : Order := shared.heap.order slot

def setOrder (shared : Shared) (slot : Slot) (o : Order) : Shared :=
  { shared with heap := { shared.heap with order := Function.update shared.heap.order slot o } }

def setQuantity (shared : Shared) (slot : Slot) (quantity : Nat) : Shared :=
  shared.setOrder slot { shared.order slot with quantity := quantity }

def setLinks (shared : Shared) (links : Links) : Shared :=
    { shared with heap := { shared.heap with links := links } }

def setById (shared : Shared) (index : Nat) (pointer : Option Slot) : Checked Shared := do
  pure { shared with ordersById := (← store maxOrdersLookup shared.ordersById index pointer) }

end Shared

def OrderBook.setLadder (book : OrderBook) (side : Side) (ladder : Ladder) : OrderBook :=
  { ladder := Function.update book.ladder side ladder }

def Ladder.setLevel (ladder : Ladder) (price : Nat) (limit : Limit) : Ladder :=
  { ladder with levels := Function.update ladder.levels price limit }

def rejectSelfTrade (shared : Shared) (o : Slot) : Shared :=
  let n := shared.order o
  (shared.sendDropCopy n.clientOrderId n.internalId n.price n.quantity n.instrumentId n.side
    .rejected).deallocate o

-- The messages of one match, before any quantity changes.
def reportMatch (shared : Shared) (n r : Order) : Shared :=
  let matchQty := min n.quantity r.quantity
  let shared := shared.broadcast (ascii 'E') r.internalId r.price matchQty r.instrumentId (sideByte r.side)
  let shared := shared.broadcast (ascii 'E') n.internalId r.price matchQty n.instrumentId (sideByte n.side)
  let shared := shared.sendDropCopy n.clientOrderId n.internalId r.price matchQty n.instrumentId n.side
    (if r.quantity < n.quantity then .partialFill else .filled)
  let shared := shared.sendDropCopy r.clientOrderId r.internalId r.price matchQty r.instrumentId r.side
    (if n.quantity < r.quantity then .partialFill else .filled)
  let shared := shared.sendAck n matchQty r.price (ascii 'R')
  shared.sendAck r matchQty r.price (ascii 'A')

-- The body of the inner loop for the order at the head of a level.
def fillHead (shared : Shared) (level : Limit) (o resting : Slot) : Checked (Shared × Limit) :=
  let n := shared.order o
  let r := shared.order resting
  let shared := reportMatch shared n r
  if r.quantity ≤ n.quantity then do
    let shared := shared.setQuantity o (n.quantity - r.quantity)
    let shared ← shared.setById r.internalId none
    let (level, links) := level.remove shared.heap.links resting
    pure ((shared.setLinks links).deallocate resting, level)
  else
    pure ((shared.setQuantity resting (r.quantity - n.quantity)).setQuantity o 0, level)

def advanceAsk (ladder : Ladder) (p : Nat) : Checked (Ladder × Option Nat) := do
  let ladder ← clearBit ladder p
  match (← findNextAsk ladder (p + 1)) with
  | none => pure (ladder, none)
  | some next => pure ({ ladder with cachedBest := next }, some next)

def advanceBid (ladder : Ladder) (p : Nat) : Checked (Ladder × Option Nat) := do
  let ladder ← clearBit ladder p
  if 0 < p then
    match (← findNextBid ladder (p - 1)) with
    | none => pure (ladder, none)
    | some next => pure ({ ladder with cachedBest := next }, some next)
  else pure (ladder, none)

-- The two halves of match_order differ in the side they sweep, the direction
-- of the price comparison and the way to the next level. The argument is the
-- side of the incoming order.
def advance : Side → Ladder → Nat → Checked (Ladder × Option Nat)
  | .buy => advanceAsk
  | .sell => advanceBid

def crosses : Side → Nat → Nat → Bool
  | .buy, p, price => p ≤ price
  | .sell, p, price => price ≤ p

def improves : Side → Nat → Nat → Bool
  | .buy, price, cached => cached < price
  | .sell, price, cached => price < cached

def markLevel (ladder : Ladder) (price : Nat) (isNewLevel : Bool) : Checked Ladder :=
  if isNewLevel then setBit ladder price else pure ladder

def restOrder (st : BookState) (o : Slot) : Checked BookState := do
  let n := st.shared.order o
  let ladder := st.book.ladder n.side
  let level ← fetch maxPrice ladder.levels n.price
  let (limit, links) := level.add st.shared.heap.links o
  let ladder := ladder.setLevel n.price limit
  let ladder ← markLevel ladder n.price level.head.isNone
  let shared ← (st.shared.setLinks links).setById n.internalId (some o)
  let shared := shared.broadcast (ascii 'A') n.internalId n.price n.quantity n.instrumentId (sideByte n.side)
  let shared := shared.sendDropCopy n.clientOrderId n.internalId n.price n.quantity n.instrumentId n.side .new
  let ladder := if improves n.side n.price ladder.cachedBest
    then { ladder with cachedBest := n.price } else ladder
  pure { shared := shared, book := st.book.setLadder n.side ladder }

-- Control points of match_order: the test of the outer while loop at cursor
-- p (none is the source's -1), the test of the inner loop at level p, the
-- code after the loops, and the return.
inductive MatchPc where
  | outer (p : Option Nat)
  | inner (p : Nat)
  | finish
  | done
deriving DecidableEq, Repr

def matchStep (st : BookState) (o : Slot) : MatchPc → Checked (BookState × MatchPc)
  | .outer none => pure (st, .finish)
  | .outer (some p) =>
      let n := st.shared.order o
      if crosses n.side p n.price ∧ 0 < n.quantity then pure (st, .inner p) else pure (st, .finish)
  | .inner p => do
      let n := st.shared.order o
      let side := n.side.opposite
      let ladder := st.book.ladder side
      let level ← fetch maxPrice ladder.levels p
      match level.head with
      | some resting =>
          if 0 < n.quantity then
            if (st.shared.order resting).clientId = n.clientId then
              pure ({ st with shared := rejectSelfTrade st.shared o }, .done)
            else
              let (shared, level) ← fillHead st.shared level o resting
              pure ({ shared := shared, book := st.book.setLadder side (ladder.setLevel p level) }, .inner p)
          else pure (st, .finish)
      | none =>
          let (ladder, next) ← advance n.side ladder p
          pure ({ st with book := st.book.setLadder side ladder }, .outer next)
  | .finish => do
      if 0 < (st.shared.order o).quantity then pure (← restOrder st o, .done)
      else pure ({ st with shared := st.shared.deallocate o }, .done)
  | .done => pure (st, .done)

def matchStart (st : BookState) (o : Slot) : BookState × MatchPc :=
  let n := st.shared.order o
  if maxOrdersLookup ≤ n.internalId ∨
    maxPrice ≤ n.price then ({ st with shared := st.shared.deallocate o }, .done)
  else (st, .outer (some (st.book.ladder n.side.opposite).cachedBest))

-- The fuel is never used up: see match_loop_refines.
def matchLoop : Nat → BookState → Slot → MatchPc → Checked BookState
  | 0, _, _, _ => .error .stuck
  | _ + 1, st, _, .done => pure st
  | fuel + 1, st, o, pc => do
      let (st, pc) ← matchStep st o pc
      matchLoop fuel st o pc

def matchFuel : Nat := maxOrdersLookup + 2 * maxPrice + 8

def matchOrder (st : BookState) (o : Slot) : Checked BookState :=
  let (st, pc) := matchStart st o
  matchLoop matchFuel st o pc

-- Unlike a sweep, a cancel restores the cached price of an emptied side to
-- its initial value.
def rescan : Side → Ladder → Nat → Checked Nat
  | .buy, ladder, p => do pure ((← findNextBid ladder p).getD 0)
  | .sell, ladder, p => do pure ((← findNextAsk ladder p).getD (maxPrice - 1))

def unmarkLevel (side : Side) (ladder : Ladder) (p : Nat) (isEmpty : Bool) : Checked Ladder :=
  if isEmpty then do
    let ladder ← clearBit ladder p
    if p = ladder.cachedBest then pure { ladder with cachedBest := (← rescan side ladder p) } else pure ladder
  else pure ladder

def cancelOrder (st : BookState) (id : Nat) : Checked BookState :=
  if maxOrdersLookup ≤ id then pure st
  else do
    match (← fetch maxOrdersLookup st.shared.ordersById id) with
    | none => pure st
    | some o =>
        let c := st.shared.order o
        let shared := st.shared.broadcast (ascii 'X') c.internalId c.price c.quantity c.instrumentId
          (sideByte c.side)
        let shared := shared.sendDropCopy c.clientOrderId c.internalId c.price c.quantity
          c.instrumentId c.side .canceled
        let ladder := st.book.ladder c.side
        let level ← fetch maxPrice ladder.levels c.price
        let (limit, links) := level.remove shared.heap.links o
        let ladder := ladder.setLevel c.price limit
        let ladder ← unmarkLevel c.side ladder c.price limit.head.isNone
        let shared ← (shared.setLinks links).setById id none
        pure { shared := shared.deallocate o, book := st.book.setLadder c.side ladder }

def Ladder.empty (best : Nat) : Ladder :=
    { levels := fun _ => ⟨none, none⟩, bitmap := fun _ => 0, l2 := fun _ => 0, cachedBest := best }

def OrderBook.init : OrderBook :=
  { ladder := fun side => match side with
      | .buy => .empty 0
      | .sell => .empty (maxPrice - 1) }

end HftExchange
