import HftExchange.Base.Dict
import HftExchange.Firm.Strategy
import HftExchange.Protocol.Messages

set_option autoImplicit false

namespace HftExchange

open Base

def maxPriceLevels : Nat := 100001
def numInstruments : Nat := 1000
def hotInstruments : Nat := 64

structure BookSnapshot where
  bestBid : Nat
  bestAsk : Nat
  bidQty : Nat
  askQty : Nat
deriving DecidableEq, Repr

structure HotBook where
  bids : Nat → Nat
  asks : Nat → Nat
  bestBid : Nat
  bestAsk : Nat

namespace HotBook

def init : HotBook := { bids := fun _ => 0, asks := fun _ => 0, bestBid := 0, bestAsk := maxPriceLevels - 1 }

def addAt (levels : Nat → Nat) (price quantity : Nat) : Checked (Nat → Nat) := do
  let total ← fetch maxPriceLevels levels price
  store maxPriceLevels levels price ((total + quantity) % 2 ^ 32)

def takeAt (levels : Nat → Nat) (price quantity : Nat) : Checked (Nat → Nat) := do
  let total ← fetch maxPriceLevels levels price
  store maxPriceLevels levels price (if quantity ≤ total then total - quantity else 0)

def scanDown (levels : Nat → Nat) : Nat → Checked Nat
  | 0 => pure 0
  | p + 1 => do
      if (← fetch maxPriceLevels levels (p + 1)) = 0 then scanDown levels p else pure (p + 1)

-- The price has so many levels above it.
def scanUp (levels : Nat → Nat) : Nat → Nat → Checked Nat
  | 0, p => pure p
  | left + 1, p => do
      if (← fetch maxPriceLevels levels p) = 0 then scanUp levels left (p + 1) else pure p

def processTick (book : HotBook) (tick : NormalizedTick) : Checked HotBook :=
  if maxPriceLevels ≤ tick.price then pure book
  else if tick.isBid then
    if !tick.isTrade then do
      let bids ← addAt book.bids tick.price tick.quantity
      pure { book with bids := bids,
                       bestBid := if book.bestBid < tick.price then tick.price else book.bestBid }
    else do
      let bids ← takeAt book.bids tick.price tick.quantity
      if (← fetch maxPriceLevels bids tick.price) = 0 ∧ tick.price = book.bestBid then
        pure { book with bids := bids, bestBid := ← scanDown bids book.bestBid }
      else pure { book with bids := bids }
  else
    if !tick.isTrade then do
      let asks ← addAt book.asks tick.price tick.quantity
      pure { book with asks := asks,
                       bestAsk := if tick.price < book.bestAsk then tick.price else book.bestAsk }
    else do
      let asks ← takeAt book.asks tick.price tick.quantity
      if (← fetch maxPriceLevels asks tick.price) = 0 ∧ tick.price = book.bestAsk then
        pure { book with asks := asks,
                         bestAsk := ← scanUp asks (maxPriceLevels - 1 - book.bestAsk) book.bestAsk }
      else pure { book with asks := asks }

def getSnapshot (book : HotBook) : Checked BookSnapshot := do
  let bidQty ← fetch maxPriceLevels book.bids book.bestBid
  let askQty ← fetch maxPriceLevels book.asks book.bestAsk
  pure ⟨book.bestBid, book.bestAsk, bidQty, askQty⟩

end HotBook

-- The flat maps are ordered by price, the bids from the highest down. Their
-- keys are 32-bit words.
structure ColdBook where
  bids : Dict Nat Nat
  asks : Dict Nat Nat

namespace ColdBook

def init : ColdBook := ⟨∅, ∅⟩

def addAt (levels : Dict Nat Nat) (price quantity : Nat) : Dict Nat Nat :=
  levels.insert (price % 2 ^ 32) (((levels.lookup (price % 2 ^ 32)).getD 0 + quantity) % 2 ^ 32)

def takeAt (levels : Dict Nat Nat) (price quantity : Nat) : Dict Nat Nat :=
  match levels.lookup (price % 2 ^ 32) with
  | none => levels
  | some total =>
      if quantity < total then levels.insert (price % 2 ^ 32) (total - quantity)
        else levels.erase (price % 2 ^ 32)

def processTick (book : ColdBook) (tick : NormalizedTick) : ColdBook :=
  if tick.isBid then
    if !tick.isTrade then { book with bids := addAt book.bids tick.price tick.quantity }
    else { book with bids := takeAt book.bids tick.price tick.quantity }
  else
    if !tick.isTrade then { book with asks := addAt book.asks tick.price tick.quantity }
    else { book with asks := takeAt book.asks tick.price tick.quantity }

def getSnapshot (book : ColdBook) : BookSnapshot :=
  { bestBid := book.bids.keys.max?.getD 0
    bestAsk := book.asks.keys.min?.getD (maxPriceLevels - 1)
    bidQty := (book.bids.keys.max?.bind book.bids.lookup).getD 0
    askQty := (book.asks.keys.min?.bind book.asks.lookup).getD 0 }

end ColdBook

structure BookBuilder where
  hotBooks : Nat → HotBook
  coldBooks : Nat → ColdBook

namespace BookBuilder

def init : BookBuilder := ⟨fun _ => .init, fun _ => .init⟩

def processTick (builder : BookBuilder) (tick : NormalizedTick) : Checked BookBuilder :=
  if tick.instrumentId < hotInstruments then do
    let book ← fetch hotInstruments builder.hotBooks tick.instrumentId
    pure { builder with
      hotBooks := ← store hotInstruments builder.hotBooks tick.instrumentId
        (← book.processTick tick) }
  else if tick.instrumentId < numInstruments then do
    let index := tick.instrumentId - hotInstruments
    let book ← fetch (numInstruments - hotInstruments) builder.coldBooks index
    pure { builder with
      coldBooks := ← store (numInstruments - hotInstruments) builder.coldBooks index
        (book.processTick tick) }
  else pure builder

def getSnapshot (builder : BookBuilder) (instrumentId : Nat) : Checked BookSnapshot :=
  if instrumentId < hotInstruments then do
    (← fetch hotInstruments builder.hotBooks instrumentId).getSnapshot
  else do
    pure (← fetch (numInstruments - hotInstruments) builder.coldBooks
      (instrumentId - hotInstruments)).getSnapshot

end BookBuilder

-- The connector's translation of one market-data message.
def normalize (raw : ItchMessage) (exchangeSend tradingRecv : Nat) : NormalizedTick :=
  { instrumentId := raw.stockLocate
    price := raw.price
    quantity := raw.shares
    isBid := raw.side = ascii 'B'
    isTrade := raw.msgType = ascii 'E'
    t1ExchangeSend := exchangeSend
    t2TradingRecv := tradingRecv }

end HftExchange
