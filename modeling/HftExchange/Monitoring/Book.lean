import HftExchange.Base.Dict
import HftExchange.Protocol.Messages

set_option autoImplicit false

namespace HftExchange.Monitoring

open Base

structure BookLevel where
  price : Nat
  quantity : Int
  orders : Int
deriving DecidableEq, Repr

-- A resting order as the reconstruction knows it, with the receive time of
-- the last message that touched it.
structure BookOrder (τ : Type) where
  side : Byte
  price : Nat
  remaining : Int
  touched : τ
deriving DecidableEq, Repr

structure Book (τ : Type) where
  instrumentId : Nat
  orders : Dict Nat (BookOrder τ)
  bids : Dict Nat BookLevel
  asks : Dict Nat BookLevel

namespace Book

section
variable {τ : Type}

def init (instrumentId : Nat) : Book τ := ⟨instrumentId, ∅, ∅, ∅⟩

def levels (book : Book τ) (sideChar : Byte) : Dict Nat BookLevel :=
    if sideChar = ascii 'B' then book.bids else book.asks

def setLevels (book : Book τ) (sideChar : Byte) (levels : Dict Nat BookLevel) : Book τ :=
  if sideChar = ascii 'B' then { book with bids := levels } else { book with asks := levels }

def levelAdd (book : Book τ) (sideChar : Byte) (price : Nat) (qty : Int) : Book τ :=
  let lvl := ((book.levels sideChar).lookup price).getD ⟨price, 0, 0⟩
  book.setLevels sideChar
    ((book.levels sideChar).insert price
      { lvl with quantity := lvl.quantity + qty, orders := lvl.orders + 1 })

def levelSub (book : Book τ) (sideChar : Byte) (price : Nat) (qty : Int) (dropOrder : Bool) : Book τ :=
  match (book.levels sideChar).lookup price with
  | none => book
  | some lvl =>
      let quantity := lvl.quantity - qty
      let orders := if dropOrder then lvl.orders - 1 else lvl.orders
      if quantity ≤ 0 ∨ orders ≤ 0 then book.setLevels sideChar ((book.levels sideChar).erase price)
      else book.setLevels sideChar
        ((book.levels sideChar).insert price { lvl with quantity := quantity, orders := orders })

-- The pop of a reference that is not in the table would raise. Every caller
-- has found the reference there.
def removeOrder (book : Book τ) (ref : Nat) : Book τ :=
  match book.orders.lookup ref with
  | none => book
  | some o => levelSub { book with orders := book.orders.erase ref } o.side o.price o.remaining true

def apply (book : Book τ) (msg : ItchMessage) (now : τ) : Book τ :=
  let ref := msg.internalId
  if msg.msgType = ascii 'A' then
    -- A recycled reference that is still on the books: the stale order goes.
    let book := if ref ∈ book.orders then book.removeOrder ref else book
    levelAdd { book with orders := book.orders.insert ref ⟨msg.side, msg.price, msg.shares, now⟩ }
      msg.side msg.price msg.shares
  else if msg.msgType = ascii 'E' then
    match book.orders.lookup ref with
    | none => book
    | some o =>
        let remaining := o.remaining - msg.shares
        if remaining ≤ 0 then book.removeOrder ref
        else
          levelSub { book with
              orders := book.orders.insert ref { o with remaining := remaining, touched := now } }
            o.side o.price msg.shares false
  else if msg.msgType = ascii 'X' then
    if ref ∈ book.orders then book.removeOrder ref else book
  else book

def bestBid (book : Book τ) : Option Nat := book.bids.keys.max?

def bestAsk (book : Book τ) : Option Nat := book.asks.keys.min?

def evictStale [Sub τ] [LT τ] [DecidableLT τ] (book : Book τ) (now ttl : τ) : Book τ × Nat :=
  let stale := (book.orders.entries.filter fun entry => ttl < now - entry.2.touched).map Sigma.fst
  (stale.foldl removeOrder book, stale.length)

def crossing (book : Book τ) (bid ask : Nat) : List (τ × Nat) :=
  (book.orders.entries.filter fun entry =>
    (entry.2.side = ascii 'B' && decide (ask ≤ entry.2.price)) ||
      (entry.2.side = ascii 'S' && decide (entry.2.price ≤ bid))).map
    fun entry => (entry.2.touched, entry.1)

-- The minimum of a list of pairs in the order of Python's tuples.
def oldest [LT τ] [DecidableLT τ] : List (τ × Nat) → Option (τ × Nat)
  | [] => none
  | first :: rest =>
      match oldest rest with
      | none => some first
      | some best => if best.1 < first.1 ∨ (¬ first.1 < best.1 ∧ best.2 < first.2)
          then some best else some first

def firstEvicted [LT τ] [DecidableLT τ] (book : Book τ) : Option Nat :=
  match book.bestBid, book.bestAsk with
  | some bid, some ask => if bid < ask then none else (oldest (book.crossing bid ask)).map Prod.snd
  | _, _ => none

def repairLoop [LT τ] [DecidableLT τ] (book : Book τ) (evicted : Nat) : Nat → Book τ × Nat
  | 0 => (book, evicted)
  | left + 1 =>
      match book.firstEvicted with
      | none => (book, evicted)
      | some ref => (book.removeOrder ref).repairLoop (evicted + 1) left

def repairCrossed [LT τ] [DecidableLT τ] (book : Book τ) : Book τ × Nat := book.repairLoop 0 64

end

end Book

structure BookSet (τ : Type) where
  books : Dict Nat (Book τ)

namespace BookSet

section
variable {τ : Type}

def init : BookSet τ := ⟨∅⟩

def book (set : BookSet τ) (inst : Nat) : Book τ := (set.books.lookup inst).getD (.init inst)

def apply (set : BookSet τ) (msg : ItchMessage) (now : τ) : BookSet τ :=
  ⟨set.books.insert msg.stockLocate ((set.book msg.stockLocate).apply msg now)⟩

def receive (set : BookSet τ) (feed : List (ItchMessage × τ)) : BookSet τ :=
    feed.foldl (fun set m => set.apply m.1 m.2) set

end

end BookSet

end HftExchange.Monitoring
