import HftExchange.Base.Words
import HftExchange.Base.Linked

set_option autoImplicit false

namespace HftExchange

open Base

def maxPrice : Nat := 100001

abbrev Slot := Nat

structure Limit where
  head : Option Slot
  tail : Option Slot
deriving DecidableEq, Repr

-- One side of an OrderBook: bids or asks with its two bitmaps and the cached
-- best price. Both sides have the same members.
structure Ladder where
  levels : Nat → Limit
  bitmap : Nat → Word
  l2 : Nat → Word
  cachedBest : Nat

def bitmapWords : Nat := maxPrice / 64 + 1
def l2Words : Nat := maxPrice / 4096 + 1

def Ladder.has (ladder : Ladder) (price : Nat) : Bool := (ladder.bitmap (price / 64)).getLsbD (price % 64)

def Ladder.summary (ladder : Ladder) (word : Nat) : Bool := (ladder.l2 (word / 64)).getLsbD (word % 64)

def setBit (ladder : Ladder) (price : Nat) : Checked Ladder := do
  let wordIdx := price / 64
  let bit ← shiftLeft 1#64 (price % 64)
  let bitmap ← store bitmapWords ladder.bitmap wordIdx ((← fetch bitmapWords ladder.bitmap wordIdx) ||| bit)
  let l2Bit ← shiftLeft 1#64 (wordIdx % 64)
  let l2 ← store l2Words ladder.l2 (wordIdx / 64) ((← fetch l2Words ladder.l2 (wordIdx / 64)) ||| l2Bit)
  pure { ladder with bitmap := bitmap, l2 := l2 }

def clearBit (ladder : Ladder) (price : Nat) : Checked Ladder := do
  let wordIdx := price / 64
  let bit ← shiftLeft 1#64 (price % 64)
  let bitmap ← store bitmapWords ladder.bitmap wordIdx
    ((← fetch bitmapWords ladder.bitmap wordIdx) &&& ~~~bit)
  if (← fetch bitmapWords bitmap wordIdx) = 0#64 then
    let l2Bit ← shiftLeft 1#64 (wordIdx % 64)
    let l2 ← store l2Words ladder.l2 (wordIdx / 64) ((← fetch l2Words ladder.l2 (wordIdx / 64)) &&& ~~~l2Bit)
    pure { ladder with bitmap := bitmap, l2 := l2 }
  else pure { ladder with bitmap := bitmap }

-- The searches return the price found; none stands for the source's -1.
def firstOfWord (ladder : Ladder) (word : Nat) : Checked (Option Nat) := do
  pure (some (word * 64 + (← trailingZeros (← fetch bitmapWords ladder.bitmap word))))

def followingGroups (ladder : Ladder) : Nat → Nat → Checked (Option Nat)
  | 0, _ => pure none
  | count + 1, i => do
      let l2Word ← fetch l2Words ladder.l2 i
      if l2Word ≠ 0#64 then firstOfWord ladder (i * 64 + (← trailingZeros l2Word))
      else followingGroups ladder count (i + 1)

-- The masks keep the bits strictly above or below the current word's bit; the
-- guards avoid a shift by the word width at a group boundary.
def l2MaskAbove (bitInL2 : Nat) : Checked Word :=
  if bitInL2 = 63 then .ok 0#64 else shiftLeft (BitVec.allOnes 64) (bitInL2 + 1)

def l2MaskBelow (bitInL2 : Nat) : Checked Word :=
  if bitInL2 = 0 then .ok 0#64 else shiftRight (BitVec.allOnes 64) (64 - bitInL2)

def findNextAsk (ladder : Ladder) (start : Nat) : Checked (Option Nat) := do
  let wordIdx := start / 64
  let word := (← fetch bitmapWords ladder.bitmap wordIdx) &&& (← shiftLeft (BitVec.allOnes 64) (start % 64))
  if word ≠ 0#64 then
    pure (some (wordIdx * 64 + (← trailingZeros word)))
  else
    let l2WordIdx := wordIdx / 64
    let bitInL2 := wordIdx % 64
    let l2Mask ← l2MaskAbove bitInL2
    let l2Word := (← fetch l2Words ladder.l2 l2WordIdx) &&& l2Mask
    if l2Word ≠ 0#64 then firstOfWord ladder (l2WordIdx * 64 + (← trailingZeros l2Word))
    else followingGroups ladder (l2Words - (l2WordIdx + 1)) (l2WordIdx + 1)

def lastOfWord (ladder : Ladder) (word : Nat) : Checked (Option Nat) := do
  pure (some (word * 64 + (63 - (← leadingZeros (← fetch bitmapWords ladder.bitmap word)))))

-- The argument is one more than the loop's index, which counts down to zero.
def precedingGroups (ladder : Ladder) : Nat → Checked (Option Nat)
  | 0 => pure none
  | i + 1 => do
      let l2Word ← fetch l2Words ladder.l2 i
      if l2Word ≠ 0#64 then lastOfWord ladder (i * 64 + (63 - (← leadingZeros l2Word)))
      else precedingGroups ladder i

def findNextBid (ladder : Ladder) (start : Nat) : Checked (Option Nat) := do
  let wordIdx := start / 64
  let word := (← fetch bitmapWords ladder.bitmap wordIdx) &&&
    (← shiftRight (BitVec.allOnes 64) (63 - start % 64))
  if word ≠ 0#64 then
    pure (some (wordIdx * 64 + (63 - (← leadingZeros word))))
  else
    let l2WordIdx := wordIdx / 64
    let bitInL2 := wordIdx % 64
    let l2Mask ← l2MaskBelow bitInL2
    let l2Word := (← fetch l2Words ladder.l2 l2WordIdx) &&& l2Mask
    if l2Word ≠ 0#64 then lastOfWord ladder (l2WordIdx * 64 + (63 - (← leadingZeros l2Word)))
    else precedingGroups ladder l2WordIdx

end HftExchange
