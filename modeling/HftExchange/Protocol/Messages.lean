import HftExchange.Base.Checked

set_option autoImplicit false

namespace HftExchange

abbrev Byte := UInt8
abbrev Bytes := List Byte

inductive Side where
  | buy
  | sell
deriving DecidableEq, Repr

inductive OrderState where
  | new
  | partialFill
  | filled
  | canceled
  | rejected
deriving DecidableEq, Repr

def maxInstruments : Nat := 256
def invalidInstrument : Nat := 0xFFFF
def invalidOrderToken : Nat := 0xFFFFFFFFFFFFFFFF

def ascii (c : Char) : Byte := c.toUInt8

def isDigit (c : Byte) : Bool := ascii '0' ≤ c && c ≤ ascii '9'

-- The numeric field of a symbol is accumulated in a 32-bit word.
def decodeSymbolLoop (id : Nat) : Bytes → Nat
  | [] => if maxInstruments ≤ id then invalidInstrument else id
  | c :: rest =>
      if isDigit c then decodeSymbolLoop ((id * 10 + (c - ascii '0').toNat) % 2 ^ 32) rest
        else invalidInstrument

def decodeSymbol : Bytes → Nat
  | s :: t :: k :: digits =>
      if s = ascii 'S' ∧ t = ascii 'T' ∧ k = ascii 'K' then decodeSymbolLoop 0 (digits.take 5)
        else invalidInstrument
  | _ => invalidInstrument

def decodeOrderTokenLoop (value : Nat) : Bytes → Nat
  | [] => value
  | c :: rest =>
      if isDigit c then decodeOrderTokenLoop ((value * 10 + (c - ascii '0').toNat) % 2 ^ 64) rest
        else invalidOrderToken

def decodeOrderToken (token : Bytes) : Nat := decodeOrderTokenLoop 0 (token.take 14)

-- The loop of encode_order_token fills the field from its last byte.
def encodeDigits : Nat → Nat → Bytes
  | 0, _ => []
  | width + 1, value => encodeDigits width (value / 10) ++ [ascii '0' + UInt8.ofNat (value % 10)]

def encodeOrderToken (value : Nat) : Bytes := encodeDigits 14 value

-- Inbound packed structs are byte overlays: a decoded message is the frame
-- itself, and a member is the range of bytes the layout gives it.
def littleEndian : Bytes → Nat
  | [] => 0
  | b :: rest => b.toNat + 256 * littleEndian rest

structure OuchEnterOrder where
  raw : Bytes
deriving DecidableEq, Repr

namespace OuchEnterOrder
def size : Nat := 81
def orderToken (req : OuchEnterOrder) : Bytes := (req.raw.drop 1).take 14
def side (req : OuchEnterOrder) : Byte := req.raw.getD 15 0
def shares (req : OuchEnterOrder) : Nat := littleEndian ((req.raw.drop 16).take 4)
def stock (req : OuchEnterOrder) : Bytes := (req.raw.drop 20).take 8
def price (req : OuchEnterOrder) : Nat := littleEndian ((req.raw.drop 28).take 4)
end OuchEnterOrder

structure OuchCancelOrder where
  raw : Bytes
deriving DecidableEq, Repr

namespace OuchCancelOrder
def size : Nat := 19
def orderToken (req : OuchCancelOrder) : Bytes := (req.raw.drop 1).take 14
end OuchCancelOrder

def littleEndianBytes : Nat → Nat → Bytes
  | 0, _ => []
  | width + 1, value => UInt8.ofNat (value % 256) :: littleEndianBytes width (value / 256)

def encodeSymbol (inst : Nat) : Bytes := [ascii 'S', ascii 'T', ascii 'K'] ++ encodeDigits 5 inst

-- Frames as a client writes them, with the members that the gateway does not
-- look at set to zero.
def enterFrame (token : Nat) (side : Char) (shares inst price : Nat) : OuchEnterOrder :=
  ⟨ascii 'O' :: (encodeOrderToken token ++ [ascii side] ++ littleEndianBytes 4 shares ++ encodeSymbol inst ++
    littleEndianBytes 4 price ++ List.replicate 49 0)⟩

def cancelFrame (token : Nat) : OuchCancelOrder :=
    ⟨ascii 'X' :: (encodeOrderToken token ++ List.replicate 4 0)⟩

structure OuchExecutionReport where
  msgType : Byte
  orderToken : Bytes
  executedShares : Nat
  executionPrice : Nat
  liquidityFlag : Byte
  matchNumber : Bytes
deriving DecidableEq, Repr

def OuchExecutionReport.bytes (report : OuchExecutionReport) : Bytes :=
  report.msgType :: (report.orderToken ++ littleEndianBytes 4 report.executedShares ++
    littleEndianBytes 4 report.executionPrice ++ [report.liquidityFlag] ++ report.matchNumber)

structure ItchMessage where
  msgType : Byte
  stockLocate : Nat
  internalId : Nat
  shares : Nat
  price : Nat
  side : Byte
deriving DecidableEq, Repr

structure DropCopyMessage where
  clientOrderId : Nat
  internalId : Nat
  price : Nat
  quantity : Nat
  instrumentId : Nat
  state : OrderState
  side : Side
deriving DecidableEq, Repr

structure OutboundAck where
  report : OuchExecutionReport
  clientId : Nat
deriving DecidableEq, Repr

end HftExchange
