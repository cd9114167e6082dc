import HftExchange.Base.Blocks
import HftExchange.Base.Framing
import HftExchange.Gateway.Admission

set_option autoImplicit false

namespace HftExchange

open Base

def inBufferSize : Nat := 16384

-- The inbound members of ClientState. base is not in the program: it is the
-- offset in the connection's stream of the first byte of the buffer.
structure Inbound where
  buffer : Nat → Byte
  writePos : Nat
  readPos : Nat
  base : Nat

inductive ClientMessage where
  | enter (req : OuchEnterOrder)
  | cancel (req : OuchCancelOrder)
deriving DecidableEq, Repr

inductive CloseCause where
  | unknownType (offset : Nat)
  | bufferFull
  | endOfStream
  | readError
deriving DecidableEq, Repr

-- What the handler of a message does outside the buffer. The pools, the
-- session map and the queues are shared with other threads: whether an
-- allocation succeeds is not for this connection to decide.
structure Gateway (ω : Type) where
  allocate : ω → OuchEnterOrder → Option ω
  submit : ω → OuchEnterOrder → ω
  reject : ω → OuchEnterOrder → ω
  cancel : ω → OuchCancelOrder → ω

-- One result of read(): some bytes, at most as many as were offered space and
-- are there, or the end of the stream, or an error.
inductive ReadCall where
  | bytes (count : Nat)
  | endOfStream
  | failed
deriving DecidableEq, Repr

def ReadCall.share (most : Nat) : ReadCall → Nat
  | .bytes count => min count most
  | _ => 0

structure Connection (ω : Type) where
  inbound : Inbound
  socket : Bytes
  world : ω
  decoded : List ClientMessage
  closed : Option CloseCause

def messageSize (msgType : Byte) : Option Nat :=
  if msgType = ascii 'O' then some OuchEnterOrder.size
  else if msgType = ascii 'X' then some OuchCancelOrder.size
  else none

-- The space before each read: start over when everything is consumed, else
-- move the unparsed fragment to the front.
-- The space before each read: start over when everything is consumed, else
-- move the unparsed fragment to the front.
def Inbound.reclaim (st : Inbound) : Checked Inbound :=
  if st.readPos = st.writePos then pure { st with readPos := 0, writePos := 0, base := st.base + st.readPos }
  else if 0 < st.readPos then do
    let frag := sizeSub st.writePos st.readPos
    let buffer ← moveBlock inBufferSize st.buffer 0 st.readPos frag
    pure { buffer := buffer, writePos := frag, readPos := 0, base := st.base + st.readPos }
  else pure st

def Inbound.skip (st : Inbound) (size : Nat) : Inbound := { st with readPos := st.readPos + size }

namespace Connection

section
variable {ω : Type} (gateway : Gateway ω)

def close (c : Connection ω) (cause : CloseCause) : Connection ω := { c with closed := some cause }

-- Every way out of the handler of an 'O' message moves the cursor past it.
def handleEnter (c : Connection ω) (req : OuchEnterOrder) : Connection ω :=
  let c := { c with decoded := c.decoded ++ [ClientMessage.enter req] }
  if safeToAdmit req then
    match gateway.allocate c.world req with
    | none => { c with world := gateway.reject c.world req, inbound := c.inbound.skip OuchEnterOrder.size }
    | some world => { c with world := gateway.submit world req,
                             inbound := c.inbound.skip OuchEnterOrder.size }
  else { c with world := gateway.reject c.world req, inbound := c.inbound.skip OuchEnterOrder.size }

def handleCancel (c : Connection ω) (req : OuchCancelOrder) : Connection ω :=
  { c with
    decoded := c.decoded ++ [ClientMessage.cancel req]
    world := gateway.cancel c.world req
    inbound := c.inbound.skip OuchCancelOrder.size }

def parseLoop : Nat → Connection ω → Checked (Connection ω)
  | 0, _ => .error .stuck
  | fuel + 1, c => do
      if 1 ≤ sizeSub c.inbound.writePos c.inbound.readPos then
        let msgType ← fetch inBufferSize c.inbound.buffer c.inbound.readPos
        match messageSize msgType with
        | none => pure (c.close (.unknownType (c.inbound.base + c.inbound.readPos)))
        | some msgSize =>
            if sizeSub c.inbound.writePos c.inbound.readPos < msgSize then pure c
            else if msgType = ascii 'O' then
              let raw ← loadBlock inBufferSize c.inbound.buffer c.inbound.readPos OuchEnterOrder.size
              parseLoop fuel (c.handleEnter gateway ⟨raw⟩)
            else
              let raw ← loadBlock inBufferSize c.inbound.buffer c.inbound.readPos OuchCancelOrder.size
              parseLoop fuel (c.handleCancel gateway ⟨raw⟩)
      else pure c

@[irreducible] def parseFuel : Nat := inBufferSize + 1

-- One call of handle_client with the results of its reads. When they are used
-- up the socket is drained for now: read() fails with EAGAIN.
def readLoop : List ReadCall → Connection ω → Checked (Connection ω)
  | calls, c => do
      let st ← c.inbound.reclaim
      let c := { c with inbound := st }
      let remainingSpace := sizeSub inBufferSize st.writePos
      if remainingSpace = 0 then pure (c.close .bufferFull)
      else
        match calls with
        | [] => pure c
        | .endOfStream :: _ => pure (c.close .endOfStream)
        | .failed :: _ => pure (c.close .readError)
        | .bytes count :: rest =>
            let n := min count (min remainingSpace c.socket.length)
            if n = 0 then pure c
            else
              let buffer ← storeBlock inBufferSize st.buffer st.writePos (c.socket.take n)
              let filled := { c with
                inbound := { st with buffer := buffer, writePos := st.writePos + n }
                socket := c.socket.drop n }
              let c ← parseLoop gateway parseFuel filled
              if c.closed = none then readLoop rest c else pure c

def handleClient (c : Connection ω) (calls : List ReadCall) : Checked (Connection ω) :=
  if c.closed = none then readLoop gateway calls c else pure c

def serve (schedule : List (List ReadCall)) (c : Connection ω) : Checked (Connection ω) :=
    schedule.foldlM (handleClient gateway) c

end

-- A new connection. The bytes of its buffer are not initialised.
def accepted {ω : Type} (buffer : Nat → Byte) (stream : Bytes) (world : ω) : Connection ω :=
  { inbound := ⟨buffer, 0, 0, 0⟩, socket := stream, world := world, decoded := [], closed := none }

end Connection

end HftExchange
