import HftExchange.Base.Blocks
import HftExchange.Engine.Shard

set_option autoImplicit false

namespace HftExchange

open Base

def outBufCap : Nat := 65536

structure OutState where
  clientId : Nat
  outBuf : Nat → Byte
  outLen : Nat
  wantWrite : Bool

-- The answers of send(): some bytes taken, at most as many as were offered, a
-- full kernel buffer, or an error.
inductive SendResult where
  | sent (count : Nat)
  | again
  | failed
deriving DecidableEq, Repr

-- History of a connection: what its socket was given, and which reports were
-- popped for its client while it was open.
inductive SendEvent where
  | wrote (bytes : Bytes)
  | error
deriving DecidableEq, Repr

structure Conn where
  clientId : Nat
  isOpen : Bool
  popped : List OutboundAck
  sends : List SendEvent
deriving DecidableEq, Repr

-- One gateway worker as far as its outbound side goes. table is the kernel's:
-- the connection behind each descriptor. answers are the kernel's next answers
-- to send().
structure Egress where
  clientStates : Nat → Option OutState
  fdByClient : Nat → Option Nat
  nextClientId : Nat
  ackQueues : Nat → List OutboundAck
  table : Nat → Option Nat
  answers : List SendResult
  conns : Nat → Conn
  accepted : Nat

def OutState.fresh (memory : Nat → Byte) : OutState := ⟨0, memory, 0, false⟩

def armEpollout (st : OutState) (on : Bool) : OutState :=
    if st.wantWrite = on then st else { st with wantWrite := on }

-- What flush_out returns and leaves behind. Without a further answer the
-- kernel buffer is full.
structure Flushed where
  state : OutState
  sends : List SendEvent
  failed : Bool
  answers : List SendResult

def OutState.shift (st : OutState) (n : Nat) : Checked OutState := do
  let outLen := sizeSub st.outLen n
  let outBuf ← if 0 < outLen then moveBlock outBufCap st.outBuf 0 n outLen else pure st.outBuf
  pure { st with outBuf := outBuf, outLen := outLen }

def flushOut : List SendResult → OutState → Checked Flushed
  | answers, st =>
      if 0 < st.outLen then
        match answers with
        | [] => pure ⟨armEpollout st true, [], false, []⟩
        | .again :: rest => pure ⟨armEpollout st true, [], false, rest⟩
        | .failed :: rest => pure ⟨st, [.error], true, rest⟩
        | .sent count :: rest => do
            let data ← loadBlock outBufCap st.outBuf 0 st.outLen
            let n := min count st.outLen
            if 0 < n then
              let flushed ← flushOut rest (← st.shift n)
              pure { flushed with sends := .wrote (data.take n) :: flushed.sends }
            else pure ⟨st, [.error], true, rest⟩
      else pure ⟨armEpollout st false, [], false, answers⟩

inductive EgressLabel where
  | accept (fd others : Nat)
  | close (fd : Nat)
  | writable (fd : Nat) (answers : List SendResult)
  | drain (answers : List SendResult) (order : List Nat)
  | ack (shard : Nat) (ack : OutboundAck)
deriving DecidableEq, Repr

namespace Egress

def init : Egress :=
  { clientStates := fun _ => none
    fdByClient := fun _ => none
    nextClientId := 1
    ackQueues := fun _ => []
    table := fun _ => none
    answers := []
    conns := fun _ => ⟨0, false, [], []⟩
    accepted := 0 }

def setState (e : Egress) (fd : Nat) (st : OutState) : Egress :=
    { e with clientStates := Function.update e.clientStates fd (some st) }

def onConn (e : Egress) (fd : Nat) (change : Conn → Conn) : Egress :=
  match e.table fd with
  | some k => { e with conns := Function.update e.conns k (change (e.conns k)) }
  | none => e

def closeClient (e : Egress) (fd : Nat) : Egress :=
  let erased := match e.clientStates fd with
    | some st =>
        { e with
          fdByClient := Function.update e.fdByClient st.clientId none
          clientStates := Function.update e.clientStates fd none }
    | none => e
  { erased.onConn fd (fun conn => { conn with isOpen := false }) with
    table := Function.update e.table fd none }

-- flush_out on the entry of the descriptor.
def flush (e : Egress) (fd : Nat) (st : OutState) : Checked (Egress × OutState × Bool) := do
  let flushed ← flushOut e.answers st
  let e := (e.setState fd flushed.state).onConn fd fun conn =>
    { conn with sends := conn.sends ++ flushed.sends }
  pure ({ e with answers := flushed.answers }, flushed.state, flushed.failed)

-- A fatal error is answered with the teardown of the connection.
def flushOrClose (e : Egress) (fd : Nat) (st : OutState) : Checked Egress := do
  let (e, _, failed) ← e.flush fd st
  pure (if failed then e.closeClient fd else e)

def append (e : Egress) (fd : Nat) (st : OutState) (data : Bytes) : Checked Egress := do
  let outBuf ← storeBlock outBufCap st.outBuf st.outLen data
  pure (e.setState fd { st with outBuf := outBuf, outLen := st.outLen + data.length })

def sendReport (e : Egress) (fd : Nat) (st : OutState) (data : Bytes) : Checked Egress := do
  if outBufCap < st.outLen + data.length then
    let (e, st, failed) ← e.flush fd st
    if failed then pure (e.closeClient fd)
    else if outBufCap < st.outLen + data.length then pure (e.closeClient fd)
    else e.append fd st data
  else e.append fd st data

def logPop (e : Egress) (ack : OutboundAck) : Egress :=
  { e with conns := fun k =>
      if (e.conns k).isOpen ∧ (e.conns k).clientId = ack.clientId
        then { e.conns k with popped := (e.conns k).popped ++ [ack] }
      else e.conns k }

-- The lookup of the entry creates it if there is none.
def deliver (memory : Nat → Byte) (e : Egress) (ack : OutboundAck) : Checked Egress :=
  let e := e.logPop ack
  match e.fdByClient ack.clientId with
  | none => pure e
  | some fd =>
      let st := (e.clientStates fd).getD (.fresh memory)
      (e.setState fd st).sendReport fd st ack.report.bytes

def drainShard (memory : Nat → Byte) (e : Egress) (shard : Nat) : Checked Egress :=
  (e.ackQueues shard).foldlM (deliver memory) { e with ackQueues := Function.update e.ackQueues shard [] }

def flushEntry (e : Egress) (fd : Nat) : Checked Egress :=
  match e.clientStates fd with
  | some st =>
      if 0 < st.outLen then e.flushOrClose fd st else pure e
  | none => pure e

-- The order in which the table is walked is not specified.
def drainAcks (memory : Nat → Byte) (e : Egress) (order : List Nat) : Checked Egress := do
  let e ← (List.range numShards).foldlM (drainShard memory) e
  order.foldlM flushEntry e

-- Other workers take client ids from the same counter.
def accept (memory : Nat → Byte) (e : Egress) (fd others : Nat) : Egress :=
  let cid := (e.nextClientId + others) % 2 ^ 32
  let st := (e.clientStates fd).getD (.fresh memory)
  { e.setState fd { st with clientId := cid } with
    fdByClient := Function.update e.fdByClient cid (some fd)
    nextClientId := e.nextClientId + others + 1
    table := Function.update e.table fd (some e.accepted)
    conns := Function.update e.conns e.accepted ⟨cid, true, [], []⟩
    accepted := e.accepted + 1 }

end Egress

def egressStep (memory : Nat → Byte) (e : Egress) : EgressLabel → Checked Egress
  | .accept fd others => pure (e.accept memory fd others)
  | .close fd => pure (if (e.clientStates fd).isSome then e.closeClient fd else e)
  | .writable fd answers =>
      match e.clientStates fd with
      | some st => ({ e with answers := answers } : Egress).flushOrClose fd st
      | none => pure e
  | .drain answers order => ({ e with answers := answers } : Egress).drainAcks memory order
  | .ack shard ack =>
      pure { e with ackQueues := Function.update e.ackQueues shard (e.ackQueues shard ++ [ack]) }

-- The kernel gives out descriptors that are not open, and fewer than 2^32 - 1
-- connections are accepted in all.
def EgressAllowed (e : Egress) : EgressLabel → Prop
  | .accept fd others => e.table fd = none ∧ e.nextClientId + others < 2 ^ 32 - 1
  | _ => True

instance (e : Egress) : (label : EgressLabel) → Decidable (EgressAllowed e label)
  | .accept _ _ => inferInstanceAs (Decidable (_ ∧ _))
  | .close _ => inferInstanceAs (Decidable True)
  | .writable _ _ => inferInstanceAs (Decidable True)
  | .drain _ _ => inferInstanceAs (Decidable True)
  | .ack _ _ => inferInstanceAs (Decidable True)

end HftExchange
