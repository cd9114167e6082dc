import HftExchange.Base.Runs
import HftExchange.Engine.Shard
import HftExchange.Protocol.ItchWire

set_option autoImplicit false

namespace HftExchange

open Base

def mktDataCapacity : Nat := 1048576
def mcastBatchSize : Nat := 64

structure Stamped where
  queue : Nat
  message : ItchMessage
  timestamp : Nat
deriving DecidableEq, Repr

def Stamped.datagram (s : Stamped) : Bytes := s.message.bytes s.timestamp

inductive PublisherLoop where
  | head
  | visiting (queue : Nat)
  | done
deriving DecidableEq, Repr

-- The publisher's thread with the queues of the engines and the socket. The
-- wire is what the kernel has taken and refused counts what it has not. The
-- histories pushed and taken say what went into and out of the queues.
structure Publisher where
  running : Bool
  pc : PublisherLoop
  foundAny : Bool
  queues : Nat → List ItchMessage
  batch : Nat → Bytes
  currentBatchCount : Nat
  wire : List Bytes
  refused : Nat
  droppedReports : Nat
  pushed : Nat → List ItchMessage
  taken : List Stamped

namespace Publisher

def init : Publisher :=
  { running := true
    pc := .head
    foundAny := false
    queues := fun _ => []
    batch := fun _ => []
    currentBatchCount := 0
    wire := []
    refused := 0
    droppedReports := 0
    pushed := fun _ => []
    taken := [] }

-- OrderBook::broadcast of an engine. A full queue takes nothing, and one slot
-- of the ring is always free.
def broadcast (p : Publisher) (shard : Nat) (report : ItchMessage) : Publisher :=
  if (p.queues shard).length + 1 < mktDataCapacity then
    { p with
      queues := Function.update p.queues shard (p.queues shard ++ [report])
      pushed := Function.update p.pushed shard (p.pushed shard ++ [report]) }
  else { p with droppedReports := p.droppedReports + 1 }

-- sendmmsg takes the datagrams of the batch in order up to the first that the
-- kernel refuses. Its result is not looked at.
def sendmmsg (p : Publisher) (accepted : Nat) : Checked Publisher := do
  let sent ← (List.range (min accepted p.currentBatchCount)).mapM (fetch mcastBatchSize p.batch)
  pure { p with wire := p.wire ++ sent, refused := p.refused + (p.currentBatchCount - accepted),
                currentBatchCount := 0 }

def take (p : Publisher) (queue : Nat) (report : ItchMessage) (rest : List ItchMessage)
    (tsc accepted : Nat) : Checked Publisher := do
  let batch ← store mcastBatchSize p.batch p.currentBatchCount (report.bytes tsc)
  let p :=
    { p with
      queues := Function.update p.queues queue rest
      batch := batch
      currentBatchCount := p.currentBatchCount + 1
      foundAny := true
      taken := p.taken ++ [⟨queue, report, tsc⟩] }
  if p.currentBatchCount = mcastBatchSize then p.sendmmsg accepted else pure p

-- The next step of Publisher::run, with the counter it reads and the number of
-- datagrams the kernel takes if it sends.
def advance (p : Publisher) (tsc accepted : Nat) : Checked Publisher :=
  match p.pc with
  | .head => pure (if p.running then { p with foundAny := false, pc := .visiting 0 }
      else { p with pc := .done })
  | .visiting queue =>
      if queue < numShards then
        match p.queues queue with
        | report :: rest => p.take queue report rest tsc accepted
        | [] => pure { p with pc := .visiting (queue + 1) }
      else do
        let p ← if p.foundAny = false ∧ 0 < p.currentBatchCount then p.sendmmsg accepted else pure p
        pure { p with pc := .head }
  | .done => pure p

end Publisher

inductive PublisherLabel where
  | broadcast (shard : Nat) (report : ItchMessage)
  | stop
  | advance (tsc accepted : Nat)
deriving DecidableEq, Repr

def publisherStep (p : Publisher) : PublisherLabel → Checked Publisher
  | .broadcast shard report => pure (p.broadcast shard report)
  | .stop => pure { p with running := false }
  | .advance tsc accepted => p.advance tsc accepted

def PublisherAllowed (_ : Publisher) : PublisherLabel → Prop
  | .broadcast shard _ => shard < numShards
  | .stop => True
  | .advance tsc _ => tsc < 2 ^ 64

instance (p : Publisher) : (label : PublisherLabel) → Decidable (PublisherAllowed p label)
  | .broadcast shard _ => inferInstanceAs (Decidable (shard < numShards))
  | .stop => inferInstanceAs (Decidable True)
  | .advance tsc _ => inferInstanceAs (Decidable (tsc < 2 ^ 64))

def PublisherRun : List PublisherLabel → Publisher → Prop :=
    Run .init (Guarded PublisherAllowed publisherStep)

end HftExchange
