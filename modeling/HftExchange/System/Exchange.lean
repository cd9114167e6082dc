import HftExchange.Engine.Stepwise
import HftExchange.Core.MemoryPool
import HftExchange.Gateway.Admission

set_option autoImplicit false

namespace HftExchange

open Base

-- A task in an ingress queue. The connection that sent it is not part of the
-- task in the program: it is kept to state who caused what.
structure Entry where
  task : EngineTask
  sender : Nat
deriving DecidableEq, Repr

-- History of a slot: the connection its order came from and the number of the
-- admission.
structure Admission where
  conn : Nat
  serial : Nat
deriving DecidableEq, Repr

-- One shard with its pool, its ingress queues, one for each gateway worker,
-- and its engine thread.
structure Lane where
  shard : Shard
  pool : MemoryPool
  queues : Nat → List Entry
  engine : EnginePc
  origin : Slot → Admission

-- A gateway worker between two of its steps. While it admits an order or
-- cancels one it serves no other message.
inductive WorkerPc where
  | idle
  | allocated (conn shard : Nat) (o : Order)
  | recorded (conn shard : Nat) (o : Order)
  | cancelling (conn shard internalId token : Nat)
deriving DecidableEq, Repr

structure Exchange where
  lanes : Nat → Lane
  session : SessionMap
  gateway : Nat → WorkerPc
  connections : List Nat
  closed : Nat → Bool
  rejects : Nat → List DropCopyMessage
  admissions : Nat

namespace Lane

def init (workers shard : Nat) : Lane :=
  { shard := .init shard
    pool := .init poolCapacityPerShard workers
    queues := fun _ => []
    engine := .idle
    origin := fun _ => ⟨0, 0⟩ }

def setQueue (lane : Lane) (worker : Nat) (queue : List Entry) : Lane :=
  { lane with queues := Function.update lane.queues worker queue }

-- The slots that a step of the engine released go back to the pool.
def advance (lane : Lane) (shard : Shard) (engine : EnginePc) : Checked Lane := do
  let freed := releases (shard.shared.out.drop lane.shard.shared.out.length)
  let pool ← freed.foldlM MemoryPool.deallocate lane.pool
  pure { lane with shard := shard, engine := engine, pool := pool }

def pop (lane : Lane) (worker : Nat) : Checked Lane :=
  match lane.engine, lane.queues worker with
  | .idle, entry :: rest => do
      let (shard, engine) ← startTask lane.shard entry.task
      (lane.setQueue worker rest).advance shard engine
  | _, _ => pure lane

def work (lane : Lane) : Checked Lane := do
  let (shard, engine) ← continueTask lane.shard lane.engine
  lane.advance shard engine

def admitOrder (lane : Lane) (worker : Nat) (o : Order) (who : Admission) : Option (Lane × Order) :=
  match lane.pool.allocate worker with
  | none => none
  | some (slot, pool) =>
      let o := { o with internalId := slot }
      some ({ lane with
        pool := pool
        shard := { lane.shard with shared := lane.shard.shared.construct o }
        origin := Function.update lane.origin slot who }, o)

-- A push that finds its queue full is repeated: nothing changes.
def push (lane : Lane) (worker : Nat) (entry : Entry) : Option Lane :=
  (pushQueue (lane.queues worker) entry).map (lane.setQueue worker)

end Lane

-- The counter of client ids is a 32-bit word that starts at 1.
def clientIdOf (conn : Nat) : Nat := (conn + 1) % 2 ^ 32

inductive Label where
  | accept (worker : Nat)
  | close (conn : Nat)
  | enter (conn : Nat) (req : OuchEnterOrder)
  | record (worker : Nat)
  | cancel (conn : Nat) (req : OuchCancelOrder)
  | push (worker : Nat)
  | pop (shard worker : Nat)
  | work (shard : Nat)
deriving DecidableEq, Repr

namespace Exchange

def init (workers : Nat) : Exchange :=
  { lanes := Lane.init workers
    session := .init
    gateway := fun _ => .idle
    connections := []
    closed := fun _ => false
    rejects := fun _ => []
    admissions := 0 }

def ready (s : Exchange) (conn : Nat) : Option Nat :=
  match s.connections[conn]? with
  | some worker => if s.closed conn = false ∧ s.gateway worker = .idle then some worker else none
  | none => none

def setLane (s : Exchange) (shard : Nat) (lane : Lane) : Exchange :=
    { s with lanes := Function.update s.lanes shard lane }

def setWorker (s : Exchange) (worker : Nat) (pc : WorkerPc) : Exchange :=
    { s with gateway := Function.update s.gateway worker pc }

def reject (s : Exchange) (worker : Nat) (req : OuchEnterOrder) : Exchange :=
  { s with rejects := Function.update s.rejects worker (s.rejects worker ++ [rejectOf req]) }

-- The part of the handler of an 'O' message up to the construction of the
-- order in its slot.
def enter (s : Exchange) (conn worker : Nat) (req : OuchEnterOrder) : Exchange :=
  if safeToAdmit req then
    let o := orderOf req (clientIdOf conn) worker
    let shard := o.instrumentId % numShards
    match (s.lanes shard).admitOrder worker o ⟨conn, s.admissions⟩ with
    | none => s.reject worker req
    | some (lane, o) =>
        { (s.setLane shard lane).setWorker worker (.allocated conn shard o) with
          admissions := s.admissions + 1 }
  else s.reject worker req

def record (s : Exchange) (worker : Nat) : Exchange :=
  match s.gateway worker with
  | .allocated conn shard o =>
      { s.setWorker worker (.recorded conn shard o) with
        session := s.session.recordOrder o.clientOrderId o.internalId o.instrumentId o.clientId }
  | _ => s

-- The part of the handler of an 'X' message up to the check of ownership.
def cancel (s : Exchange) (conn worker : Nat) (req : OuchCancelOrder) : Exchange :=
  let token := decodeOrderToken req.orderToken
  let data := s.session.lookupData token
  if data.internalId ≠ 0 ∧ data.clientId = clientIdOf conn then
    s.setWorker worker (.cancelling conn (data.instrumentId % numShards) data.internalId token)
  else s

def pushTask (s : Exchange) (worker shard : Nat) (entry : Entry) : Exchange :=
  match (s.lanes shard).push worker entry with
  | some lane => (s.setLane shard lane).setWorker worker .idle
  | none => s

def push (s : Exchange) (worker : Nat) : Exchange :=
  match s.gateway worker with
  | .recorded conn shard o => s.pushTask worker shard ⟨.new o.internalId, conn⟩
  | .cancelling conn shard idx token => s.pushTask worker shard ⟨.cancel idx token, conn⟩
  | _ => s

end Exchange

-- Any step of any thread. A step that its thread cannot take in this state
-- changes nothing; a fault is an error of the program.
def exchangeStep (workers : Nat) (s : Exchange) : Label → Checked Exchange
  | .accept worker =>
      pure (if worker < workers then { s with connections := s.connections ++ [worker] } else s)
  | .close conn =>
      pure (match s.ready conn with
        | some _ => { s with closed := Function.update s.closed conn true }
        | none => s)
  | .enter conn req =>
      pure (match s.ready conn with
        | some worker => s.enter conn worker req
        | none => s)
  | .record worker => pure (s.record worker)
  | .cancel conn req =>
      pure (match s.ready conn with
        | some worker => s.cancel conn worker req
        | none => s)
  | .push worker => pure (s.push worker)
  | .pop shard worker => do pure (s.setLane shard (← (s.lanes shard).pop worker))
  | .work shard => do pure (s.setLane shard (← (s.lanes shard).work))

def ExchangeRun (workers : Nat) : List Label → Exchange → Prop :=
  Run (Exchange.init workers) (Guarded (fun _ _ => True) (exchangeStep workers))

end HftExchange
