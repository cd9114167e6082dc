import HftExchange.System.Exchange

set_option autoImplicit false

namespace HftExchange

open Base

def maxLogEntries : Nat := 20000000

-- The threads of the process. Each loop loads the running flag at its head
-- and nowhere else.
inductive WorkerLoop where
  | head
  | body
  | done
deriving DecidableEq, Repr

inductive EngineLoop where
  | head
  | visiting (queue : Nat)
  | done
deriving DecidableEq, Repr

inductive ManagerLoop where
  | head
  | draining (queue : Nat)
  | done
deriving DecidableEq, Repr

inductive MainPc where
  | waiting
  | joiningEngine (shard : Nat)
  | joiningServer
  | joiningManager
  | finished
deriving DecidableEq, Repr

-- The audit queues are numbered: first the drop-copy queues of the shards,
-- then the reject queues of the workers. sent is what a queue has been given
-- so far, popped how much of it the OrderManager has taken. The queue number
-- of a log entry is not in the file.
structure Session where
  exchange : Exchange
  running : Bool
  workers : Nat → WorkerLoop
  engines : Nat → EngineLoop
  manager : ManagerLoop
  main : MainPc
  sent : Nat → List DropCopyMessage
  popped : Nat → Nat
  log : List (Nat × DropCopyMessage)

namespace Session

def init (workers : Nat) : Session :=
  { exchange := .init workers
    running := true
    workers := fun _ => .head
    engines := fun _ => .head
    manager := .head
    main := .waiting
    sent := fun _ => []
    popped := fun _ => 0
    log := [] }

def queue (s : Session) (q : Nat) : List DropCopyMessage := (s.sent q).drop (s.popped q)

def produced (s : Session) (q : Nat) : List DropCopyMessage :=
  if q < numShards then dropCopySequence (s.exchange.lanes q).shard.shared.out
    else s.exchange.rejects (q - numShards)

-- The record its producer has to push next. A push does not fail.
def unsent (s : Session) (q : Nat) : Option DropCopyMessage := (s.produced q)[(s.sent q).length]?

def pushAudit (s : Session) (q : Nat) (m : DropCopyMessage) : Session :=
    { s with sent := Function.update s.sent q (s.sent q ++ [m]) }

def setEngine (s : Session) (shard : Nat) (pc : EngineLoop) : Session :=
    { s with engines := Function.update s.engines shard pc }

def setWorkerLoop (s : Session) (worker : Nat) (pc : WorkerLoop) : Session :=
    { s with workers := Function.update s.workers worker pc }

end Session

def servedBy (s : Exchange) (worker : Nat) : Label → Bool
  | .accept w => w = worker
  | .close conn => s.connections[conn]? = some worker
  | .enter conn _ => s.connections[conn]? = some worker
  | .record w => w = worker
  | .cancel conn _ => s.connections[conn]? = some worker
  | .push w => w = worker
  | .pop _ _ => false
  | .work _ => false

inductive SessionLabel where
  | clear
  | loop (worker : Nat)
  | serve (worker : Nat) (label : Label)
  | engine (shard : Nat)
  | manager
  | main
deriving DecidableEq, Repr

-- The head and the end of the body of a worker's loop.
def workerLoop (s : Session) (worker : Nat) : Session :=
  match s.workers worker with
  | .head => s.setWorkerLoop worker (if s.running then .body else .done)
  | .body => if s.exchange.gateway worker = .idle ∧ s.unsent (numShards + worker) = none
      then s.setWorkerLoop worker .head else s
  | .done => s

-- Inside the body: a reject is pushed before the worker goes on.
def workerServe (workers : Nat) (s : Session) (worker : Nat) (label : Label) : Checked Session :=
  if s.workers worker = .body then
    match s.unsent (numShards + worker) with
    | some m => pure (s.pushAudit (numShards + worker) m)
    | none =>
        if servedBy s.exchange worker label then do
          pure { s with exchange := ← exchangeStep workers s.exchange label }
        else pure s
  else pure s

-- One pass of an engine visits the queue of every worker once. The records of
-- a task are pushed one by one.
def engineLoop (workers : Nat) (s : Session) (shard : Nat) : Checked Session :=
  match s.engines shard with
  | .head => pure (s.setEngine shard (if s.running then .visiting 0 else .done))
  | .visiting queue =>
      match s.unsent shard with
      | some m => pure (s.pushAudit shard m)
      | none =>
          if (s.exchange.lanes shard).engine = .idle then
            if queue < workers then do
              let exchange ← exchangeStep workers s.exchange (.pop shard queue)
              pure ({ s with exchange := exchange }.setEngine shard (.visiting (queue + 1)))
            else pure (s.setEngine shard .head)
          else do pure { s with exchange := ← exchangeStep workers s.exchange (.work shard) }
  | .done => pure s

-- OrderManager::run. A full log takes no further entry.
def managerLoop (workers : Nat) (s : Session) : Session :=
  match s.manager with
  | .head => { s with manager := if s.running then .draining 0 else .done }
  | .draining q =>
      if q < numShards + workers then
        match s.queue q with
        | [] => { s with manager := .draining (q + 1) }
        | m :: _ =>
            { s with
              popped := Function.update s.popped q (s.popped q + 1)
              log := if s.log.length < maxLogEntries then s.log ++ [(q, m)] else s.log }
      else { s with manager := .head }
  | .done => s

-- The end of main: it joins the engines, the gateway and the OrderManager.
def mainStep (workers : Nat) (s : Session) : Session :=
  match s.main with
  | .waiting => if s.running then s else { s with main := .joiningEngine 0 }
  | .joiningEngine shard =>
      if shard < numShards then if s.engines shard = .done
        then { s with main := .joiningEngine (shard + 1) } else s
      else { s with main := .joiningServer }
  | .joiningServer =>
      if ∀ worker < workers, s.workers worker = .done then { s with main := .joiningManager } else s
  | .joiningManager => if s.manager = .done then { s with main := .finished } else s
  | .finished => s

def sessionStep (workers : Nat) (s : Session) : SessionLabel → Checked Session
  | .clear => pure { s with running := false }
  | .loop worker => pure (if worker < workers then workerLoop s worker else s)
  | .serve worker label => if worker < workers then workerServe workers s worker label else pure s
  | .engine shard => if shard < numShards then engineLoop workers s shard else pure s
  | .manager => pure (managerLoop workers s)
  | .main => pure (mainStep workers s)

def SessionRun (workers : Nat) : List SessionLabel → Session → Prop :=
  Run (Session.init workers) (Guarded (fun _ _ => True) (sessionStep workers))

inductive AuditMove (workers : Nat) (before after : Session) : Prop where
  | cleared (running : after.running = false) (manager : after.manager = before.manager)
      (sent : after.sent = before.sent)
      (popped : after.popped = before.popped) (log : after.log = before.log)
  | pushed (q : Nat) (m : DropCopyMessage) (known : q < numShards + workers)
      (running : after.running = before.running)
      (manager : after.manager = before.manager)
        (sent : after.sent = Function.update before.sent q (before.sent q ++ [m]))
      (popped : after.popped = before.popped) (log : after.log = before.log)
  | drained (q : Nat) (m : DropCopyMessage) (rest : List DropCopyMessage) (known : q < numShards + workers)
      (here : before.manager = .draining q) (head : before.queue q = m :: rest)
        (running : after.running = before.running)
      (manager : after.manager = before.manager) (sent : after.sent = before.sent)
      (popped : after.popped = Function.update before.popped q (before.popped q + 1))
      (log : after.log = if before.log.length < maxLogEntries then before.log ++ [(q, m)] else before.log)
  | passed (q : Nat) (here : before.manager = .draining q) (empty : before.queue q = [])
      (running : after.running = before.running)
      (manager : after.manager = .draining (q + 1)) (sent : after.sent = before.sent)
        (popped : after.popped = before.popped)
      (log : after.log = before.log)
  | ended (q : Nat) (last : numShards + workers ≤ q) (here : before.manager = .draining q)
      (running : after.running = before.running)
      (manager : after.manager = .head) (sent : after.sent = before.sent)
        (popped : after.popped = before.popped)
      (log : after.log = before.log)
  | tested (here : before.manager = .head) (running : after.running = before.running)
      (manager : after.manager = if before.running then .draining 0 else .done)
        (sent : after.sent = before.sent)
      (popped : after.popped = before.popped) (log : after.log = before.log)
  | apart (running : after.running = before.running) (manager : after.manager = before.manager)
      (sent : after.sent = before.sent)
      (popped : after.popped = before.popped) (log : after.log = before.log)

section
variable (workers : Nat) (before after : Session)

theorem worker_loop_move (worker : Nat) : AuditMove workers before (workerLoop before worker) := by
  unfold workerLoop
  split
  · exact .apart rfl rfl rfl rfl rfl
  · split <;> exact .apart rfl rfl rfl rfl rfl
  · exact .apart rfl rfl rfl rfl rfl

theorem worker_serve_move (worker : Nat) (label : Label) (known : worker < workers)
    (step : workerServe workers before worker label = .ok after) : AuditMove workers before after := by
  unfold workerServe at step
  split at step
  · split at step
    · rename_i m _
      cases step
      exact .pushed (numShards + worker) m (by omega) rfl rfl rfl rfl rfl
    · split at step
      · obtain ⟨exchange, _, result⟩ := (checked_bind_eq_ok _ _ _).mp step
        cases result
        exact .apart rfl rfl rfl rfl rfl
      · cases step
        exact .apart rfl rfl rfl rfl rfl
  · cases step
    exact .apart rfl rfl rfl rfl rfl

theorem engine_loop_move (shard : Nat) (known : shard < numShards)
    (step : engineLoop workers before shard = .ok after) :
    AuditMove workers before after := by
  unfold engineLoop at step
  split at step
  · cases step
    exact .apart rfl rfl rfl rfl rfl
  · split at step
    · rename_i m _
      cases step
      exact .pushed shard m (by omega) rfl rfl rfl rfl rfl
    · split at step
      · split at step
        · obtain ⟨exchange, _, result⟩ := (checked_bind_eq_ok _ _ _).mp step
          cases result
          exact .apart rfl rfl rfl rfl rfl
        · cases step
          exact .apart rfl rfl rfl rfl rfl
      · obtain ⟨exchange, _, result⟩ := (checked_bind_eq_ok _ _ _).mp step
        cases result
        exact .apart rfl rfl rfl rfl rfl
  · cases step
    exact .apart rfl rfl rfl rfl rfl

theorem manager_loop_move : AuditMove workers before (managerLoop workers before) := by
  unfold managerLoop
  split
  · rename_i here
    exact .tested here rfl rfl rfl rfl rfl
  · rename_i q here
    split
    · rename_i known
      split
      · rename_i empty
        exact .passed q here empty rfl rfl rfl rfl rfl
      · rename_i m rest head
        exact .drained q m rest known here head rfl rfl rfl rfl rfl
    · rename_i outside
      exact .ended q (Nat.le_of_not_lt outside) here rfl rfl rfl rfl rfl
  · exact .apart rfl rfl rfl rfl rfl

theorem main_step_move : AuditMove workers before (mainStep workers before) := by
  unfold mainStep
  split
  · split <;> exact .apart rfl rfl rfl rfl rfl
  · split
    · split <;> exact .apart rfl rfl rfl rfl rfl
    · exact .apart rfl rfl rfl rfl rfl
  · split <;> exact .apart rfl rfl rfl rfl rfl
  · split <;> exact .apart rfl rfl rfl rfl rfl
  · exact .apart rfl rfl rfl rfl rfl

theorem session_step_move (label : SessionLabel) (step : sessionStep workers before label = .ok after) :
    AuditMove workers before after := by
  cases label with
  | clear =>
      cases step
      exact .cleared rfl rfl rfl rfl rfl
  | loop worker =>
      simp only [sessionStep] at step
      cases step
      split
      · exact worker_loop_move workers before worker
      · exact .apart rfl rfl rfl rfl rfl
  | serve worker label =>
      simp only [sessionStep] at step
      split at step
      · rename_i known
        exact worker_serve_move workers before after worker label known step
      · cases step
        exact .apart rfl rfl rfl rfl rfl
  | engine shard =>
      simp only [sessionStep] at step
      split at step
      · rename_i known
        exact engine_loop_move workers before after shard known step
      · cases step
        exact .apart rfl rfl rfl rfl rfl
  | manager =>
      cases step
      exact manager_loop_move workers before
  | main =>
      cases step
      exact main_step_move workers before

end

end HftExchange
