import HftExchange.Base.Progress
import HftExchange.System.Presence

set_option autoImplicit false

namespace HftExchange

open Base

-- An infinite run of the exchange: labels n is the step that is taken at
-- moment n. Every finite run is the beginning of one, since a step that its
-- thread cannot take changes nothing.
structure Trace (workers : Nat) (labels : Nat → Label) (states : Nat → Exchange) : Prop where
  start : states 0 = .init workers
  step : ∀ n, exchangeStep workers (states n) (labels n) = .ok (states (n + 1))

-- No thread stops, and an engine that is free again and again looks at each of
-- its queues again and again.
structure Fair (workers : Nat) (labels : Nat → Label) (states : Nat → Exchange) : Prop where
  records : ∀ worker < workers, Recurs fun n => labels n = .record worker
  pushes : ∀ worker < workers, Recurs fun n => labels n = .push worker
  works : ∀ sh < numShards, Recurs fun n => labels n = .work sh
  pops : ∀ sh < numShards, ∀ worker < workers, (Recurs fun n => ((states n).lanes sh).engine = .idle) →
    Recurs fun n => labels n = .pop sh worker ∧ ((states n).lanes sh).engine = .idle

inductive LaneStep (sh : Nat) (lane : Lane) : Label → Lane → Prop where
  | same (label : Label) : LaneStep sh lane label lane
  | admitted (conn : Nat) (req : OuchEnterOrder) (o : Order) (who : Admission) (pool : MemoryPool)
      (wasFree : lane.pool.free o.internalId ≠ 0) :
      LaneStep sh lane (.enter conn req)
        { lane with
          pool := pool
          shard := { lane.shard with shared := lane.shard.shared.construct o }
          origin := Function.update lane.origin o.internalId who }
  | pushed (worker : Nat) (entry : Entry) (room : (lane.queues worker).length + 1 < queueCapacity) :
      LaneStep sh lane (.push worker) (lane.setQueue worker (lane.queues worker ++ [entry]))
  | popped (worker : Nat) (next : Lane) (done : lane.pop worker = .ok next) : LaneStep sh lane
      (.pop sh worker) next
  | worked (next : Lane) (done : lane.work = .ok next) : LaneStep sh lane (.work sh) next

theorem trace_exists (workers : Nat) (one : 1 ≤ workers) (sixteen : workers ≤ 16) (labels : Nat → Label) :
    Trace workers labels (runStates (exchangeStep workers) (.init workers) labels) :=
  ⟨rfl, fun n => (run_states_step (exchangeStep workers) (.init workers) labels (ExchangeInv workers)
    (initial_exchange_inv workers one sixteen)
      (fun s label inv => exchange_step_inv workers one sixteen s inv label) n).2⟩

theorem trace_inv (workers : Nat) (one : 1 ≤ workers) (sixteen : workers ≤ 16)
    (labels : Nat → Label) (states : Nat → Exchange)
    (trace : Trace workers labels states) (n : Nat) : ExchangeInv workers (states n) := by
  induction n with
  | zero => exact trace.start ▸ initial_exchange_inv workers one sixteen
  | succ n ih => exact (exchange_step_next workers one sixteen (states n) ih (states (n + 1))
      (labels n) (trace.step n)).1

theorem push_task_room (s : Exchange) (worker sh : Nat) (entry : Entry)
    (room : ((s.lanes sh).queues worker).length + 1 < queueCapacity) :
    s.pushTask worker sh entry =
      (s.setLane sh ((s.lanes sh).setQueue worker ((s.lanes sh).queues worker ++
        [entry]))).setWorker worker .idle := by
  simp [Exchange.pushTask, Lane.push, pushQueue, room]

theorem push_task_full (s : Exchange) (worker sh : Nat) (entry : Entry)
    (full : ¬ ((s.lanes sh).queues worker).length + 1 < queueCapacity) : s.pushTask worker sh entry = s := by
  simp [Exchange.pushTask, Lane.push, pushQueue, full]

theorem push_task_lane (s : Exchange) (worker shard : Nat) (entry : Entry) (sh : Nat) :
    LaneStep sh (s.lanes sh) (.push worker) ((s.pushTask worker shard entry).lanes sh) := by
  by_cases room : ((s.lanes shard).queues worker).length + 1 < queueCapacity
  · rw [push_task_room s worker shard entry room]
    by_cases here : sh = shard
    · subst here
      simp only [Exchange.setWorker, set_lane_lane]
      exact .pushed worker entry room
    · simp only [Exchange.setWorker, set_lane_other _ _ _ sh here]
      exact .same _
  · rw [push_task_full s worker shard entry room]
    exact .same _

theorem admit_result (workers sh : Nat) (held : Nat → Option Order) (lane next : Lane)
    (inv : LaneInv workers sh held lane) (worker : Nat)
    (o built : Order) (who : Admission) (member : worker < workers)
    (taken : lane.admitOrder worker o who = some (next, built)) :
    lane.pool.free built.internalId ≠ 0 ∧ ∃ pool, next =
      { lane with
        pool := pool
        shard := { lane.shard with shared := lane.shard.shared.construct built }
        origin := Function.update lane.origin built.internalId who } := by
  unfold Lane.admitOrder at taken
  split at taken
  · cases taken
  · rename_i slot pool given
    cases taken
    obtain ⟨_, _, _, balance⟩ := allocate_spec lane.pool pool worker slot inv.pool
      (inv.slices.2 ▸ member) given
    refine ⟨?_, pool, rfl⟩
    rw [balance slot, if_pos rfl]
    omega

section
variable (workers : Nat) (s : Exchange) (inv : ExchangeInv workers s)
include inv

theorem enter_lane (conn worker : Nat) (req : OuchEnterOrder)
    (ready : s.ready conn = some worker) (sh : Nat) :
    LaneStep sh (s.lanes sh) (.enter conn req) ((s.enter conn worker req).lanes sh) := by
  have member : worker < workers :=
    inv.members worker (List.mem_of_getElem? (ready_some s conn worker ready).1)
  unfold Exchange.enter
  split
  · simp only
    split
    · exact .same _
    · rename_i lane built taken
      by_cases here : sh = (orderOf req (clientIdOf conn) worker).instrumentId % numShards
      · subst here
        simp only [Exchange.setWorker, set_lane_lane]
        obtain ⟨wasFree, pool, rfl⟩ := admit_result workers _ _ _ lane
          (inv.lanes _) worker _ built _ member taken
        exact .admitted conn req built _ pool wasFree
      · simp only [Exchange.setWorker, set_lane_other _ _ _ sh here]
        exact .same _
  · exact .same _

theorem exchange_step_lane (next : Exchange) (label : Label)
    (step : exchangeStep workers s label = .ok next) (sh : Nat) :
    LaneStep sh (s.lanes sh) label (next.lanes sh) := by
  cases label with
  | accept worker =>
      cases step
      split <;> exact .same _
  | close conn =>
      cases step
      split <;> exact .same _
  | enter conn req =>
      cases step
      split
      · rename_i worker ready
        exact enter_lane workers s inv conn worker req ready sh
      · exact .same _
  | record worker =>
      cases step
      unfold Exchange.record
      split <;> exact .same _
  | cancel conn req =>
      cases step
      split
      · unfold Exchange.cancel
        simp only
        split <;> exact .same _
      · exact .same _
  | push worker =>
      cases step
      unfold Exchange.push
      split
      · exact push_task_lane s worker _ _ sh
      · exact push_task_lane s worker _ _ sh
      · exact .same _
  | pop shard worker =>
      obtain ⟨lane, done, result⟩ := (checked_bind_eq_ok _ _ _).mp step
      cases result
      by_cases here : sh = shard
      · subst here
        rw [set_lane_lane]
        exact .popped worker lane done
      · rw [set_lane_other _ _ _ sh here]
        exact .same _
  | work shard =>
      obtain ⟨lane, done, result⟩ := (checked_bind_eq_ok _ _ _).mp step
      cases result
      by_cases here : sh = shard
      · subst here
        rw [set_lane_lane]
        exact .worked lane done
      · rw [set_lane_other _ _ _ sh here]
        exact .same _

end

theorem busy_worker_step (workers : Nat) (s next : Exchange) (label : Label)
    (step : exchangeStep workers s label = .ok next) (worker : Nat)
    (busy : s.gateway worker ≠ .idle) (noRecord : label ≠ .record worker) (noPush : label ≠ .push worker) :
    next.gateway worker = s.gateway worker := by
  cases label with
  | accept other =>
      cases step
      split <;> rfl
  | close conn =>
      cases step
      split <;> rfl
  | enter conn req =>
      cases step
      split
      · rename_i other ready
        have different : worker ≠ other := by
          rintro rfl
          exact busy (ready_some s conn worker ready).2.2
        unfold Exchange.enter
        split
        · simp only
          split
          · rfl
          · exact set_worker_other _ other _ worker different
        · rfl
      · rfl
  | record other =>
      cases step
      have different : worker ≠ other := fun same => noRecord (same ▸ rfl)
      unfold Exchange.record
      split
      · exact set_worker_other _ other _ worker different
      · rfl
  | cancel conn req =>
      cases step
      split
      · rename_i other ready
        have different : worker ≠ other := by
          rintro rfl
          exact busy (ready_some s conn worker ready).2.2
        unfold Exchange.cancel
        simp only
        split
        · exact set_worker_other _ other _ worker different
        · rfl
      · rfl
  | push other =>
      cases step
      have different : worker ≠ other := fun same => noPush (same ▸ rfl)
      have pushed : ∀ sh entry, (s.pushTask other sh entry).gateway worker = s.gateway worker := by
        intro sh entry
        unfold Exchange.pushTask
        split
        · exact set_worker_other _ other _ worker different
        · rfl
      unfold Exchange.push
      split
      · exact pushed _ _
      · exact pushed _ _
      · rfl
  | pop shard other =>
      obtain ⟨lane, done, result⟩ := (checked_bind_eq_ok _ _ _).mp step
      cases result
      rfl
  | work shard =>
      obtain ⟨lane, done, result⟩ := (checked_bind_eq_ok _ _ _).mp step
      cases result
      rfl

end HftExchange
