import HftExchange.System.Domain
import HftExchange.System.LaneProgress

set_option autoImplicit false

namespace HftExchange

open Base

theorem work_lane (workers : Nat) (s next : Exchange) (sh : Nat)
    (step : exchangeStep workers s (.work sh) = .ok next) :
    (s.lanes sh).work = .ok (next.lanes sh) := by
  obtain ⟨lane, done, result⟩ := (checked_bind_eq_ok _ _ _).mp step
  cases result
  rw [set_lane_lane]
  exact done

theorem pop_lane (workers : Nat) (s next : Exchange) (sh worker : Nat)
    (step : exchangeStep workers s (.pop sh worker) = .ok next) :
    (s.lanes sh).pop worker = .ok (next.lanes sh) := by
  obtain ⟨lane, done, result⟩ := (checked_bind_eq_ok _ _ _).mp step
  cases result
  rw [set_lane_lane]
  exact done

theorem pop_queues (lane next : Lane) (worker : Nat) (done : lane.pop worker = .ok next) :
    next.origin = lane.origin ∧ (next.queues = lane.queues ∧ (lane.engine ≠ .idle ∨ lane.queues worker = []) ∨
      ∃ entry rest, lane.queues worker = entry :: rest ∧
      next.queues = Function.update lane.queues worker rest) := by
  unfold Lane.pop at done
  split at done
  · rename_i entry rest idle front
    obtain ⟨⟨shard, engine⟩, _, moved⟩ := (checked_bind_eq_ok _ _ _).mp done
    obtain ⟨_, _, queues, origin⟩ := advance_engine _ next shard engine moved
    exact ⟨origin, .inr ⟨entry, rest, front, queues⟩⟩
  · rename_i other
    cases done
    refine ⟨rfl, .inl ⟨rfl, ?_⟩⟩
    by_contra both
    push Not at both
    obtain ⟨entry, rest, front⟩ := List.exists_cons_of_ne_nil both.2
    exact other entry rest both.1 front

theorem work_queues (lane next : Lane) (done : lane.work = .ok next) :
    next.queues = lane.queues ∧ next.origin = lane.origin := by
  obtain ⟨⟨shard, engine⟩, _, moved⟩ := (checked_bind_eq_ok _ _ _).mp done
  obtain ⟨_, _, queues, origin⟩ := advance_engine lane next shard engine moved
  exact ⟨queues, origin⟩

theorem lane_step_origin (sh : Nat) (lane next : Lane) (label : Label)
    (step : LaneStep sh lane label next) (slot : Slot)
    (taken : lane.pool.free slot = 0) : next.origin slot = lane.origin slot := by
  cases step with
  | same _ => rfl
  | admitted conn req o who pool wasFree =>
      have other : slot ≠ o.internalId := by
        rintro rfl
        exact wasFree taken
      exact Function.update_of_ne other ..
  | pushed worker entry room => rfl
  | popped worker _ done => rw [(pop_queues lane next worker done).1]
  | worked _ done => rw [(work_queues lane next done).2]

theorem lane_step_queue (sh : Nat) (lane next : Lane) (label : Label)
    (step : LaneStep sh lane label next) (worker : Nat)
    (noPush : label ≠ .push worker) : (next.queues worker).length ≤ (lane.queues worker).length := by
  cases step with
  | same _ => exact Nat.le_refl _
  | admitted conn req o who pool wasFree => exact Nat.le_refl _
  | pushed other entry room =>
      have different : worker ≠ other := fun same => noPush (same ▸ rfl)
      simp [Lane.setQueue, different]
  | popped other _ done =>
      rcases (pop_queues lane next other done).2 with ⟨same, _⟩ | ⟨entry, rest, front, queues⟩
      · rw [same]
      · by_cases here : worker = other
        · subst here
          simp [queues, front]
        · simp [queues, here]
  | worked _ done => rw [(work_queues lane next done).1]

section
variable (workers : Nat) (s next : Exchange) (label : Label)
  (step : exchangeStep workers s label = .ok next) (worker conn sh : Nat) (o : Order)
include step

theorem allocated_step (state : s.gateway worker = .allocated conn sh o) :
    (label = .record worker ∧ next.gateway worker = .recorded conn sh o) ∨
      (label ≠ .record worker ∧ next.gateway worker = .allocated conn sh o) := by
  by_cases records : label = .record worker
  · subst records
    cases step
    exact .inl ⟨rfl, by simp [Exchange.record, state, Exchange.setWorker]⟩
  · refine .inr ⟨records, ?_⟩
    by_cases pushes : label = .push worker
    · subst pushes
      cases step
      simp [Exchange.push, state]
    · exact (busy_worker_step workers s next label step worker (by simp [state]) records pushes).trans state

theorem recorded_push (state : s.gateway worker = .recorded conn sh o) (pushes : label = .push worker)
    (room : ((s.lanes sh).queues worker).length + 1 < queueCapacity) :
    next.gateway worker = .idle ∧
      next.lanes sh = (s.lanes sh).setQueue worker
      ((s.lanes sh).queues worker ++ [⟨.new o.internalId, conn⟩]) := by
  subst pushes
  cases step
  simp only [Exchange.push, state, push_task_room s worker sh _ room]
  exact ⟨set_worker_worker .., set_lane_lane ..⟩

theorem recorded_stays (state : s.gateway worker = .recorded conn sh o)
    (waits : label ≠ .push worker ∨ ¬ ((s.lanes sh).queues worker).length + 1 < queueCapacity) :
    next.gateway worker = .recorded conn sh o := by
  by_cases pushes : label = .push worker
  · subst pushes
    have full := waits.resolve_left (by simp)
    cases step
    simp [Exchange.push, state, push_task_full s worker sh _ full]
  · by_cases records : label = .record worker
    · subst records
      cases step
      simp [Exchange.record, state]
    · exact (busy_worker_step workers s next label step worker (by simp [state]) records pushes).trans state

end

section
variable (labels : Nat → Label) (states : Nat → Exchange)

-- A message that is taken at moment n is answered by a reject at once, or by a
-- record of its order while the slot is still the order's own.
def Answered (n : Nat) : Prop :=
  ∀ conn worker req, Takes labels states n conn worker req →
    (states (n + 1)).rejects worker = (states n).rejects worker ++ [rejectOf req] ∨
    ∃ sh o m, (states (n + 1)).gateway worker = .allocated conn sh o ∧ n < m ∧
      ((states m).lanes sh).origin o.internalId = ⟨conn, (states n).admissions⟩ ∧
      Reported ((states m).lanes sh) ((states (m + 1)).lanes sh) o

structure AtGateway (start conn worker : Nat) (req : OuchEnterOrder) (sh : Nat) (o : Order)
    (who : Admission) (pc : WorkerPc) (m : Nat) :
    Prop where
  serves : ServesSince labels states start m conn worker req
  state : (states m).gateway worker = pc
  origin : ((states m).lanes sh).origin o.internalId = who

structure AtQueue (start conn worker sh : Nat) (o : Order) (who : Admission) (place m : Nat) : Prop where
  later : start < m
  line : InLine ((states m).lanes sh) worker conn o.internalId place
  order : ((states m).lanes sh).shard.shared.order o.internalId = o
  origin : ((states m).lanes sh).origin o.internalId = who

structure AtEngine (start sh : Nat) (o : Order) (who : Admission) (rank m : Nat) : Prop where
  later : start < m
  busy : Busy ((states m).lanes sh) o.internalId rank
  order : ((states m).lanes sh).shard.shared.order o.internalId = o
  origin : ((states m).lanes sh).origin o.internalId = who

def ReportedBy (start sh : Nat) (o : Order) (who : Admission) (m : Nat) : Prop :=
  ∃ j, start < j ∧ j < m ∧ ((states j).lanes sh).origin o.internalId = who ∧
    Reported ((states j).lanes sh) ((states (j + 1)).lanes sh) o

def EnqueuedBy (start conn worker : Nat) (req : OuchEnterOrder) (sh : Nat) (o : Order) (m : Nat) : Prop :=
  ∃ j, j < m ∧ ServesSince labels states start j conn worker req ∧ Enqueues labels states j worker conn sh o

end

section
variable (workers : Nat) (one : 1 ≤ workers) (sixteen : workers ≤ 16) (labels : Nat → Label)
  (states : Nat → Exchange)
  (trace : Trace workers labels states) (fair : Fair workers labels states) (sh : Nat)
    (knownShard : sh < numShards)
include one sixteen trace

theorem trace_lane_step (n : Nat) :
    LaneStep sh ((states n).lanes sh) (labels n) ((states (n + 1)).lanes sh) :=
  exchange_step_lane workers (states n) (trace_inv workers one sixteen labels states trace n) _ _
    (trace.step n) sh

include fair knownShard

theorem engine_recurs_idle : Recurs fun n => ((states n).lanes sh).engine = .idle := by
  have ends : ∀ rank, LeadsTo (fun n => ∃ slot, Busy ((states n).lanes sh) slot rank) fun n =>
      ((states n).lanes sh).engine = .idle := by
    refine leads_by_rank _ _ fun rank => ?_
    -- the step of the engine, whenever it comes
    have worked : ∀ n slot, Busy ((states n).lanes sh) slot rank → ((states n).lanes sh).work = .ok
      ((states (n + 1)).lanes sh) →
        ((states (n + 1)).lanes sh).engine = .idle ∨ ∃ less, less < rank ∧
          ∃ slot, Busy ((states (n + 1)).lanes sh) slot less := by
      intro n slot busy done
      rcases (busy_work _ _ slot rank busy done).2 with ⟨less, smaller, busy', _⟩ | ⟨idle, _⟩
      · exact .inr ⟨less, smaller, slot, busy'⟩
      · exact .inl idle
    refine leads_by_step (fun n => labels n = .work sh) (fair.works sh knownShard) ?_ ?_
    · rintro n ⟨slot, busy⟩
      have inv := (trace_inv workers one sixteen labels states trace n).lanes sh
      rcases busy_stays workers sh _ _ _ inv _
        (trace_lane_step workers one sixteen labels states trace sh n) slot rank busy with
        ⟨busy', _⟩ | done
      · exact .inl ⟨slot, busy'⟩
      · exact .inr (worked n slot busy done)
    · rintro n ⟨slot, busy⟩ label
      have step := trace.step n
      rw [label] at step
      exact worked n slot busy (work_lane workers _ _ sh step)
  intro n
  rcases engine_busy_or_idle workers sh _ _
    ((trace_inv workers one sixteen labels states trace n).lanes sh) with idle | ⟨slot, rank, busy⟩
  · exact ⟨n, Nat.le_refl n, idle⟩
  · exact ends rank n ⟨slot, busy⟩

variable (start conn worker : Nat) (req : OuchEnterOrder) (o : Order) (who : Admission)

theorem engine_leads_reported (live : 0 < o.quantity) (rank : Nat) :
    LeadsTo (AtEngine states start sh o who rank) (ReportedBy states start sh o who) := by
  refine leads_by_rank (AtEngine states start sh o who) _ (fun rank => ?_) rank
  have worked : ∀ n, AtEngine states start sh o who rank n → ((states n).lanes sh).work = .ok
    ((states (n + 1)).lanes sh) →
      ReportedBy states start sh o who (n + 1) ∨ ∃ less, less < rank ∧
        AtEngine states start sh o who less (n + 1) := by
    intro n here done
    obtain ⟨origin, outcome⟩ := busy_work _ _ _ rank here.busy done
    rw [here.order] at outcome
    have named : Reported ((states n).lanes sh) ((states (n + 1)).lanes sh) o →
        ReportedBy states start sh o who (n + 1) :=
      fun reported => ⟨n, here.later, Nat.lt_succ_self n, here.origin, reported⟩
    rcases outcome with ⟨less, smaller, busy, kept | reported⟩ | ⟨_, reported⟩
    · exact .inr ⟨less, smaller, by have := here.later; omega, busy, kept,
        (congrFun origin _).trans here.origin⟩
    · exact .inl (named reported)
    · exact .inl (named (reported live))
  refine leads_by_step (fun n => labels n = .work sh) (fair.works sh knownShard) ?_ ?_
  · intro n here
    have inv := (trace_inv workers one sixteen labels states trace n).lanes sh
    rcases busy_stays workers sh _ _ _ inv _
      (trace_lane_step workers one sixteen labels states trace sh n) _ rank here.busy with
      ⟨busy, order, origin⟩ | done
    · exact .inl ⟨Nat.lt_succ_of_lt here.later, busy, order.trans here.order, origin.trans here.origin⟩
    · exact .inr (worked n here done)
  · intro n here label
    have step := trace.step n
    rw [label] at step
    exact worked n here (work_lane workers _ _ sh step)

variable (member : worker < workers)
include member

theorem queue_leads_engine (price : o.price < maxPrice) (place : Nat) :
    LeadsTo (AtQueue states start conn worker sh o who place) fun n => ∃ rank,
      AtEngine states start sh o who rank n := by
  refine leads_by_rank (AtQueue states start conn worker sh o who) _ (fun place => ?_) place
  have popped : ∀ n, AtQueue states start conn worker sh o who place n →
    ((states n).lanes sh).engine = .idle →
      ((states n).lanes sh).pop worker = .ok ((states (n + 1)).lanes sh) →
      (∃ rank, AtEngine states start sh o who rank (n + 1)) ∨ ∃ less, less < place ∧
        AtQueue states start conn worker sh o who less (n + 1) := by
    intro n here idle done
    have inv := (trace_inv workers one sixteen labels states trace n).lanes sh
    have line := here.line
    have later := here.later
    cases place with
    | zero =>
        obtain ⟨⟨rank, busy⟩, order, origin⟩ :=
          waiting_start workers one sixteen sh _ _ _ inv worker conn _ idle done line
          (by rw [here.order]; exact price)
        exact .inl ⟨rank, by omega, busy, order.trans here.order, origin.trans here.origin⟩
    | succ place =>
        obtain ⟨line', order, origin⟩ :=
          waiting_pop workers one sixteen sh _ _ _ inv worker conn _ place idle done line
        exact .inr ⟨place, Nat.lt_succ_self place, by omega, line', order.trans here.order,
          origin.trans here.origin⟩
  refine leads_by_step _ (fair.pops sh knownShard worker member
    (engine_recurs_idle workers one sixteen labels states trace fair sh knownShard)) ?_ ?_
  · intro n here
    have inv := (trace_inv workers one sixteen labels states trace n).lanes sh
    rcases waiting_stays workers one sixteen sh _ _ _ inv _
      (trace_lane_step workers one sixteen labels states trace sh n) worker conn _ place
      here.line with ⟨line, order, origin⟩ | ⟨idle, done⟩
    · exact .inl ⟨Nat.lt_succ_of_lt here.later, line, order.trans here.order, origin.trans here.origin⟩
    · exact .inr (popped n here idle done)
  · rintro n here ⟨label, idle⟩
    have step := trace.step n
    rw [label] at step
    exact popped n here idle (pop_lane workers _ _ sh worker step)

end

end HftExchange
