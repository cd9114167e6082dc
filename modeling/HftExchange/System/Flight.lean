import HftExchange.System.Answered

set_option autoImplicit false

namespace HftExchange

open Base

-- A worker admits the order, or its NEW task is in the queue of the worker and
-- its slot is as the gateway wrote it.
def OnItsWay (s : Exchange) (sh worker : Nat) (o : Order) : Prop :=
  s.held sh worker = some o ∨
    (o.internalId ∈ newSlots ((s.lanes sh).queues worker) ∧ (s.lanes sh).shard.shared.order o.internalId = o)

theorem held_admitting (s : Exchange) (sh worker : Nat) (o : Order) (holds : s.held sh worker = some o) :
    ∃ conn, (s.gateway worker).admitting = some (conn, sh, o) := by
  rw [Exchange.held] at holds
  cases state : s.gateway worker with
  | idle | cancelling =>
      rw [state] at holds
      cases holds
  | allocated conn shard r | recorded conn shard r =>
      rw [state] at holds
      simp only [WorkerPc.held, Option.ite_none_right_eq_some, Option.some.injEq] at holds
      obtain ⟨rfl, rfl⟩ := holds
      exact ⟨conn, rfl⟩

theorem queued_apart (workers sh : Nat) (held : Nat → Option Order) (lane : Lane)
    (inv : LaneInv workers sh held lane) (worker : Nat)
    (slot : Slot) (member : slot ∈ newSlots (lane.queues worker)) :
    (newSlots (lane.queues worker)).count slot = 1 ∧
    handCount lane.engine slot + liveCount lane.shard slot = 0 := by
  have home := (inv.queued worker slot member).home
  have count := List.count_pos_iff.mpr member
  have bound := tally_le_one workers sh held lane inv slot
  rw [Lane.tally, inv.slices.1, home] at bound
  exact ⟨by omega, by omega⟩

section
variable (workers : Nat) (one : 1 ≤ workers) (sixteen : workers ≤ 16) (s next : Exchange)
  (label : Label) (inv : ExchangeInv workers s)
include inv

theorem queued_step (move : Move workers s label next) (sh worker : Nat) (o : Order)
    (member : o.internalId ∈ newSlots ((next.lanes sh).queues worker))
    (stored : (next.lanes sh).shard.shared.order o.internalId = o) :
    OnItsWay s sh worker o := by
  have stays : next.lanes sh = s.lanes sh → OnItsWay s sh worker o :=
    fun same => .inr ⟨same ▸ member, same ▸ stored⟩
  cases move with
  | quiet _ _ lanes session gateway admissions connections => exact stays (by rw [lanes])
  | recorded w conn shard r state lookup => exact stays rfl
  | cancelling conn w req data ready lookup found own => exact stays rfl
  | admitted conn w req shard r lane ready same lanes =>
      by_cases here : sh = shard
      · subst here
        simp only [Exchange.setWorker, set_lane_lane, lanes.queues, lanes.shared] at member stored
        have notQueued := (free_slot_apart workers sh _ _ (inv.lanes sh) r.internalId lanes.wasFree).1
        have other : o.internalId ≠ r.internalId := fun equal => notQueued worker (equal ▸ member)
        exact .inr ⟨member, (construct_other (s.lanes sh) r o.internalId other).symm.trans stored⟩
      · exact stays (set_lane_other s shard lane sh here)
  | pushed w shard entry task =>
      by_cases here : sh = shard
      · subst here
        simp only [Exchange.setWorker, set_lane_lane, Lane.setQueue] at member stored
        by_cases own : worker = w
        · subst own
          rw [Function.update_self, new_slots_append] at member
          rcases List.mem_append.mp member with before | new
          · exact .inr ⟨before, stored⟩
          · cases state : s.gateway worker with
            | recorded conn shard r =>
                rw [state] at task
                cases task
                have same : o.internalId = r.internalId := by simpa [newSlots, newSlot] using new
                have holds : s.held sh worker = some r := by simp [Exchange.held, state, WorkerPc.held]
                have written := ((inv.lanes sh).held worker r holds).2
                rw [same, written] at stored
                exact .inl (stored ▸ holds)
            | cancelling conn shard idx token =>
                rw [state] at task
                cases task
                simp [newSlots, newSlot] at new
            | idle | allocated =>
                rw [state] at task
                cases task
        · rw [Function.update_of_ne own] at member
          exact .inr ⟨member, stored⟩
      · exact stays (set_lane_other s shard _ sh here)
  | engine _ shard lane extra move taken =>
      by_cases here : sh = shard
      · subst here
        simp only [set_lane_lane] at member stored
        obtain ⟨front, queue, count, _⟩ := taken worker
        have before : o.internalId ∈ newSlots ((s.lanes sh).queues worker) := by
          rw [queue, new_slots_append]
          exact List.mem_append_right _ member
        obtain ⟨once, apart⟩ := queued_apart workers sh _ _ (inv.lanes sh) worker o.internalId before
        have home := ((inv.lanes sh).queued worker o.internalId before).home
        have notExtra : extra ≠ some o.internalId := fun popped => by
          have first := count o.internalId home
          have second := List.count_pos_iff.mpr member
          rw [queue, new_slots_append, List.count_append, first, if_pos popped] at once
          omega
        exact .inr ⟨before, (move.1.frame o.internalId apart notExtra).symm.trans stored⟩
      · exact stays (set_lane_other s shard lane sh here)

include one sixteen

theorem on_its_way_step (step : exchangeStep workers s label = .ok next) (sh worker : Nat)
    (o : Order) (here : OnItsWay next sh worker o) :
    OnItsWay s sh worker o ∨ ∃ conn req, label = .enter conn req ∧ s.ready conn = some worker ∧
    Admits s worker req ∧
      o = { orderOf req (clientIdOf conn) worker with internalId := o.internalId } ∧
      next.held sh worker = some o := by
  rcases here with holds | ⟨member, stored⟩
  · obtain ⟨conn, busy⟩ := held_admitting next sh worker o holds
    rcases admitting_step workers one sixteen s next label inv step worker conn sh o busy
      with before | ⟨req, enters, ready, admits, same⟩
    · exact .inl (.inl (admitting_held s worker conn sh o before))
    · exact .inr ⟨conn, req, enters, ready, admits, same, holds⟩
  · exact .inl (queued_step workers s next label inv
      (exchange_step_move workers one sixteen s inv next label step) sh worker o member stored)

theorem popped_gone (sh worker : Nat) (slot : Slot) (conn : Nat) (rest : List Entry)
    (step : exchangeStep workers s (.pop sh worker) = .ok next) (idle : (s.lanes sh).engine = .idle)
    (front : (s.lanes sh).queues worker = ⟨.new slot, conn⟩ :: rest) (o : Order)
    (own : o.internalId = slot) : ¬ OnItsWay next sh worker o := by
  have member : slot ∈ newSlots ((s.lanes sh).queues worker) := by simp [front, newSlots, newSlot]
  obtain ⟨once, _⟩ := queued_apart workers sh _ _ (inv.lanes sh) worker slot member
  rintro (holds | ⟨still, _⟩)
  · have before : s.held sh worker = some o := by
      obtain ⟨lane, _, result⟩ := (checked_bind_eq_ok _ _ _).mp step
      cases result
      exact holds
    refine held_apart workers s inv sh worker o before ?_
    rw [Exchange.ahead, Lane.ahead, own, ((inv.lanes sh).queued worker slot member).home, once]
    omega
  · obtain ⟨_, result, _, _, queues⟩ := pop_idle_inv workers sh _ _
      (inv.lanes sh) worker one sixteen _ rest idle front
    cases (pop_lane workers s next sh worker step).symm.trans result
    rw [queues, Function.update_self, own] at still
    have count := List.count_pos_iff.mpr still
    rw [front, newSlots, List.filterMap_cons] at once
    simp only [newSlot, List.count_cons_self] at once
    rw [newSlots] at count
    omega

end

structure SentAt (labels : Nat → Label) (states : Nat → Exchange) (k n sh worker : Nat)
    (o : Order) : Prop where
  message : ∃ conn req, Takes labels states k conn worker req ∧ Admits (states k) worker req ∧
    o = { orderOf req (clientIdOf conn) worker with internalId := o.internalId }
  held : (states (k + 1)).held sh worker = some o
  earlier : k < n
  since : ∀ j, k < j → j ≤ n → OnItsWay (states j) sh worker o

section
variable (workers : Nat) (one : 1 ≤ workers) (sixteen : workers ≤ 16) (labels : Nat → Label)
  (states : Nat → Exchange)
  (trace : Trace workers labels states)
include one sixteen trace

theorem sent_before (n sh worker : Nat) (o : Order) (here : OnItsWay (states n) sh worker o) :
    ∃ k, SentAt labels states k n sh worker o := by
  induction n with
  | zero =>
      rw [trace.start] at here
      rcases here with holds | ⟨member, _⟩
      · cases holds
      · cases member
  | succ n ih =>
      have inv := trace_inv workers one sixteen labels states trace n
      rcases on_its_way_step workers one sixteen (states n) _ _ inv (trace.step n) sh worker o here
        with before | ⟨conn, req, enters, ready, admits, same, holds⟩
      · obtain ⟨k, message, holds, earlier, since⟩ := ih before
        refine ⟨k, message, holds, by omega, fun j after upTo => ?_⟩
        by_cases last : j = n + 1
        · exact last ▸ here
        · exact since j after (by omega)
      · refine ⟨n, ⟨conn, req, ⟨enters, ready⟩, admits, same⟩, holds, Nat.lt_succ_self n,
          fun j after upTo => ?_⟩
        rwa [show j = n + 1 by omega]

theorem sent_once (k n later sh sh' worker worker' : Nat) (o o' : Order) (slot : Slot) (conn : Nat)
    (rest : List Entry)
    (sent : SentAt labels states k n sh worker o)
    (sent' : SentAt labels states k later sh' worker' o') (pops : labels n = .pop sh worker)
    (idle : ((states n).lanes sh).engine = .idle)
    (front : ((states n).lanes sh).queues worker = ⟨.new slot, conn⟩ :: rest)
    (own : o.internalId = slot) : ¬ n < later := by
  intro before
  obtain ⟨c, req, ⟨enters, ready⟩, _⟩ := sent.message
  obtain ⟨c', req', ⟨enters', ready'⟩, _⟩ := sent'.message
  cases enters.symm.trans enters'
  have sameWorker : worker' = worker := Option.some.inj (ready'.symm.trans ready)
  subst sameWorker
  obtain ⟨d, first⟩ := held_admitting _ sh worker' o sent.held
  obtain ⟨d', second⟩ := held_admitting _ sh' worker' o' sent'.held
  rw [first] at second
  cases second
  have inv := trace_inv workers one sixteen labels states trace n
  have step := trace.step n
  rw [pops] at step
  refine popped_gone workers one sixteen (states n) _ inv sh worker' slot conn rest step idle front
    o own (sent'.since (n + 1) ?_ before)
  exact Nat.lt_succ_of_lt sent.earlier

end

end HftExchange
