import HftExchange.System.Moves

set_option autoImplicit false

namespace HftExchange

open Base

def Lane.ahead (lane : Lane) (part : List Entry) (slot : Slot) : Prop :=
  handCount lane.engine slot + liveCount lane.shard slot + (newSlots part).count slot ≠ 0

def Exchange.ahead (s : Exchange) (workers sh slot : Nat) : Prop :=
    (s.lanes sh).ahead ((s.lanes sh).queues (slot / sliceOf workers)) slot

-- An order that is admitted, or recorded under its token, and still somewhere
-- in the exchange.
def Present (workers : Nat) (s : Exchange) (sh slot : Nat) (o : Order) : Prop :=
  (∃ worker, s.held sh worker = some o ∧ o.internalId = slot) ∨
    (s.ahead workers sh slot ∧ (s.lanes sh).shard.shared.order slot = o)

def Recorded (workers : Nat) (s : Exchange) (sh slot : Nat) (o : Order) : Prop :=
  (∃ worker conn, s.gateway worker = .recorded conn sh o ∧ o.internalId = slot) ∨
    (s.ahead workers sh slot ∧ (s.lanes sh).shard.shared.order slot = o)

def Inherited (workers : Nat) (s next : Exchange) (sh slot : Nat) : Prop :=
  (next.lanes sh).origin slot = (s.lanes sh).origin slot ∧
    ((s.ahead workers sh slot ∧
        ∃ left, (next.lanes sh).shard.shared.order slot =
          { (s.lanes sh).shard.shared.order slot with quantity := left }) ∨
      ∃ worker conn, s.gateway worker = .recorded conn sh ((next.lanes sh).shard.shared.order slot) ∧
        ((next.lanes sh).shard.shared.order slot).internalId = slot)

structure Traced (s : Exchange) (sh slot : Nat) (o : Order) : Prop where
  known : ((s.lanes sh).origin slot).conn < s.connections.length
  serial : ((s.lanes sh).origin slot).serial < s.admissions
  client : o.clientId = clientIdOf ((s.lanes sh).origin slot).conn

theorem new_slots_append (first second : List Entry) :
    newSlots (first ++ second) = newSlots first ++ newSlots second :=
  List.filterMap_append

section
variable (workers sh : Nat) (held : Nat → Option Order) (lane next : Lane)
  (inv : LaneInv workers sh held lane)

include inv in
theorem admit_keeps (o : Order) (who : Admission) (lanes : Admitted lane next o who) (worker : Nat)
    (part : List Entry) (slot : Slot)
    (sub : ∀ entry ∈ part, entry ∈ lane.queues worker) (present : next.ahead part slot) :
    lane.ahead part slot ∧ next.shard.shared.order slot = lane.shard.shared.order slot ∧
    next.origin slot = lane.origin slot := by
  obtain ⟨notQueued, _, notHand, notLive⟩ :=
    free_slot_apart workers sh held lane inv o.internalId lanes.wasFree
  have live : liveCount next.shard slot = liveCount lane.shard slot := by
    rw [liveCount, liveCount, lanes.shared]
    rfl
  rw [Lane.ahead, lanes.engine, live] at present
  have different : slot ≠ o.internalId := by
    rintro rfl
    have none_ : (newSlots part).count o.internalId = 0 := List.count_eq_zero_of_not_mem fun inside => by
      obtain ⟨entry, here, new⟩ := List.mem_filterMap.mp inside
      exact notQueued worker (List.mem_filterMap.mpr ⟨entry, sub entry here, new⟩)
    rw [handCount, if_neg notHand, notLive, none_] at present
    exact present rfl
  refine ⟨present, ?_, ?_⟩
  · simp [lanes.shared, Shared.construct, Shared.order, different]
  · rw [lanes.origin, Function.update_of_ne different]

-- A slot that is still underway or live after a step of the engine was so
-- before, with the same order but for its quantity. The step has taken the
-- front of the queue, if anything.
include inv in
theorem move_keeps (extra : Option Slot) (move : EngineMove lane next extra) (worker : Nat)
    (front part rest : List Entry) (slot : Slot)
    (home : slot / sliceOf workers = worker) (queue : lane.queues worker = front ++ (part ++ rest))
    (taken : (newSlots front).count slot = if extra = some slot then 1 else 0)
    (present : next.ahead part slot) :
    lane.ahead (front ++ part) slot ∧
      ∃ left, next.shard.shared.order slot = { lane.shard.shared.order slot with quantity := left } := by
  obtain ⟨more, _, balance⟩ := move.1.grown
  have sum := balance slot
  have bound := tally_le_one workers sh held lane inv slot
  rw [Lane.tally, inv.slices.1, home, queue, new_slots_append, new_slots_append, List.count_append,
    List.count_append, taken] at bound
  unfold Lane.ahead at present ⊢
  rw [new_slots_append, List.count_append, taken]
  refine ⟨by omega, ?_⟩
  by_cases engine : handCount next.engine slot + liveCount next.shard slot = 0
  · refine ⟨(lane.shard.shared.order slot).quantity, move.1.frame slot (by omega) fun popped => ?_⟩
    rw [if_pos popped] at bound
    omega
  · exact move.1.kept slot engine

theorem push_keeps (worker : Nat) (entry : Entry) (slot : Slot) (other : newSlot entry ≠ some slot)
    (present : (lane.setQueue worker (lane.queues worker ++ [entry])).ahead
      ((lane.setQueue worker (lane.queues worker ++ [entry])).queues (slot / sliceOf workers)) slot) :
    lane.ahead (lane.queues (slot / sliceOf workers)) slot := by
  by_cases home : slot / sliceOf workers = worker
  · have gone : (newSlots [entry]).count slot = 0 := by
      cases new : newSlot entry with
      | none => simp [newSlots, new]
      | some taken =>
          have different : taken ≠ slot := fun same => other (same ▸ new)
          simp [newSlots, new, different]
    simp only [Lane.ahead, Lane.setQueue, home, Function.update_self, new_slots_append,
      List.count_append] at present ⊢
    omega
  · simpa [Lane.ahead, Lane.setQueue, home] using present

end

section
variable (workers : Nat) (s next : Exchange) (label : Label) (inv : ExchangeInv workers s)
  (move : Move workers s label next)
include inv

theorem held_apart (sh worker : Nat) (o : Order) (holds : s.held sh worker = some o) :
    ¬ s.ahead workers sh o.internalId := by
  intro present
  have home := ((inv.lanes sh).held worker o holds).1.home
  have bound := tally_le_one workers sh _ _ (inv.lanes sh) o.internalId
  rw [Lane.tally, (inv.lanes sh).slices.1, home] at bound
  rw [Exchange.ahead, Lane.ahead, home] at present
  have one : heldCount (s.held sh) worker o.internalId = 1 := by simp [heldCount, holds]
  omega

include move

theorem ahead_step (sh slot : Nat) (present : next.ahead workers sh slot) :
    Inherited workers s next sh slot := by
  have stays : next.lanes sh = s.lanes sh → Inherited workers s next sh slot := by
    intro same
    rw [Exchange.ahead, same] at present
    rw [Inherited, same]
    exact ⟨rfl, .inl ⟨present, _, rfl⟩⟩
  cases move with
  | quiet _ _ lanes session gateway admissions connections => exact stays (by rw [lanes])
  | recorded worker conn shard o state lookup => exact stays rfl
  | cancelling conn worker req data ready lookup found own => exact stays rfl
  | admitted conn worker req shard o lane ready same lanes =>
      by_cases here : sh = shard
      · subst here
        simp only [Exchange.ahead, Inherited, Exchange.setWorker, set_lane_lane] at present ⊢
        rw [lanes.queues] at present
        obtain ⟨before, order, origin⟩ := admit_keeps workers sh _ _ lane
          (inv.lanes sh) o _ lanes _ _ slot (fun _ h => h) present
        exact ⟨origin, .inl ⟨before, _, order⟩⟩
      · exact stays (set_lane_other s shard lane sh here)
  | pushed worker shard entry task =>
      by_cases here : sh = shard
      · subst here
        simp only [Exchange.ahead, Inherited, Exchange.setWorker, set_lane_lane] at present ⊢
        refine ⟨rfl, ?_⟩
        by_cases new : newSlot entry = some slot
        · cases state : s.gateway worker with
          | recorded conn sh' o =>
              rw [state] at task
              cases task
              cases new
              have holds : s.held sh worker = some o := by simp [Exchange.held, state, WorkerPc.held]
              have stored : ((s.lanes sh).setQueue worker ((s.lanes sh).queues worker ++
                [⟨.new o.internalId, conn⟩])).shard.shared.order
                  o.internalId = o := ((inv.lanes sh).held worker o holds).2
              exact .inr ⟨worker, conn, by rw [state, stored], by rw [stored]⟩
          | cancelling conn sh' idx token =>
              rw [state] at task
              cases task
              cases new
          | idle | allocated =>
              rw [state] at task
              cases task
        · exact .inl ⟨push_keeps workers _ worker entry slot new present, _, rfl⟩
      · exact stays (set_lane_other s shard _ sh here)
  | engine _ shard lane extra move taken =>
      by_cases here : sh = shard
      · subst here
        simp only [Exchange.ahead, Inherited, set_lane_lane] at present ⊢
        obtain ⟨front, queue, count, _⟩ := taken (slot / sliceOf workers)
        obtain ⟨before, order⟩ := move_keeps workers sh _ _ lane (inv.lanes sh) extra move _ front _
          [] slot rfl (by simpa using queue)
          (count slot rfl) present
        exact ⟨by rw [move.2], .inl ⟨by rwa [queue], order⟩⟩
      · exact stays (set_lane_other s shard lane sh here)

omit inv in
theorem gateway_recorded_step (worker conn sh : Nat) (o : Order)
    (state : next.gateway worker = .recorded conn sh o) :
    s.gateway worker = .recorded conn sh o ∨
    (label = .record worker ∧ s.gateway worker = .allocated conn sh o ∧
      next.session.lookupData o.clientOrderId = ⟨o.internalId, o.instrumentId, o.clientId⟩) := by
  cases move with
  | quiet _ _ lanes session gateway admissions connections => exact .inl (gateway ▸ state)
  | engine _ shard lane extra move taken => exact .inl state
  | recorded w c shard r state' lookup =>
      by_cases here : worker = w
      · subst here
        simp only [set_worker_worker, WorkerPc.recorded.injEq] at state
        obtain ⟨rfl, rfl, rfl⟩ := state
        exact .inr ⟨rfl, state', by rw [lookup, if_pos rfl]⟩
      · simp only [set_worker_other _ _ _ worker here] at state
        exact .inl state
  | admitted c w req shard r lane ready same lanes =>
      exact .inl (unmoved_worker (fun pc => pc = .recorded conn sh o) (s.setLane shard lane) w
        worker _ (by simp) state).2
  | cancelling c w req data ready lookup found own =>
      exact .inl (unmoved_worker (fun pc => pc = .recorded conn sh o) s w worker _ (by simp) state).2
  | pushed w shard entry task =>
      exact .inl (unmoved_worker (fun pc => pc = .recorded conn sh o) (s.setLane shard _) w worker _
        (by simp) state).2

theorem held_step (sh worker : Nat) (o : Order) (holds : next.held sh worker = some o) :
    (s.held sh worker = some o ∧ (next.lanes sh).origin o.internalId = (s.lanes sh).origin o.internalId) ∨
      ∃ conn, conn < s.connections.length ∧ o.clientId = clientIdOf conn ∧
      next.admissions = s.admissions + 1 ∧
        (next.lanes sh).origin o.internalId = ⟨conn, s.admissions⟩ := by
  cases move with
  | quiet _ _ lanes session gateway admissions connections =>
      rw [Exchange.held, gateway] at holds
      exact .inl ⟨holds, by rw [lanes]⟩
  | admitted conn w req shard r lane ready same lanes =>
      obtain ⟨known, _, idle⟩ := ready_some s conn w ready
      by_cases own : worker = w
      · subst own
        simp only [Exchange.held, set_worker_worker, WorkerPc.held, Option.ite_none_right_eq_some,
          Option.some.injEq] at holds
        obtain ⟨rfl, rfl⟩ := holds
        refine .inr ⟨conn, (List.getElem?_eq_some_iff.mp known).1, by rw [same]; rfl, rfl, ?_⟩
        simp only [Exchange.setWorker, set_lane_lane, lanes.origin, Function.update_self]
      · simp only [Exchange.held, set_worker_other _ _ _ worker own] at holds
        have holds : s.held sh worker = some o := holds
        refine .inl ⟨holds, ?_⟩
        by_cases here : sh = shard
        · subst here
          have apart := (free_slot_apart workers sh _ _ (inv.lanes sh) r.internalId
            lanes.wasFree).2.1 worker o holds
          simp only [Exchange.setWorker, set_lane_lane, lanes.origin, Function.update_of_ne apart]
        · simp only [Exchange.setWorker, set_lane_other _ _ _ sh here]
  | recorded w conn shard r state lookup =>
      have same := held_same s w (.recorded conn shard r) sh (by rw [state]; rfl)
      exact .inl ⟨by rw [← same]; exact holds, rfl⟩
  | cancelling conn w req data ready lookup found own =>
      obtain ⟨_, _, idle⟩ := ready_some s conn w ready
      rw [held_same s w _ sh (by rw [idle]; rfl)] at holds
      exact .inl ⟨holds, rfl⟩
  | pushed w shard entry task =>
      refine .inl ⟨?_, ?_⟩
      · by_cases here : worker = w
        · subst here
          simp [Exchange.held, Exchange.setWorker, WorkerPc.held] at holds
        · simpa [Exchange.held, Exchange.setWorker, Exchange.setLane, here] using holds
      · by_cases here : sh = shard
        · subst here
          simp only [Exchange.setWorker, set_lane_lane, Lane.setQueue]
        · simp only [Exchange.setWorker, set_lane_other _ _ _ sh here]
  | engine _ shard lane extra move taken =>
      refine .inl ⟨holds, ?_⟩
      by_cases here : sh = shard
      · subst here
        rw [set_lane_lane, move.2]
      · rw [set_lane_other _ _ _ sh here]

theorem recorded_step (sh slot : Nat) (o : Order) (present : Recorded workers next sh slot o) :
    (∃ before left, Recorded workers s sh slot before ∧ o = { before with quantity := left }) ∨
      ∃ worker conn, label = .record worker ∧ s.gateway worker = .allocated conn sh o ∧ o.internalId = slot ∧
        next.session.lookupData o.clientOrderId = ⟨o.internalId, o.instrumentId, o.clientId⟩ := by
  rcases present with ⟨worker, conn, state, self⟩ | ⟨ahead, rfl⟩
  · rcases gateway_recorded_step workers s next label move worker conn sh o state
      with before | ⟨step, before, lookup⟩
    · exact .inl ⟨o, o.quantity, .inl ⟨worker, conn, before, self⟩, rfl⟩
    · exact .inr ⟨worker, conn, step, before, self, lookup⟩
  · obtain ⟨_, ⟨before, left, order⟩ | ⟨worker, conn, before, self⟩⟩ :=
      ahead_step workers s next label inv move sh slot ahead
    · exact .inl ⟨_, left, .inr ⟨before, rfl⟩, order⟩
    · exact .inl ⟨_, _, .inl ⟨worker, conn, before, self⟩, rfl⟩

theorem traced_step (traced : ∀ sh slot o, Present workers s sh slot o → Traced s sh slot o)
    (sh slot : Nat) (o : Order)
    (present : Present workers next sh slot o) : Traced next sh slot o := by
  obtain ⟨more, grown⟩ := move_connections workers s next label move
  have longer : s.connections.length ≤ next.connections.length := by
    rw [grown, List.length_append]
    exact Nat.le_add_right _ _
  have later := move_admissions workers s next label move
  have keeps : (next.lanes sh).origin slot = (s.lanes sh).origin slot → Traced s sh slot o →
      Traced next sh slot o := by
    rintro same ⟨known, serial, client⟩
    rw [← same] at known serial client
    exact ⟨Nat.lt_of_lt_of_le known longer, Nat.lt_of_lt_of_le serial later, client⟩
  rcases present with ⟨worker, holds, rfl⟩ | ⟨ahead, rfl⟩
  · rcases held_step workers s next label inv move sh worker o holds
      with ⟨before, same⟩ | ⟨conn, known, client, counted, origin⟩
    · exact keeps same (traced sh _ o (.inl ⟨worker, before, rfl⟩))
    · exact ⟨by rw [origin]; exact Nat.lt_of_lt_of_le known longer,
        by rw [origin, counted]; exact Nat.lt_succ_self _, by rw [origin]; exact client⟩
  · obtain ⟨same, ⟨before, left, order⟩ | ⟨worker, conn, state, self⟩⟩ :=
      ahead_step workers s next label inv move sh slot ahead
    · obtain ⟨known, serial, client⟩ := traced sh slot _ (.inr ⟨before, rfl⟩)
      exact keeps same ⟨known, serial, by rw [order]; exact client⟩
    · exact keeps same (traced sh slot _ (.inl ⟨worker, by simp [Exchange.held, state, WorkerPc.held], self⟩))

end

theorem exchange_run_traced (workers : Nat) (one : 1 ≤ workers) (sixteen : workers ≤ 16)
    (labels : List Label) (s : Exchange)
    (run : ExchangeRun workers labels s) : ∀ sh slot o, Present workers s sh slot o → Traced s sh slot o := by
  refine (run_invariant (fun s => ExchangeInv workers s ∧ ∀ sh slot o, Present workers s sh slot o →
    Traced s sh slot o)
    ⟨initial_exchange_inv workers one sixteen, ?_⟩ ?_ labels s run).2
  · rintro sh slot o (⟨worker, holds, _⟩ | ⟨ahead, _⟩)
    · cases holds
    · exact absurd rfl ahead
  · rintro state label next ⟨inv, traced⟩ ⟨_, step⟩
    obtain ⟨inv', move⟩ := exchange_step_next workers one sixteen state inv next label step
    exact ⟨inv', traced_step workers state next label inv move traced⟩

end HftExchange
