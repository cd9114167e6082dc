import HftExchange.System.CancelSafety

set_option autoImplicit false

namespace HftExchange

open Base

def CancelDue (s : Exchange) (sh slot token worker conn : Nat) : Prop :=
  liveCount (s.lanes sh).shard slot ≠ 0 ∧ ((s.lanes sh).shard.shared.order slot).clientOrderId = token ∧
    (s.gateway worker = .cancelling conn sh slot token ∨
      ⟨.cancel slot token, conn⟩ ∈ (s.lanes sh).queues worker)

def Departed (s : Exchange) (sh slot : Nat) (who : Admission) : Prop :=
  (s.lanes sh).origin slot ≠ who ∨ (s.lanes sh).pool.free slot ≠ 0

section
variable (workers sh : Nat) (held : Nat → Option Order) (lane next : Lane)
  (inv : LaneInv workers sh held lane)
  (inv' : LaneInv workers sh held next) (extra : Option Slot) (move : EngineMove lane next extra)
  (taken : ∀ worker, Taken workers lane next extra worker) (slot : Nat)
include inv inv' taken

theorem engine_tally :
    (next.pool.free slot + heldCount held (slot / sliceOf workers) slot +
    (newSlots (next.queues (slot / sliceOf workers))).count slot) + (handCount next.engine
      slot + liveCount next.shard slot) =
    (lane.pool.free slot + heldCount held (slot / sliceOf workers) slot +
      (newSlots (next.queues (slot / sliceOf workers))).count slot) +
      ((if extra = some slot then 1 else 0) + (handCount lane.engine slot + liveCount lane.shard slot)) := by
  obtain ⟨front, queue, count, _⟩ := taken (slot / sliceOf workers)
  have before := inv.tally slot
  have after := inv'.tally slot
  rw [Lane.tally, inv.slices.1, queue, new_slots_append, List.count_append, count slot rfl] at before
  rw [Lane.tally, inv'.slices.1] at after
  omega

include move

-- An order that the engine takes from its book goes back to the pool: it is
-- never matched again.
theorem engine_settles (live : liveCount lane.shard slot ≠ 0) :
    liveCount next.shard slot ≠ 0 ∨ next.pool.free slot ≠ 0 := by
  have moved := engine_tally workers sh held lane next inv inv' extra taken slot
  have bound := tally_le_one workers sh held lane inv slot
  obtain ⟨front, queue, count, _⟩ := taken (slot / sliceOf workers)
  rw [Lane.tally, inv.slices.1, queue, new_slots_append, List.count_append, count slot rfl] at bound
  have noHand : handCount next.engine slot = 0 := by
    rw [handCount, if_neg]
    intro hand
    rcases move.1.hand slot hand with before | popped
    · rw [handCount, if_pos before] at bound
      omega
    · rw [if_pos popped] at bound
      omega
  omega

theorem engine_frees (free : lane.pool.free slot ≠ 0) : next.pool.free slot ≠ 0 := by
  have moved := engine_tally workers sh held lane next inv inv' extra taken slot
  have bound := tally_le_one workers sh held lane inv slot
  obtain ⟨front, queue, count, _⟩ := taken (slot / sliceOf workers)
  rw [Lane.tally, inv.slices.1, queue, new_slots_append, List.count_append, count slot rfl] at bound
  obtain ⟨more, _, balance⟩ := move.1.grown
  have sum := balance slot
  omega

end

section
variable (workers : Nat) (s next : Exchange) (label : Label) (inv : ExchangeInv workers s)
  (inv' : ExchangeInv workers next)
  (move : Move workers s label next) (sh slot : Nat)
include inv inv' move

theorem departed_step (who : Admission) (earlier : who.serial < s.admissions)
    (gone : Departed s sh slot who) :
    Departed next sh slot who := by
  cases move with
  | quiet _ _ lanes session gateway admissions connections =>
      rw [Departed, lanes]
      exact gone
  | admitted conn worker req shard o lane ready same lanes =>
      by_cases here : sh = shard
      · subst here
        simp only [Departed, Exchange.setWorker, set_lane_lane]
        by_cases taken : slot = o.internalId
        · subst taken
          refine .inl ?_
          rw [lanes.origin, Function.update_self]
          rintro rfl
          exact Nat.lt_irrefl _ earlier
        · rcases gone with other | free
          · exact .inl (by rwa [lanes.origin, Function.update_of_ne taken])
          · exact .inr (by rwa [lanes.others slot taken])
      · simpa only [Departed, Exchange.setWorker, set_lane_other _ _ _ sh here] using gone
  | recorded worker conn shard o state lookup => exact gone
  | cancelling conn worker req data ready lookup found own => exact gone
  | pushed worker shard entry task =>
      by_cases here : sh = shard
      · subst here
        simp only [Departed, Exchange.setWorker, set_lane_lane]
        exact gone
      · simpa only [Departed, Exchange.setWorker, set_lane_other _ _ _ sh here] using gone
  | engine _ shard lane extra move taken =>
      by_cases here : sh = shard
      · subst here
        have after := inv'.lanes sh
        rw [set_lane_lane] at after
        simp only [Departed, set_lane_lane, move.2]
        rcases gone with other | free
        · exact .inl other
        · exact .inr (engine_frees workers sh _ _ lane (inv.lanes sh) after extra move taken slot free)
      · simpa only [Departed, set_lane_other _ _ _ sh here] using gone

theorem cancel_due_step (token worker conn : Nat) (who : Admission)
    (due : CancelDue s sh slot token worker conn) :
    CancelDue next sh slot token worker conn ∨ Departed next sh slot who := by
  obtain ⟨live, named, way⟩ := due
  cases move with
  | quiet _ _ lanes session gateway admissions connections =>
      rw [CancelDue, lanes, gateway]
      exact .inl ⟨live, named, way⟩
  | admitted c w req shard o lane ready same lanes =>
      obtain ⟨_, _, idle⟩ := ready_some s c w ready
      have way' : (Function.update s.gateway w (.allocated c shard o)) worker =
        .cancelling conn sh slot token ∨
          ⟨.cancel slot token, conn⟩ ∈ (s.lanes sh).queues worker := by
        rcases way with state | queued
        · by_cases own : worker = w
          · rw [own, idle] at state
            cases state
          · exact .inl (by rwa [Function.update_of_ne own])
        · exact .inr queued
      by_cases here : sh = shard
      · subst here
        simp only [CancelDue, Exchange.setWorker, set_lane_lane, lanes.queues, lanes.shared, liveCount]
        have notLive := (free_slot_apart workers sh _ _ (inv.lanes sh) o.internalId lanes.wasFree).2.2.2
        have different : slot ≠ o.internalId := by
          rintro rfl
          exact live notLive
        refine .inl ⟨live, ?_, way'⟩
        simpa [Shared.construct, Shared.order, different] using named
      · simp only [CancelDue, Exchange.setWorker, set_lane_other _ _ _ sh here]
        exact .inl ⟨live, named, way'⟩
  | recorded w c shard o state lookup =>
      refine .inl ⟨live, named, way.imp_left fun pending => ?_⟩
      have own : worker ≠ w := by
        rintro rfl
        rw [state] at pending
        cases pending
      rw [← pending]
      exact set_worker_other _ _ _ worker own
  | cancelling c w req data ready lookup found own =>
      obtain ⟨_, _, idle⟩ := ready_some s c w ready
      refine .inl ⟨live, named, way.imp_left fun pending => ?_⟩
      have own : worker ≠ w := by
        rintro rfl
        rw [idle] at pending
        cases pending
      rw [← pending]
      exact set_worker_other _ _ _ worker own
  | pushed w shard entry task =>
      left
      by_cases own : worker = w
      · subst own
        have queued : sh = shard → ⟨.cancel slot token, conn⟩ ∈ (s.lanes shard).queues worker ++ [entry] := by
          rintro rfl
          rcases way with pending | queued
          · rw [pending] at task
            cases task
            simp
          · exact List.mem_append_left _ queued
        by_cases here : sh = shard
        · subst here
          simp only [CancelDue, Exchange.setWorker, set_lane_lane, Lane.setQueue, Function.update_self]
          exact ⟨live, named, .inr (queued rfl)⟩
        · simp only [CancelDue, Exchange.setWorker, set_lane_other _ _ _ sh here]
          refine ⟨live, named, .inr ?_⟩
          rcases way with pending | queued
          · rw [pending] at task
            cases task
            exact absurd rfl here
          · exact queued
      · by_cases here : sh = shard
        · subst here
          simp only [CancelDue, Exchange.setWorker, set_lane_lane, Lane.setQueue, Function.update_of_ne own]
          exact ⟨live, named, way⟩
        · simp only [CancelDue, Exchange.setWorker, set_lane_other _ _ _ sh here, Function.update_of_ne own]
          exact ⟨live, named, way⟩
  | engine _ shard lane extra move taken =>
      by_cases here : sh = shard
      · subst here
        have after := inv'.lanes sh
        rw [set_lane_lane] at after
        simp only [CancelDue, Departed, set_lane_lane]
        rcases engine_settles workers sh _ _ lane (inv.lanes sh) after extra move taken slot live
          with still | free
        · obtain ⟨left, order⟩ := move.1.kept slot (by omega)
          refine .inl ⟨still, by rw [order]; exact named, way.imp_right fun queued => ?_⟩
          obtain ⟨front, queue, _, answered⟩ := taken worker
          rw [queue] at queued
          rcases List.mem_append.mp queued with popped | waiting
          · exact absurd (answered slot token conn popped named) still
          · exact waiting
        · exact .inr (.inr free)
      · simp only [CancelDue, Departed, set_lane_other _ _ _ sh here]
        exact .inl ⟨live, named, way⟩

end

theorem cancel_run (workers : Nat) (one : 1 ≤ workers) (sixteen : workers ≤ 16) (s final : Exchange)
    (labels : List Label)
    (inv : ExchangeInv workers s)
    (run : Run s (Guarded (fun _ _ => True) (exchangeStep workers)) labels final)
    (sh slot token worker conn : Nat) (who : Admission) (earlier : who.serial < s.admissions)
    (due : CancelDue s sh slot token worker conn) :
    ExchangeInv workers final ∧ (CancelDue final sh slot token worker conn ∨ Departed final sh slot who) := by
  refine (fun ⟨inv, _, either⟩ => ⟨inv, either⟩)
    (run_invariant (fun final => ExchangeInv workers final ∧ who.serial < final.admissions ∧
    (CancelDue final sh slot token worker conn ∨ Departed final sh slot who)) ⟨inv, earlier,
      .inl due⟩ ?_ labels final run)
  rintro state label next ⟨inv, earlier, either⟩ ⟨_, step⟩
  obtain ⟨inv', move⟩ := exchange_step_next workers one sixteen state inv next label step
  refine ⟨inv', Nat.lt_of_lt_of_le earlier (move_admissions workers state next label move), ?_⟩
  rcases either with due | gone
  · exact cancel_due_step workers state next label inv inv' move sh slot token worker conn who due
  · exact .inr (departed_step workers state next label inv inv' move sh slot who earlier gone)

end HftExchange
