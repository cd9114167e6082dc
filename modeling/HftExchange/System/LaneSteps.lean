import HftExchange.System.Lane

set_option autoImplicit false

namespace HftExchange

open Base

section
variable (workers sh : Nat) (held : Nat → Option Order) (lane : Lane) (inv : LaneInv workers sh held lane)
include inv

theorem advance_inv (queues : Nat → List Entry) (extra : Option Slot) (shard : Shard) (engine : EnginePc)
    (popped : ∀ slot : Nat, (newSlots (lane.queues (slot / lane.pool.sliceCapacity))).count slot =
      (newSlots (queues (slot / lane.pool.sliceCapacity))).count slot + if extra = some slot then 1 else 0)
    (subset : ∀ worker, ∀ entry ∈ queues worker, entry ∈ lane.queues worker)
    (effect : EngineEffect lane.shard lane.engine extra shard engine) :
    ∃ next, Lane.advance { lane with queues := queues } shard engine = .ok next ∧
    LaneInv workers sh held next ∧
      next.shard = shard ∧ next.engine = engine ∧ next.queues = queues ∧ next.origin = lane.origin := by
  obtain ⟨more, out, balance⟩ := effect.grown
  have total : ∀ slot : Nat, lane.pool.free slot + heldCount held (slot / lane.pool.sliceCapacity) slot +
      (newSlots (queues (slot / lane.pool.sliceCapacity))).count slot +
      (handCount engine slot + liveCount shard slot + (releases more).count slot) =
        if Usable workers slot then 1 else 0 := by
    intro slot
    rw [← inv.tally slot, Lane.tally, popped slot, ← balance slot]
    omega
  have atMost : ∀ slot : Nat, (if Usable workers slot then 1 else 0) ≤ 1 := fun slot => by split <;> omega
  obtain ⟨pool, freed, same, valid, returned⟩ := deallocate_all (releases more) lane.pool inv.pool
    (fun slot => by
      have sum := total slot
      have one := atMost slot
      omega)
    (fun slot member => by
      have sum := total slot
      have present := List.count_pos_iff.mpr member
      have usable : Usable workers slot := by
        by_contra unusable
        rw [if_neg unusable] at sum
        omega
      rw [inv.slices.1, inv.slices.2]
      exact usable.2)
  have keeps : ∀ slot : Nat, lane.pool.free slot + heldCount held (slot / lane.pool.sliceCapacity) slot +
      (newSlots (queues (slot / lane.pool.sliceCapacity))).count slot ≠ 0 →
        shard.shared.order slot = lane.shard.shared.order slot := by
    intro slot present
    have sum := total slot
    have one := atMost slot
    have moved := balance slot
    refine effect.frame slot (by omega) fun taken => ?_
    rw [if_pos taken] at moved
    omega
  refine ⟨{ lane with shard := shard, engine := engine, pool := pool, queues := queues }, ?_,
    ⟨effect.sameId.trans inv.sameId, effect.rep, valid,
      ⟨same.1.trans inv.slices.1, same.2.trans inv.slices.2⟩, fun slot => ?_,
      fun worker slot member => ?_, fun worker o holds => ?_, fun worker idx token conn member =>
        ?_⟩, rfl, rfl, rfl, rfl⟩
  · simp [Lane.advance, out, freed]
  · rw [← total slot]
    simp only [Lane.tally, returned slot, same.1]
    omega
  · have before : slot ∈ newSlots (lane.queues worker) := by
      obtain ⟨entry, inside, new⟩ := List.mem_filterMap.mp member
      exact List.mem_filterMap.mpr ⟨entry, subset worker entry inside, new⟩
    have underway := inv.queued worker slot before
    have count : 0 < (newSlots (queues (slot / lane.pool.sliceCapacity))).count slot := by
      rw [inv.slices.1, underway.home]
      exact List.count_pos_iff.mpr member
    rw [keeps slot (by omega)]
    exact underway
  · obtain ⟨underway, stored⟩ := inv.held worker o holds
    have count : heldCount held (o.internalId / lane.pool.sliceCapacity) o.internalId = 1 := by
      rw [inv.slices.1, underway.home]
      simp [heldCount, holds]
    exact ⟨underway, (keeps o.internalId (by omega)).trans stored⟩
  · exact inv.cancels worker idx token conn (subset worker _ member)

def EngineMove (lane next : Lane) (extra : Option Slot) : Prop :=
  EngineEffect lane.shard lane.engine extra next.shard next.engine ∧ next.origin = lane.origin

theorem work_inv :
    ∃ next, lane.work = .ok next ∧ LaneInv workers sh held next ∧ EngineMove lane next none ∧
    next.queues = lane.queues := by
  obtain ⟨books, rep⟩ := inv.rep
  have effect : ∃ shard engine, continueTask lane.shard lane.engine = .ok (shard, engine) ∧
      EngineEffect lane.shard lane.engine none shard engine := by
    cases state : lane.engine with
    | idle =>
        rw [state] at rep
        refine ⟨lane.shard, .idle, rfl, ⟨books, rep⟩, rfl, ⟨[], by simp, fun slot => by simp [releases]⟩,
          fun slot _ => ⟨(lane.shard.shared.order slot).quantity, rfl⟩, fun _ _ _ => rfl,
            fun _ same => .inl same⟩
    | matching inst o pc =>
        rw [state] at rep
        exact continue_task_effect lane.shard books inst o pc rep
  obtain ⟨shard, engine, step, effect⟩ := effect
  obtain ⟨next, done, after, rfl, rfl, queues, origin⟩ :=
    advance_inv workers sh held lane inv lane.queues none shard engine (by simp) (fun _ _ h => h) effect
  exact ⟨next, by simpa [Lane.work, step] using done, after, ⟨effect, origin⟩, queues⟩

theorem pop_idle_inv (worker : Nat) (one : 1 ≤ workers) (sixteen : workers ≤ 16) (entry : Entry)
    (rest : List Entry)
    (idle : lane.engine = .idle) (front : lane.queues worker = entry :: rest) :
    ∃ next, lane.pop worker = .ok next ∧ LaneInv workers sh held next ∧ EngineMove lane next (newSlot entry) ∧
      next.queues = Function.update lane.queues worker rest := by
  obtain ⟨books, rep⟩ := inv.rep
  rw [idle] at rep
  cases rep with
  | idle rep =>
      have effect : ∃ shard engine, startTask lane.shard entry.task = .ok (shard, engine) ∧
          EngineEffect lane.shard .idle (newSlot entry) shard engine := by
        cases task : entry.task with
        | new slot =>
            have member : slot ∈ newSlots (lane.queues worker) := by simp [front, newSlots, newSlot, task]
            have underway := inv.queued worker slot member
            have count := queued_count workers sh held lane inv worker slot member
            have bound := tally_le_one workers sh held lane inv slot
            rw [Lane.tally] at bound
            have usable := tally_usable workers sh held lane inv slot (by rw [Lane.tally]; omega)
            simp only [newSlot, task]
            exact start_new_effect lane.shard books slot rep underway.self usable.1
              (usable_bound workers slot one sixteen usable)
              underway.known (underway.routed.trans inv.sameId.symm) (by omega)
        | cancel idx token =>
            have usable := inv.cancels worker idx token entry.sender (by
              rw [front, ← task]
              exact List.mem_cons_self)
            obtain ⟨shard, step, effect⟩ := start_cancel_effect lane.shard books idx token rep
              (usable_bound workers idx one sixteen usable)
            exact ⟨shard, .idle, step, by simpa only [newSlot, task] using effect⟩
      obtain ⟨shard, engine, step, effect⟩ := effect
      have effect' : EngineEffect lane.shard lane.engine (newSlot entry) shard engine := idle ▸ effect
      obtain ⟨next, done, after, rfl, rfl, queues, origin⟩ :=
        advance_inv workers sh held lane inv (Function.update lane.queues worker rest)
          (newSlot entry) shard engine
          (fun slot => by
            by_cases here : slot / lane.pool.sliceCapacity = worker
            · rw [here, front, Function.update_self, newSlots, newSlots, List.filterMap_cons]
              cases new : newSlot entry with
              | none => simp
              | some taken => simp [List.count_cons]
            · rw [Function.update_of_ne here]
              have other : newSlot entry ≠ some slot := fun new => by
                have member : slot ∈ newSlots (lane.queues worker) := by simp [front, newSlots, new]
                exact here (inv.slices.1 ▸ (inv.queued worker slot member).home)
              simp [other])
          (fun w entry' member => by
            by_cases here : w = worker
            · subst here
              rw [Function.update_self] at member
              rw [front]
              exact List.mem_cons_of_mem _ member
            · rwa [Function.update_of_ne here] at member) effect'
      exact ⟨next, by simpa [Lane.pop, idle, front, step, Lane.setQueue] using done, after,
        ⟨effect', origin⟩, queues⟩

theorem admit_inv (worker : Nat) (o o' : Order) (who : Admission) (next : Lane)
    (member : worker < workers) (free : held worker = none)
    (known : o.instrumentId < maxInstruments) (routed : o.instrumentId % numShards = sh)
    (taken : lane.admitOrder worker o who = some (next, o')) :
    o' = { o with internalId := o'.internalId } ∧ lane.pool.free o'.internalId ≠ 0 ∧
      LaneInv workers sh (Function.update held worker (some o')) next ∧ next.queues = lane.queues ∧
        next.engine = lane.engine ∧
      next.shard.shared = lane.shard.shared.construct o' ∧
        next.origin = Function.update lane.origin o'.internalId who ∧
      ∀ other : Nat, other ≠ o'.internalId → next.pool.free other = lane.pool.free other := by
  unfold Lane.admitOrder at taken
  cases given : lane.pool.allocate worker with
  | none => simp [given] at taken
  | some result =>
      obtain ⟨slot, pool⟩ := result
      rw [given] at taken
      simp only [Option.some.injEq, Prod.mk.injEq] at taken
      obtain ⟨rfl, rfl⟩ := taken
      obtain ⟨home, same, valid, balance⟩ := allocate_spec lane.pool pool worker slot inv.pool
        (inv.slices.2 ▸ member) given
      have wasFree : lane.pool.free slot ≠ 0 := by
        rw [balance slot, if_pos rfl]
        omega
      obtain ⟨notQueued, notHeld, notHand, notLive⟩ := free_slot_apart workers sh held lane inv slot wasFree
      obtain ⟨books, rep⟩ := inv.rep
      have built := engine_construct lane.shard books lane.engine
        { o with internalId := slot } rep notLive notHand
      have elsewhere : ∀ other : Nat, other ≠ slot →
          (lane.shard.shared.construct { o with internalId := slot }).order other =
            lane.shard.shared.order other := by
        intro other different
        simp [Shared.construct, Shared.order, different]
      refine ⟨rfl, wasFree,
        ⟨inv.sameId, ⟨books, built⟩, valid,
        ⟨same.1.trans inv.slices.1, same.2.trans inv.slices.2⟩, fun other => ?_,
        fun w other queued => ?_, fun w order holds => ?_, inv.cancels⟩, rfl, rfl, rfl, rfl,
          fun other different => ?_⟩
      · rw [← inv.tally other, Lane.tally, Lane.tally, balance other, same.1]
        have live : liveCount
          { lane.shard with shared := lane.shard.shared.construct { o with internalId := slot } }
          other =
            liveCount lane.shard other := rfl
        simp only [live]
        by_cases here : other / lane.pool.sliceCapacity = worker
        · rw [here]
          simp only [heldCount, Function.update_self, Option.map_some, Option.some.injEq, free,
            Option.map_none, reduceCtorEq, if_false,
            @eq_comm _ slot other]
          omega
        · have different : other ≠ slot := fun equal => here (equal ▸ home)
          simp only [heldCount, Function.update_of_ne here, if_neg different]
          omega
      · have different : other ≠ slot := fun equal => notQueued w (equal ▸ queued)
        rw [elsewhere other different]
        exact inv.queued w other queued
      · by_cases here : w = worker
        · subst here
          rw [Function.update_self] at holds
          cases holds
          refine ⟨⟨rfl, by rw [← inv.slices.1]; exact home, known, routed⟩, ?_⟩
          simp [Shared.construct, Shared.order]
        · rw [Function.update_of_ne here] at holds
          obtain ⟨underway, stored⟩ := inv.held w order holds
          exact ⟨underway, (elsewhere _ (notHeld w order holds)).trans stored⟩
      · rw [balance other, if_neg different, Nat.add_zero]

theorem push_new_inv (worker : Nat) (o : Order) (conn : Nat) (next : Lane) (holds : held worker = some o)
    (pushed : lane.push worker ⟨.new o.internalId, conn⟩ = some next) :
    LaneInv workers sh (Function.update held worker none) next ∧
      next = lane.setQueue worker (lane.queues worker ++ [⟨.new o.internalId, conn⟩]) := by
  obtain ⟨queue, room, rfl⟩ := Option.map_eq_some_iff.mp pushed
  simp only [pushQueue, Option.ite_none_right_eq_some, Option.some.injEq] at room
  obtain ⟨_, rfl⟩ := room
  obtain ⟨underway, stored⟩ := inv.held worker o holds
  refine ⟨⟨inv.sameId, inv.rep, inv.pool, inv.slices, fun slot => ?_, fun w slot member => ?_,
    fun w order holds' => ?_,
    fun w idx token c member => ?_⟩, rfl⟩
  · rw [← inv.tally slot, Lane.tally, Lane.tally]
    simp only [Lane.setQueue]
    by_cases here : slot / lane.pool.sliceCapacity = worker
    · rw [here, Function.update_self]
      simp only [heldCount, Function.update_self, holds, newSlots, List.filterMap_append,
        List.count_append, newSlot, List.filterMap_cons,
        List.filterMap_nil, List.count_singleton, Option.map_some, Option.map_none,
          Option.some.injEq, reduceCtorEq, if_false, beq_iff_eq]
      omega
    · simp only [heldCount, Function.update_of_ne here]
  · by_cases here : w = worker
    · subst here
      simp only [Lane.setQueue, Function.update_self, newSlots, List.filterMap_append,
        List.mem_append, newSlot, List.filterMap_cons,
        List.filterMap_nil, List.mem_singleton] at member
      rcases member with before | rfl
      · exact inv.queued w slot before
      · change Underway workers sh w (lane.shard.shared.order o.internalId) o.internalId
        rw [stored]
        exact underway
    · simp only [Lane.setQueue, Function.update_of_ne here] at member
      exact inv.queued w slot member
  · by_cases here : w = worker
    · subst here
      simp at holds'
    · rw [Function.update_of_ne here] at holds'
      exact inv.held w order holds'
  · by_cases here : w = worker
    · subst here
      simp only [Lane.setQueue, Function.update_self, List.mem_append, List.mem_singleton,
        Entry.mk.injEq, reduceCtorEq, false_and,
        or_false] at member
      exact inv.cancels w idx token c member
    · simp only [Lane.setQueue, Function.update_of_ne here] at member
      exact inv.cancels w idx token c member

theorem push_cancel_inv (worker idx token conn : Nat) (next : Lane) (usable : Usable workers idx)
    (pushed : lane.push worker ⟨.cancel idx token, conn⟩ = some next) :
    LaneInv workers sh held next ∧ next = lane.setQueue worker
    (lane.queues worker ++ [⟨.cancel idx token, conn⟩]) := by
  obtain ⟨queue, room, rfl⟩ := Option.map_eq_some_iff.mp pushed
  simp only [pushQueue, Option.ite_none_right_eq_some, Option.some.injEq] at room
  obtain ⟨_, rfl⟩ := room
  have same : ∀ w, newSlots
    ((lane.setQueue worker (lane.queues worker ++ [⟨.cancel idx token, conn⟩])).queues w) =
      newSlots (lane.queues w) := by
    intro w
    by_cases here : w = worker
    · subst here
      simp [Lane.setQueue, newSlots, newSlot]
    · simp [Lane.setQueue, here]
  refine ⟨⟨inv.sameId, inv.rep, inv.pool, inv.slices, fun slot => ?_, fun w slot member => ?_, inv.held,
    fun w idx' token' c member => ?_⟩, rfl⟩
  · rw [← inv.tally slot, Lane.tally, same]
    rfl
  · rw [same] at member
    exact inv.queued w slot member
  · by_cases here : w = worker
    · subst here
      simp only [Lane.setQueue, Function.update_self, List.mem_append, List.mem_singleton,
        Entry.mk.injEq, EngineTask.cancel.injEq] at member
      rcases member with before | ⟨⟨rfl, rfl⟩, rfl⟩
      · exact inv.cancels w idx' token' c before
      · exact usable
    · simp only [Lane.setQueue, Function.update_of_ne here] at member
      exact inv.cancels w idx' token' c member

end

end HftExchange
