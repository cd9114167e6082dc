import HftExchange.Engine.Progress
import HftExchange.System.Trace

set_option autoImplicit false

namespace HftExchange

open Base

def Busy (lane : Lane) (slot : Slot) (rank : Nat) : Prop :=
  ∃ inst pc books, lane.engine = .matching inst slot pc ∧ EngineRep lane.shard books lane.engine ∧
    remaining (lane.shard.shared.order slot) (books inst) pc = rank

def InLine (lane : Lane) (worker conn : Nat) (slot : Slot) (place : Nat) : Prop :=
  ∃ front rest, lane.queues worker = front ++ ⟨.new slot, conn⟩ :: rest ∧ front.length = place

def Reported (lane next : Lane) (o : Order) : Prop :=
    ReportedIn (next.shard.shared.out.drop lane.shard.shared.out.length) o

def SameSlot (lane next : Lane) (slot : Slot) : Prop :=
  next.shard.shared.order slot = lane.shard.shared.order slot ∧ next.origin slot = lane.origin slot

theorem pop_busy (lane next : Lane) (worker : Nat) (busy : lane.engine ≠ .idle)
    (done : lane.pop worker = .ok next) : next = lane := by
  unfold Lane.pop at done
  split at done
  · rename_i idle _
    exact absurd idle busy
  · exact (Except.ok.inj done).symm

theorem pop_empty (lane next : Lane) (worker : Nat) (empty : lane.queues worker = [])
    (done : lane.pop worker = .ok next) : next = lane := by
  unfold Lane.pop at done
  split at done
  · rename_i entry rest _ front
    simp [empty] at front
  · exact (Except.ok.inj done).symm

theorem advance_engine (lane next : Lane) (shard : Shard) (engine : EnginePc)
    (done : lane.advance shard engine = .ok next) :
    next.shard = shard ∧ next.engine = engine ∧ next.queues = lane.queues ∧ next.origin = lane.origin := by
  obtain ⟨pool, _, result⟩ := (checked_bind_eq_ok _ _ _).mp done
  cases result
  exact ⟨rfl, rfl, rfl, rfl⟩

theorem construct_other (lane : Lane) (o : Order) (slot : Slot) (other : slot ≠ o.internalId) :
    (lane.shard.shared.construct o).order slot = lane.shard.shared.order slot := by
  simp [Shared.construct, Shared.order, other]

theorem busy_work (lane next : Lane) (slot : Slot) (rank : Nat) (busy : Busy lane slot rank)
    (done : lane.work = .ok next) :
    next.origin = lane.origin ∧
      ((∃ less, less < rank ∧ Busy next slot less ∧
          (next.shard.shared.order slot = lane.shard.shared.order slot ∨
            Reported lane next (lane.shard.shared.order slot))) ∨
        (next.engine = .idle ∧
          (0 < (lane.shard.shared.order slot).quantity →
            Reported lane next (lane.shard.shared.order slot)))) := by
  obtain ⟨inst, pc, books, engine, rep, measure⟩ := busy
  obtain ⟨⟨shard, after⟩, step, moved⟩ := (checked_bind_eq_ok _ _ _).mp done
  obtain ⟨rfl, rfl, _, origin⟩ := advance_engine lane next shard after moved
  rw [engine] at rep step
  obtain ⟨more, out, outcome⟩ := continue_task_progress lane.shard next.shard books inst slot pc
    next.engine rep step
  have appended : next.shard.shared.out.drop lane.shard.shared.out.length = more :=
    by rw [out, List.drop_left]
  refine ⟨origin, ?_⟩
  rw [Reported, appended]
  rcases outcome with ⟨books', pc', after, rep', smaller, named⟩ | ⟨idle, named⟩
  · exact .inl ⟨_, measure ▸ smaller, ⟨inst, pc', books', after, rep', rfl⟩, named⟩
  · exact .inr ⟨idle, named⟩

section
variable (workers : Nat) (one : 1 ≤ workers) (sixteen : workers ≤ 16) (sh : Nat)
  (held : Nat → Option Order) (lane next : Lane)
  (inv : LaneInv workers sh held lane)
include inv

theorem engine_busy_or_idle : lane.engine = .idle ∨ ∃ slot rank, Busy lane slot rank := by
  obtain ⟨books, rep⟩ := inv.rep
  cases state : lane.engine with
  | idle => exact .inl rfl
  | matching inst slot pc =>
      rw [state] at rep
      exact .inr ⟨slot, _, inst, pc, books, state, by rwa [state], rfl⟩

theorem busy_stays (label : Label) (step : LaneStep sh lane label next) (slot : Slot) (rank : Nat)
    (busy : Busy lane slot rank) :
    (Busy next slot rank ∧ SameSlot lane next slot) ∨ lane.work = .ok next := by
  obtain ⟨inst, pc, books, engine, rep, measure⟩ := busy
  have running : lane.engine ≠ .idle := by simp [engine]
  cases step with
  | same _ => exact .inl ⟨⟨inst, pc, books, engine, rep, measure⟩, rfl, rfl⟩
  | admitted conn req o who pool wasFree =>
      obtain ⟨_, _, notHand, notLive⟩ := free_slot_apart workers sh held lane inv o.internalId wasFree
      have other : slot ≠ o.internalId := by
        rintro rfl
        exact notHand (by rw [engine]; rfl)
      have kept := construct_other lane o slot other
      have rep' := engine_construct lane.shard books lane.engine o rep notLive notHand
      exact .inl ⟨⟨inst, pc, books, engine, rep',
        by rw [← measure]; exact congrArg (remaining · (books inst) pc) kept⟩, kept,
        Function.update_of_ne other ..⟩
  | pushed worker entry room => exact .inl ⟨⟨inst, pc, books, engine, rep, measure⟩, rfl, rfl⟩
  | popped worker _ done =>
      rw [pop_busy lane next worker running done]
      exact .inl ⟨⟨inst, pc, books, engine, rep, measure⟩, rfl, rfl⟩
  | worked _ done => exact .inr done

-- A slot whose NEW task is in a queue is nowhere else.
theorem waiting_apart (worker conn : Nat) (slot : Slot) (place : Nat)
    (waiting : InLine lane worker conn slot place) :
    slot / sliceOf workers = worker ∧ (newSlots (lane.queues worker)).count slot = 1 ∧
    lane.pool.free slot = 0 ∧
      handCount lane.engine slot + liveCount lane.shard slot = 0 := by
  obtain ⟨front, rest, queue, _⟩ := waiting
  have member : slot ∈ newSlots (lane.queues worker) := by
    rw [queue, newSlots, List.filterMap_append]
    exact List.mem_append_right _ (by simp [newSlot])
  have home := (inv.queued worker slot member).home
  have count := List.count_pos_iff.mpr member
  have bound := tally_le_one workers sh held lane inv slot
  rw [Lane.tally, inv.slices.1, home] at bound
  exact ⟨home, by omega, by omega, by omega⟩

theorem waiting_frame (worker conn : Nat) (slot : Slot) (place : Nat)
    (waiting : InLine lane worker conn slot place) (extra : Option Slot)
    (move : EngineMove lane next extra) (other : extra ≠ some slot) : SameSlot lane next slot :=
  ⟨move.1.frame slot (waiting_apart workers sh held lane inv worker conn slot place waiting).2.2.2
    other, by rw [move.2]⟩

theorem front_apart (worker conn : Nat) (slot : Slot) (entry : Entry) (front rest : List Entry)
    (queue : lane.queues worker = entry :: front ++ ⟨.new slot, conn⟩ :: rest) :
    newSlot entry ≠ some slot := by
  intro same
  have count := (waiting_apart workers sh held lane inv worker conn slot _ ⟨entry :: front,
    rest, queue, rfl⟩).2.1
  rw [queue, List.cons_append, newSlots, List.filterMap_cons, same, List.filterMap_append,
    List.filterMap_cons] at count
  simp [newSlot] at count

include one sixteen

theorem waiting_stays (label : Label) (step : LaneStep sh lane label next) (worker conn : Nat)
    (slot : Slot) (place : Nat)
    (waiting : InLine lane worker conn slot place) :
    (InLine next worker conn slot place ∧ SameSlot lane next slot) ∨
    (lane.engine = .idle ∧ lane.pop worker = .ok next) := by
  have apart := waiting_apart workers sh held lane inv worker conn slot place waiting
  have frame := waiting_frame workers sh held lane next inv worker conn slot place waiting
  obtain ⟨front, rest, queue, length⟩ := waiting
  cases step with
  | same _ => exact .inl ⟨⟨front, rest, queue, length⟩, rfl, rfl⟩
  | admitted c req o who pool wasFree =>
      have other : slot ≠ o.internalId := by
        rintro rfl
        exact wasFree apart.2.2.1
      exact .inl ⟨⟨front, rest, queue, length⟩, construct_other lane o slot other,
        Function.update_of_ne other ..⟩
  | pushed w entry room =>
      refine .inl ⟨?_, rfl, rfl⟩
      by_cases here : worker = w
      · subst here
        exact ⟨front, rest ++ [entry], by simp [Lane.setQueue, queue], length⟩
      · exact ⟨front, rest, by simp [Lane.setQueue, here, queue], length⟩
  | popped w _ done =>
      by_cases idle : lane.engine = .idle
      · by_cases here : w = worker
        · subst here
          exact .inr ⟨idle, done⟩
        · cases other : lane.queues w with
          | nil =>
              rw [pop_empty lane next w other done]
              exact .inl ⟨⟨front, rest, queue, length⟩, rfl, rfl⟩
          | cons entry tail =>
              obtain ⟨_, result, _, move, queues⟩ :=
                pop_idle_inv workers sh held lane inv w one sixteen entry tail idle other
              cases done.symm.trans result
              have notOwn : newSlot entry ≠ some slot := fun same => by
                have member : slot ∈ newSlots (lane.queues w) := by simp [other, newSlots, same]
                exact here ((inv.queued w slot member).home.symm.trans apart.1)
              exact .inl ⟨⟨front, rest, by rw [queues, Function.update_of_ne (Ne.symm here), queue],
                length⟩, frame _ move notOwn⟩
      · rw [pop_busy lane next w idle done]
        exact .inl ⟨⟨front, rest, queue, length⟩, rfl, rfl⟩
  | worked _ done =>
      obtain ⟨_, result, _, move, queues⟩ := work_inv workers sh held lane inv
      cases done.symm.trans result
      exact .inl ⟨⟨front, rest, by rw [queues, queue], length⟩, frame none move (by simp)⟩

theorem waiting_pop (worker conn : Nat) (slot : Slot) (place : Nat) (idle : lane.engine = .idle)
    (done : lane.pop worker = .ok next)
    (waiting : InLine lane worker conn slot (place + 1)) :
    InLine next worker conn slot place ∧ SameSlot lane next slot := by
  have frame := waiting_frame workers sh held lane next inv worker conn slot _ waiting
  obtain ⟨front, rest, queue, length⟩ := waiting
  cases front with
  | nil => cases length
  | cons entry front =>
      obtain ⟨_, result, _, move, queues⟩ := pop_idle_inv workers sh held lane inv worker one sixteen entry
        (front ++ ⟨.new slot, conn⟩ :: rest) idle (by simpa using queue)
      cases done.symm.trans result
      exact ⟨⟨front, rest, by rw [queues, Function.update_self], Nat.succ.inj length⟩,
        frame _ move (front_apart workers sh held lane inv worker conn slot entry front rest queue)⟩

theorem waiting_start (worker conn : Nat) (slot : Slot) (idle : lane.engine = .idle)
    (done : lane.pop worker = .ok next)
    (waiting : InLine lane worker conn slot 0) (price : (lane.shard.shared.order slot).price < maxPrice) :
    (∃ rank, Busy next slot rank) ∧ SameSlot lane next slot := by
  obtain ⟨front, rest, queue, length⟩ := waiting
  have none_ : front = [] := List.length_eq_zero_iff.mp length
  subst none_
  have queue : lane.queues worker = ⟨.new slot, conn⟩ :: rest := queue
  have member : slot ∈ newSlots (lane.queues worker) := by simp [queue, newSlots, newSlot]
  have underway := inv.queued worker slot member
  have count := List.count_pos_iff.mpr member
  have usable := tally_usable workers sh held lane inv slot (by
    rw [Lane.tally, inv.slices.1, underway.home]
    omega)
  have bound : (lane.shard.shared.order slot).internalId < maxOrdersLookup := by
    rw [underway.self]
    exact usable_bound workers slot one sixteen usable
  obtain ⟨_, result, after, move, _⟩ :=
    pop_idle_inv workers sh held lane inv worker one sixteen _ rest idle queue
  cases done.symm.trans result
  simp only [Lane.pop, idle, queue] at done
  obtain ⟨⟨shard, engine⟩, start, moved⟩ := (checked_bind_eq_ok _ _ _).mp done
  obtain ⟨rfl, rfl, _, origin⟩ := advance_engine _ next shard engine moved
  obtain ⟨shared, pc, engine⟩ := start_task_matching lane.shard next.shard slot next.engine underway.known
    (underway.routed.trans inv.sameId.symm) bound price start
  obtain ⟨books, rep⟩ := after.rep
  exact ⟨⟨_, _, pc, books, engine, rep, rfl⟩, by rw [shared], congrFun origin slot⟩

end

end HftExchange
