import HftExchange.System.Exchange
import HftExchange.Engine.StepEffect

set_option autoImplicit false

namespace HftExchange

open Base

def sliceOf (workers : Nat) : Nat := poolCapacityPerShard / workers

def newSlot (entry : Entry) : Option Slot :=
  match entry.task with
  | .new slot => some slot
  | .cancel _ _ => none

def newSlots (queue : List Entry) : List Slot := queue.filterMap newSlot

-- In how many places of a lane a slot is. The order a worker is admitting is
-- in none of the lane's own structures.
def heldCount (held : Nat → Option Order) (worker : Nat) (slot : Slot) : Nat :=
  if (held worker).map Order.internalId = some slot then 1 else 0

def Lane.tally (lane : Lane) (held : Nat → Option Order) (slot : Slot) : Nat :=
  lane.pool.free slot + heldCount held (slot / lane.pool.sliceCapacity) slot +
    (newSlots (lane.queues (slot / lane.pool.sliceCapacity))).count
      slot + (handCount lane.engine slot + liveCount lane.shard slot)

def Usable (workers slot : Nat) : Prop := 0 < slot ∧ slot / sliceOf workers < workers

instance (workers slot : Nat) : Decidable (Usable workers slot) := inferInstanceAs (Decidable (_ ∧ _))

structure Underway (workers sh worker : Nat) (o : Order) (slot : Slot) : Prop where
  self : o.internalId = slot
  home : slot / sliceOf workers = worker
  known : o.instrumentId < maxInstruments
  routed : o.instrumentId % numShards = sh

structure LaneInv (workers sh : Nat) (held : Nat → Option Order) (lane : Lane) : Prop where
  sameId : lane.shard.id = sh
  rep : ∃ books, EngineRep lane.shard books lane.engine
  pool : lane.pool.Valid
  slices : lane.pool.sliceCapacity = sliceOf workers ∧ lane.pool.numWorkers = workers
  tally : ∀ slot : Nat, lane.tally held slot = if Usable workers slot then 1 else 0
  queued : ∀ worker, ∀ slot ∈ newSlots (lane.queues worker), Underway workers sh worker
    (lane.shard.shared.order slot) slot
  held : ∀ worker o, held worker = some o → Underway workers sh worker o o.internalId ∧
    lane.shard.shared.order o.internalId = o
  cancels : ∀ worker idx token conn, ⟨.cancel idx token, conn⟩ ∈ lane.queues worker → Usable workers idx

theorem slice_bounds (workers : Nat) (one : 1 ≤ workers) (sixteen : workers ≤ 16) :
    0 < sliceOf workers ∧ sliceOf workers < queueCapacity ∧ workers * sliceOf workers ≤ maxOrdersLookup := by
  have small : sliceOf workers ≤ poolCapacityPerShard := Nat.div_le_self ..
  refine ⟨Nat.div_pos (Nat.le_trans sixteen (by decide)) one, Nat.lt_of_le_of_lt small (by decide), ?_⟩
  exact Nat.mul_div_le poolCapacityPerShard workers

theorem usable_bound (workers slot : Nat) (one : 1 ≤ workers) (sixteen : workers ≤ 16)
    (usable : Usable workers slot) :
    slot < maxOrdersLookup := by
  obtain ⟨positive, _, total⟩ := slice_bounds workers one sixteen
  have below : slot < workers * sliceOf workers := (Nat.div_lt_iff_lt_mul positive).mp usable.2
  omega

theorem initial_lane_inv (workers sh : Nat) (one : 1 ≤ workers) (sixteen : workers ≤ 16) :
    LaneInv workers sh (fun _ => none) (.init workers sh) := by
  obtain ⟨positive, small, _⟩ := slice_bounds workers one sixteen
  have free : ∀ slot : Nat, (MemoryPool.init poolCapacityPerShard workers).free slot =
      if Usable workers slot then 1 else 0 :=
    fun slot => init_free poolCapacityPerShard workers slot
  refine ⟨rfl, ⟨_, .idle (initial_shard_rep sh)⟩,
    init_valid poolCapacityPerShard workers positive small, ⟨rfl, rfl⟩, fun slot => ?_,
    by simp [Lane.init, newSlots], by simp, by simp [Lane.init]⟩
  have none_ : ∀ worker, newSlots ((Lane.init workers sh).queues worker) = [] := fun _ => rfl
  rw [Lane.tally, show (Lane.init workers sh).pool = .init poolCapacityPerShard workers from rfl, free, none_]
  simp [heldCount, handCount, liveCount, Lane.init, EnginePc.slot, Shard.init, Shared.init]

section
variable (workers sh : Nat) (held : Nat → Option Order) (lane : Lane) (inv : LaneInv workers sh held lane)
include inv

theorem tally_le_one (slot : Nat) : lane.tally held slot ≤ 1 := by
  rw [inv.tally]
  split <;> omega

theorem tally_usable (slot : Nat) (some_ : lane.tally held slot ≠ 0) : Usable workers slot := by
  rw [inv.tally] at some_
  by_contra unusable
  simp [unusable] at some_

theorem queued_count (worker : Nat) (slot : Slot) (member : slot ∈ newSlots (lane.queues worker)) :
    0 < (newSlots (lane.queues (slot / lane.pool.sliceCapacity))).count slot := by
  have home := (inv.queued worker slot member).home
  rw [inv.slices.1, home]
  exact List.count_pos_iff.mpr member

theorem free_slot_apart (slot : Nat) (free : lane.pool.free slot ≠ 0) :
    (∀ worker, slot ∉ newSlots (lane.queues worker)) ∧
    (∀ worker o, held worker = some o → o.internalId ≠ slot) ∧
      lane.engine.slot ≠ some slot ∧ liveCount lane.shard slot = 0 := by
  have bound := tally_le_one workers sh held lane inv slot
  rw [Lane.tally] at bound
  refine ⟨fun worker member => ?_, fun worker o holds same => ?_, fun hand => ?_, by omega⟩
  · have count := queued_count workers sh held lane inv worker slot member
    omega
  · have home := (inv.held worker o holds).1.home
    rw [same] at home
    rw [inv.slices.1, home] at bound
    simp only [heldCount, holds, Option.map_some, same, if_true] at bound
    omega
  · simp only [handCount, hand, if_true] at bound
    omega

end

end HftExchange
