import HftExchange.Book.Ladder

set_option autoImplicit false

namespace HftExchange

open Base

-- A LockFreeQueue of capacity n holds at most n - 1 items. Its contents are a
-- list, the next item to pop first.
def queueCapacity : Nat := 524288

def pushQueue {α : Type} (queue : List α) (item : α) : Option (List α) :=
  if queue.length + 1 < queueCapacity then some (queue ++ [item]) else none

-- The bookkeeping of MemoryPool. The memory itself is the heap of the shard
-- that uses the pool.
structure MemoryPool where
  sliceCapacity : Nat
  numWorkers : Nat
  highWaterMark : Nat → Nat
  recycleQueues : Nat → List Slot

namespace MemoryPool

def init (capacity workers : Nat) : MemoryPool :=
  { sliceCapacity := capacity / workers
    numWorkers := workers
    highWaterMark := fun i => i * (capacity / workers) + if i = 0 then 1 else 0
    recycleQueues := fun _ => [] }

def setQueue (pool : MemoryPool) (worker : Nat) (queue : List Slot) : MemoryPool :=
  { pool with recycleQueues := Function.update pool.recycleQueues worker queue }

def setMark (pool : MemoryPool) (worker mark : Nat) : MemoryPool :=
  { pool with highWaterMark := Function.update pool.highWaterMark worker mark }

def allocate (pool : MemoryPool) (worker : Nat) : Option (Slot × MemoryPool) :=
  match pool.recycleQueues worker with
  | index :: rest => some (index, pool.setQueue worker rest)
  | [] =>
      let next := pool.highWaterMark worker
      if next < (worker + 1) * pool.sliceCapacity then
        some (next, pool.setMark worker (next + 1))
      else none

-- The push is retried until it succeeds, which never ends on a full queue
-- whose consumer waits for this thread.
def deallocate (pool : MemoryPool) (index : Slot) : Checked MemoryPool := do
  let worker := index / pool.sliceCapacity
  let queue ← fetch pool.numWorkers pool.recycleQueues worker
  match pushQueue queue index with
  | some queue => pure (pool.setQueue worker queue)
  | none => .error .stuck

def untouched (pool : MemoryPool) (slot : Slot) : Nat :=
  if slot / pool.sliceCapacity < pool.numWorkers ∧ pool.highWaterMark (slot / pool.sliceCapacity) ≤
    slot then 1 else 0

def free (pool : MemoryPool) (slot : Slot) : Nat :=
  pool.untouched slot + (pool.recycleQueues (slot / pool.sliceCapacity)).count slot

structure Valid (pool : MemoryPool) : Prop where
  positive : 0 < pool.sliceCapacity
  bounded : pool.sliceCapacity < queueCapacity
  home : ∀ worker, ∀ slot ∈ pool.recycleQueues worker, slot / pool.sliceCapacity = worker
  marks : ∀ worker, worker < pool.numWorkers → worker * pool.sliceCapacity ≤ pool.highWaterMark worker
  once : ∀ slot, pool.free slot ≤ 1

def SameSlices (first second : MemoryPool) : Prop :=
  first.sliceCapacity = second.sliceCapacity ∧ first.numWorkers = second.numWorkers

end MemoryPool

theorem slice_of (slice worker slot : Nat) (lower : worker * slice ≤ slot)
    (upper : slot < (worker + 1) * slice) :
    slot / slice = worker := by
  apply Nat.div_eq_of_lt_le
  · exact lower
  · exact upper

theorem init_free (capacity workers : Nat) (slot : Slot) :
    (MemoryPool.init capacity workers).free slot =
    if 0 < slot ∧ slot / (capacity / workers) < workers then 1 else 0 := by
  have lower := Nat.div_mul_le_self slot (capacity / workers)
  have mark : slot / (capacity / workers) * (capacity / workers) + (if slot / (capacity / workers) =
      0 then 1 else 0) ≤ slot ↔ 0 < slot := by
    by_cases first : slot / (capacity / workers) = 0
    · simp [first, Nat.one_le_iff_ne_zero, Nat.pos_iff_ne_zero]
    · have positive : 0 < slot := Nat.pos_of_ne_zero fun zero => first (by simp [zero])
      simp [first, lower, positive]
  rw [MemoryPool.free, show (MemoryPool.init capacity workers).recycleQueues _ = [] from rfl, List.count_nil]
  exact if_congr (and_congr_right' mark |>.trans and_comm) rfl rfl

theorem init_valid (capacity workers : Nat) (positive : 0 < capacity / workers)
    (bounded : capacity / workers < queueCapacity) :
    (MemoryPool.init capacity workers).Valid := by
  refine ⟨positive, bounded, by simp [MemoryPool.init], fun worker _ =>
    by simp [MemoryPool.init], fun slot => ?_⟩
  rw [init_free]
  split <;> omega

theorem free_set_queue (pool : MemoryPool) (worker : Nat) (queue : List Slot) (other : Nat) :
    (pool.setQueue worker queue).free other = pool.untouched other +
      if other / pool.sliceCapacity = worker then queue.count other
      else (pool.recycleQueues (other / pool.sliceCapacity)).count other := by
  have same : (pool.setQueue worker queue).untouched other = pool.untouched other := rfl
  rw [MemoryPool.free, same]
  by_cases here : other / pool.sliceCapacity = worker <;> simp [MemoryPool.setQueue, here]

theorem allocate_spec (pool next : MemoryPool) (worker : Nat) (slot : Slot) (valid : pool.Valid)
    (member : worker < pool.numWorkers)
    (taken : pool.allocate worker = some (slot, next)) :
    slot / pool.sliceCapacity = worker ∧ next.SameSlices pool ∧ next.Valid ∧
      ∀ other : Nat, pool.free other = next.free other + if other = slot then 1 else 0 := by
  unfold MemoryPool.allocate at taken
  cases queue : pool.recycleQueues worker with
  | cons index rest =>
      rw [queue] at taken
      obtain ⟨rfl, rfl⟩ := Prod.mk.inj (Option.some.inj taken)
      have own : index / pool.sliceCapacity = worker := valid.home worker index (by simp [queue])
      have balance : ∀ other : Nat, pool.free other =
          (pool.setQueue worker rest).free other + if other = index then 1 else 0 := by
        intro other
        rw [free_set_queue, MemoryPool.free]
        by_cases here : other / pool.sliceCapacity = worker
        · rw [if_pos here, here, queue, List.count_cons]
          simp only [beq_iff_eq, @eq_comm _ index other]
          omega
        · have different : other ≠ index := fun same => here (same ▸ own)
          rw [if_neg here, if_neg different]
          omega
      refine ⟨own, ⟨rfl, rfl⟩, ⟨valid.positive, valid.bounded, fun w s inside => ?_, valid.marks,
        fun other => ?_⟩, balance⟩
      · by_cases here : w = worker
        · subst here
          exact valid.home w s
            (by rw [queue]; exact List.mem_cons_of_mem _ (by simpa [MemoryPool.setQueue] using inside))
        · exact valid.home w s (by simpa [MemoryPool.setQueue, here] using inside)
      · have before := valid.once other
        rw [balance other] at before
        omega
  | nil =>
      rw [queue] at taken
      simp only [Option.ite_none_right_eq_some, Option.some.injEq, Prod.mk.injEq] at taken
      obtain ⟨room, rfl, rfl⟩ := taken
      have own := slice_of _ worker _ (valid.marks worker member) room
      have balance : ∀ other : Nat, pool.free other =
          (pool.setMark worker (pool.highWaterMark worker + 1)).free other + if other =
            pool.highWaterMark worker then 1 else 0 := by
        intro other
        by_cases here : other / pool.sliceCapacity = worker
        · simp only [MemoryPool.free, MemoryPool.untouched, MemoryPool.setMark, here, member,
            true_and, Function.update_self]
          split_ifs <;> omega
        · have different : other ≠ pool.highWaterMark worker := fun same => here (same ▸ own)
          simp [MemoryPool.free, MemoryPool.untouched, MemoryPool.setMark, here, different]
      refine ⟨own, ⟨rfl, rfl⟩, ⟨valid.positive, valid.bounded, valid.home, fun w inside => ?_,
        fun other => ?_⟩, balance⟩
      · by_cases here : w = worker
        · subst here
          simp only [MemoryPool.setMark, Function.update_self]
          exact Nat.le_succ_of_le (valid.marks w inside)
        · simpa [MemoryPool.setMark, here] using valid.marks w inside
      · have before := valid.once other
        rw [balance other] at before
        omega

theorem recycle_room (pool : MemoryPool) (slot : Slot) (valid : pool.Valid) (live : pool.free slot = 0) :
    (pool.recycleQueues (slot / pool.sliceCapacity)).length + 1 < queueCapacity := by
  have home := valid.home (slot / pool.sliceCapacity)
  have distinct : (slot :: pool.recycleQueues (slot / pool.sliceCapacity)).Nodup := by
    refine List.nodup_cons.mpr ⟨fun inside => ?_, List.nodup_iff_count_le_one.mpr fun other => ?_⟩
    · have present := List.count_pos_iff.mpr inside
      simp only [MemoryPool.free] at live
      omega
    · by_cases inside : other ∈ pool.recycleQueues (slot / pool.sliceCapacity)
      · have once := valid.once other
        rw [MemoryPool.free, home other inside] at once
        omega
      · rw [List.count_eq_zero_of_not_mem inside]
        omega
  have within : slot :: pool.recycleQueues (slot / pool.sliceCapacity) ⊆
      List.range' (slot / pool.sliceCapacity * pool.sliceCapacity) pool.sliceCapacity := by
    intro other member
    have same : other / pool.sliceCapacity = slot / pool.sliceCapacity := by
      rcases List.mem_cons.mp member with rfl | inside
      · rfl
      · exact home other inside
    have lower := Nat.div_mul_le_self other pool.sliceCapacity
    have upper := Nat.lt_div_mul_add valid.positive (a := other)
    rw [same] at lower upper
    exact List.mem_range'_1.mpr ⟨lower, upper⟩
  have length := (distinct.subperm within).length_le
  have bounded := valid.bounded
  simp only [List.length_cons, List.length_range'] at length
  omega

theorem deallocate_spec (pool : MemoryPool) (slot : Slot) (valid : pool.Valid) (live : pool.free slot = 0)
    (inside : slot / pool.sliceCapacity < pool.numWorkers) :
    ∃ next, pool.deallocate slot = .ok next ∧ next.SameSlices pool ∧ next.Valid ∧
      ∀ other : Nat, next.free other = pool.free other + if other = slot then 1 else 0 := by
  have room := recycle_room pool slot valid live
  have balance : ∀ other : Nat,
      (pool.setQueue (slot / pool.sliceCapacity) (pool.recycleQueues (slot / pool.sliceCapacity) ++
        [slot])).free other =
        pool.free other + if other = slot then 1 else 0 := by
    intro other
    rw [free_set_queue, MemoryPool.free]
    by_cases here : other / pool.sliceCapacity = slot / pool.sliceCapacity
    · rw [if_pos here, here, List.count_append, List.count_singleton]
      simp only [beq_iff_eq, @eq_comm _ slot other]
      omega
    · have different : other ≠ slot := fun same => here (same ▸ rfl)
      rw [if_neg here, if_neg different]
      omega
  refine ⟨pool.setQueue (slot / pool.sliceCapacity)
    (pool.recycleQueues (slot / pool.sliceCapacity) ++ [slot]), ?_, ⟨rfl, rfl⟩,
    ⟨valid.positive, valid.bounded, fun w s member => ?_, valid.marks, fun other => ?_⟩, balance⟩
  · simp [MemoryPool.deallocate, inside, pushQueue, room]
  · by_cases here : w = slot / pool.sliceCapacity
    · subst here
      simp only [MemoryPool.setQueue, Function.update_self, List.mem_append, List.mem_singleton] at member
      rcases member with before | rfl
      · exact valid.home _ s before
      · rfl
    · exact valid.home w s (by simpa [MemoryPool.setQueue, here] using member)
  · have before := valid.once other
    rw [balance other]
    by_cases same : other = slot
    · subst same
      simp [live]
    · simpa [same] using before

theorem deallocate_all (slots : List Slot) (pool : MemoryPool) (valid : pool.Valid)
    (once : ∀ slot : Nat, pool.free slot + slots.count slot ≤ 1)
    (inside : ∀ slot ∈ slots, slot / pool.sliceCapacity < pool.numWorkers) :
    ∃ next, slots.foldlM MemoryPool.deallocate pool = .ok next ∧ next.SameSlices pool ∧ next.Valid ∧
      ∀ other : Nat, next.free other = pool.free other + slots.count other := by
  induction slots generalizing pool with
  | nil => exact ⟨pool, rfl, ⟨rfl, rfl⟩, valid, by simp⟩
  | cons slot rest ih =>
      have live : pool.free slot = 0 := by
        have bound := once slot
        rw [List.count_cons_self] at bound
        omega
      obtain ⟨mid, step, same, midValid, balance⟩ := deallocate_spec pool slot valid live
        (inside slot (by simp))
      have each : ∀ other : Nat, (slot :: rest).count other = rest.count other + if other = slot
          then 1 else 0 := by
        intro other
        simp only [List.count_cons, beq_iff_eq, @eq_comm _ slot other]
      obtain ⟨next, run, same', nextValid, balance'⟩ := ih mid midValid
        (fun other => by
          have bound := once other
          rw [each] at bound
          rw [balance]
          omega)
        (fun other member => by
          rw [same.1, same.2]
          exact inside other (List.mem_cons_of_mem _ member))
      refine ⟨next, by simp [List.foldlM_cons, step, run],
        ⟨same'.1.trans same.1, same'.2.trans same.2⟩, nextValid, fun other => ?_⟩
      rw [balance', balance, each]
      omega

end HftExchange
