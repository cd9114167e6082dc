import HftExchange.Core.LockFreeQueue
import HftExchange.Core.PoolContract

set_option autoImplicit false

namespace HftExchange

open Base

namespace LockFreeQueue

section
variable {T : Type} (capacity : Nat)

def contents (q : LockFreeQueue T) : List T := q.pushed.drop q.popped.length

-- A call that is not interrupted takes at most five steps; the thread then rests.
def push (q : LockFreeQueue T) (item : T) : Checked (Bool × LockFreeQueue T) := do
  let next ← [.push item, .producer, .producer, .producer, .producer, .producer].foldlM
    (LockFreeQueue.step capacity) q
  pure (decide (next.pushed.length ≠ q.pushed.length), next)

def pop (q : LockFreeQueue T) : Checked (Option T × LockFreeQueue T) := do
  let next ← [.pop, .consumer, .consumer, .consumer, .consumer, .consumer].foldlM
    (LockFreeQueue.step capacity) q
  pure (next.popped[q.popped.length]?, next)

end

end LockFreeQueue

structure QuietQueue {T : Type} (k : Nat) (q : LockFreeQueue T) : Prop where
  inv : ∃ c p, QueueInv (2 ^ k) q c p
  producer : q.producer = .idle
  consumer : q.consumer = .idle

section
variable {T : Type} (k : Nat) (positive : 1 ≤ k) (q : LockFreeQueue T)
include positive

theorem queue_steps_inv (labels : List (QueueLabel T)) (inv : ∃ c p, QueueInv (2 ^ k) q c p) :
    ∃ next, labels.foldlM (LockFreeQueue.step (2 ^ k)) q = .ok next ∧ ∃ c p, QueueInv (2 ^ k) next c p := by
  induction labels generalizing q with
  | nil => exact ⟨q, rfl, inv⟩
  | cons label rest ih =>
      obtain ⟨c, p, inv⟩ := inv
      obtain ⟨middle, result, inv'⟩ := queue_step_inv k q c p inv positive label
      obtain ⟨next, results, inv''⟩ := ih middle inv'
      exact ⟨next, by rw [List.foldlM_cons, result, checked_bind_ok, results], inv''⟩

omit positive in
theorem contents_length (c p : Nat) (inv : QueueInv (2 ^ k) q c p) :
    q.contents.length + q.popped.length = q.pushed.length := by
  have order := inv.order.length_le
  rw [LockFreeQueue.contents, List.length_drop]
  omega

omit positive in
theorem full_loaded (c p : Nat) (inv : QueueInv (2 ^ k) q c p) (quiet : QuietQueue k q) :
    LockFreeQueue.nextIndex (2 ^ k) q.tail = q.head ↔
      q.pushed.length + 1 = q.popped.length + 2 ^ k := by
  have fresh : QueueInv (2 ^ k) { q with cachedHead := q.head } q.popped.length p := by
    refine { inv with
      cachedHead := inv.head
      seenPops := Nat.le_refl _
      room := Nat.lt_of_lt_of_le inv.room (Nat.add_le_add_right inv.seenPops _)
      producer := ?_ }
    rw [show ({ q with cachedHead := q.head } : LockFreeQueue T).producer = .idle from quiet.producer]
    trivial
  exact full_iff k { q with cachedHead := q.head } q.popped.length p fresh q.tail rfl

omit positive in
theorem empty_loaded (c p : Nat) (inv : QueueInv (2 ^ k) q c p) (quiet : QuietQueue k q) :
    q.head = q.tail ↔ q.popped.length = q.pushed.length := by
  have fresh : QueueInv (2 ^ k) { q with cachedTail := q.tail } c q.pushed.length := by
    refine { inv with
      cachedTail := inv.tail
      seenPushes := Nat.le_refl _
      behind := inv.order.length_le
      consumer := ?_ }
    rw [show ({ q with cachedTail := q.tail } : LockFreeQueue T).consumer = .idle from quiet.consumer]
    trivial
  exact empty_iff k { q with cachedTail := q.tail } c q.pushed.length fresh q.head rfl

theorem push_contents (item : T) (quiet : QuietQueue k q) :
    ∃ next, q.push (2 ^ k) item = .ok (decide (q.contents.length + 1 < 2 ^ k), next) ∧
    QuietQueue k next ∧
    next.contents = if q.contents.length + 1 < 2 ^ k then q.contents ++ [item] else q.contents := by
  obtain ⟨next, result, inv'⟩ := queue_steps_inv k positive q
    [.push item, .producer, .producer, .producer, .producer, .producer] quiet.inv
  have call : q.push (2 ^ k) item = .ok (decide (next.pushed.length ≠ q.pushed.length), next) := by
    rw [LockFreeQueue.push, result]
    rfl
  obtain ⟨c, p, inv⟩ := quiet.inv
  have length := contents_length k q c p inv
  have order := inv.order.length_le
  have inside : q.tail < 2 ^ k := by
    rw [inv.tail]
    exact Nat.mod_lt _ (Nat.two_pow_pos k)
  have cached := full_iff k q c p inv q.tail rfl
  have loaded := full_loaded k q c p inv quiet
  have kept : (q.pushed ++ [item]).drop q.popped.length = q.contents ++ [item] := by
    rw [List.drop_append_of_le_length order, LockFreeQueue.contents]
  refine ⟨next, ?_⟩
  rw [call]
  have seen := inv.seenPops
  have room := inv.room
  by_cases full : LockFreeQueue.nextIndex (2 ^ k) q.tail = q.cachedHead
  · by_cases still : LockFreeQueue.nextIndex (2 ^ k) q.tail = q.head
    · have last := loaded.mp still
      simp only [List.foldlM_cons, List.foldlM_nil, LockFreeQueue.step, LockFreeQueue.producerStep,
        quiet.producer, checked_pure,
        checked_bind_ok, if_pos full, if_pos still, Except.ok.injEq] at result
      subst result
      have noRoom : ¬ q.contents.length + 1 < 2 ^ k := by omega
      refine ⟨?_, ⟨inv', rfl, quiet.consumer⟩, ?_⟩
      · simp [noRoom]
      · rw [if_neg noRoom]
        rfl
    · have more : q.pushed.length + 1 ≠ q.popped.length + 2 ^ k := fun same => still (loaded.mpr same)
      simp only [List.foldlM_cons, List.foldlM_nil, LockFreeQueue.step, LockFreeQueue.producerStep,
        quiet.producer, checked_pure,
        checked_bind_ok, if_pos full, if_neg still, store_ok _ _ _ _ inside, Except.ok.injEq] at result
      subst result
      have someRoom : q.contents.length + 1 < 2 ^ k := by omega
      refine ⟨?_, ⟨inv', rfl, quiet.consumer⟩, ?_⟩
      · simp [someRoom]
      · rw [if_pos someRoom]
        exact kept
  · have more : q.pushed.length + 1 ≠ c + 2 ^ k := fun same => full (cached.mpr same)
    simp only [List.foldlM_cons, List.foldlM_nil, LockFreeQueue.step, LockFreeQueue.producerStep,
      quiet.producer, checked_pure,
      checked_bind_ok, if_neg full, store_ok _ _ _ _ inside, Except.ok.injEq] at result
    subst result
    have someRoom : q.contents.length + 1 < 2 ^ k := by omega
    refine ⟨?_, ⟨inv', rfl, quiet.consumer⟩, ?_⟩
    · simp [someRoom]
    · rw [if_pos someRoom]
      exact kept

theorem pop_contents (quiet : QuietQueue k q) :
    ∃ next, q.pop (2 ^ k) = .ok (q.contents.head?, next) ∧ QuietQueue k next ∧
    next.contents = q.contents.tail := by
  obtain ⟨next, result, inv'⟩ := queue_steps_inv k positive q
    [.pop, .consumer, .consumer, .consumer, .consumer, .consumer] quiet.inv
  have call : q.pop (2 ^ k) = .ok (next.popped[q.popped.length]?, next) := by
    rw [LockFreeQueue.pop, result]
    rfl
  obtain ⟨c, p, inv⟩ := quiet.inv
  have length := contents_length k q c p inv
  have inside : q.head < 2 ^ k := by
    rw [inv.head]
    exact Nat.mod_lt _ (Nat.two_pow_pos k)
  have cached := empty_iff k q c p inv q.head rfl
  have loaded := empty_loaded k q c p inv quiet
  have taken (more : q.popped.length < q.pushed.length) :
      q.contents = q.buffer q.head :: q.contents.tail := by
    have item := inv.items q.popped.length _ (Nat.le_refl _) (List.getElem?_eq_getElem more)
    rw [← inv.head] at item
    rw [LockFreeQueue.contents, List.drop_eq_getElem_cons more, item, List.tail_cons]
  refine ⟨next, ?_⟩
  rw [call]
  have seen := inv.seenPushes
  have behind := inv.behind
  by_cases empty : q.head = q.cachedTail
  · by_cases still : q.head = q.tail
    · have nothing : q.contents = [] := List.eq_nil_of_length_eq_zero (by have := loaded.mp still; omega)
      simp only [List.foldlM_cons, List.foldlM_nil, LockFreeQueue.step, LockFreeQueue.consumerStep,
        quiet.consumer, checked_pure,
        checked_bind_ok, if_pos empty, if_pos still, Except.ok.injEq] at result
      subst result
      refine ⟨by simp [nothing], ⟨inv', quiet.producer, rfl⟩, ?_⟩
      exact nothing.trans (by rw [nothing, List.tail_nil])
    · have more : q.popped.length ≠ q.pushed.length := fun same => still (loaded.mpr same)
      have first := taken (by omega)
      simp only [List.foldlM_cons, List.foldlM_nil, LockFreeQueue.step, LockFreeQueue.consumerStep,
        quiet.consumer, checked_pure,
        checked_bind_ok, if_pos empty, if_neg still, fetch_ok _ _ _ inside, Except.ok.injEq] at result
      subst result
      refine ⟨by rw [first]; simp, ⟨inv', quiet.producer, rfl⟩, ?_⟩
      simp [LockFreeQueue.contents, List.tail_drop]
  · have more : q.popped.length ≠ p := fun same => empty (cached.mpr same)
    have first := taken (by omega)
    simp only [List.foldlM_cons, List.foldlM_nil, LockFreeQueue.step, LockFreeQueue.consumerStep,
      quiet.consumer, checked_pure,
      checked_bind_ok, if_neg empty, fetch_ok _ _ _ inside, Except.ok.injEq] at result
    subst result
    refine ⟨by rw [first]; simp, ⟨inv', quiet.producer, rfl⟩, ?_⟩
    simp [LockFreeQueue.contents, List.tail_drop]

end

structure RingPool where
  sliceCapacity : Nat
  numWorkers : Nat
  highWaterMark : Nat → Nat
  recycleQueues : Nat → LockFreeQueue Slot

namespace RingPool

def init (capacity workers : Nat) (buffers : Nat → Nat → Slot) : RingPool :=
  { sliceCapacity := capacity / workers
    numWorkers := workers
    highWaterMark := fun i => i * (capacity / workers) + if i = 0 then 1 else 0
    recycleQueues := fun i => .init (buffers i) }

def setQueue (pool : RingPool) (worker : Nat) (queue : LockFreeQueue Slot) : RingPool :=
  { pool with recycleQueues := Function.update pool.recycleQueues worker queue }

def allocate (pool : RingPool) (worker : Nat) : Checked (Option Slot × RingPool) := do
  let (popped, queue) ← (pool.recycleQueues worker).pop queueCapacity
  let pool := pool.setQueue worker queue
  match popped with
  | some index => pure (some index, pool)
  | none =>
      let next := pool.highWaterMark worker
      if next < (worker + 1) * pool.sliceCapacity then
        pure (some next,
          { pool with highWaterMark := Function.update pool.highWaterMark worker (next + 1) })
      else pure (none, pool)

def deallocate (pool : RingPool) (index : Slot) : Checked RingPool := do
  let worker := index / pool.sliceCapacity
  let queue ← fetch pool.numWorkers pool.recycleQueues worker
  let (pushed, queue) ← queue.push queueCapacity index
  if pushed then pure (pool.setQueue worker queue) else .error .stuck

def view (pool : RingPool) : MemoryPool :=
  { sliceCapacity := pool.sliceCapacity
    numWorkers := pool.numWorkers
    highWaterMark := pool.highWaterMark
    recycleQueues := fun i => (pool.recycleQueues i).contents }

def Quiet (pool : RingPool) : Prop := ∀ worker, QuietQueue 19 (pool.recycleQueues worker)

def step (s : RingPool × List (Option Slot)) : PoolCall → Checked (RingPool × List (Option Slot))
  | .allocate worker => do
      let (slot, pool) ← s.1.allocate worker
      pure (pool, s.2 ++ [slot])
  | .deallocate slot => do
      let pool ← s.1.deallocate slot
      pure (pool, s.2)

end RingPool

def MemoryPool.step (s : MemoryPool × List (Option Slot)) :
    PoolCall → Checked (MemoryPool × List (Option Slot))
  | .allocate worker =>
      let given := s.1.allocate worker
      pure ((given.map Prod.snd).getD s.1, s.2 ++ [given.map Prod.fst])
  | .deallocate slot => do
      let pool ← s.1.deallocate slot
      pure (pool, s.2)

section
variable (ring : RingPool) (quiet : ring.Quiet)
include quiet

theorem quiet_set (worker : Nat) (queue : LockFreeQueue Slot) (rests : QuietQueue 19 queue) :
    (ring.setQueue worker queue).Quiet := by
  intro other
  by_cases here : other = worker
  · subst here
    simpa [RingPool.setQueue] using rests
  · simpa [RingPool.setQueue, here] using quiet other

omit quiet in
theorem view_set (worker : Nat) (queue : LockFreeQueue Slot) :
    (ring.setQueue worker queue).view = ring.view.setQueue worker queue.contents := by
  have queues : (fun i => (Function.update ring.recycleQueues worker queue i).contents) =
      Function.update (fun i => (ring.recycleQueues i).contents) worker queue.contents := by
    funext other
    by_cases here : other = worker
    · subst here
      simp
    · simp [here]
  simp only [RingPool.view, RingPool.setQueue, MemoryPool.setQueue, queues]

theorem ring_allocate (worker : Nat) :
    ∃ next,
    ring.allocate worker = .ok ((ring.view.allocate worker).map Prod.fst, next) ∧ next.Quiet ∧
    next.view = ((ring.view.allocate worker).map Prod.snd).getD ring.view := by
  obtain ⟨queue, popped, rests, contents⟩ :=
    pop_contents 19 (by decide) (ring.recycleQueues worker) (quiet worker)
  have size : 2 ^ 19 = queueCapacity := by decide
  rw [size] at popped
  have own : ring.view.recycleQueues worker = (ring.recycleQueues worker).contents := rfl
  have after := quiet_set ring quiet worker queue rests
  have view := view_set ring worker queue
  cases waiting : (ring.recycleQueues worker).contents with
  | cons index rest =>
      rw [waiting] at popped contents own
      have given : ring.view.allocate worker = some (index, ring.view.setQueue worker rest) := by
        simp only [MemoryPool.allocate, own]
      rw [given]
      refine ⟨ring.setQueue worker queue, ?_, after, by rw [view, contents]; rfl⟩
      rw [RingPool.allocate, popped]
      rfl
  | nil =>
      rw [waiting] at popped contents own
      have kept : (ring.setQueue worker queue).view = ring.view := by
        rw [view, contents, List.tail_nil, ← own, MemoryPool.setQueue, Function.update_eq_self]
      by_cases room : ring.highWaterMark worker < (worker + 1) * ring.sliceCapacity
      · have given : ring.view.allocate worker = some (ring.highWaterMark worker,
            ring.view.setMark worker (ring.highWaterMark worker + 1)) := by
          simp only [MemoryPool.allocate, own]
          exact if_pos room
        rw [given]
        refine ⟨{ ring.setQueue worker queue with
          highWaterMark := Function.update ring.highWaterMark worker
            (ring.highWaterMark worker + 1) }, ?_, after, ?_⟩
        · rw [RingPool.allocate, popped]
          exact if_pos room
        · exact congrArg (fun pool => pool.setMark worker (ring.highWaterMark worker + 1)) kept
      · have given : ring.view.allocate worker = none := by
          simp only [MemoryPool.allocate, own]
          exact if_neg room
        rw [given]
        refine ⟨ring.setQueue worker queue, ?_, after, kept⟩
        rw [RingPool.allocate, popped]
        exact if_neg room

theorem ring_deallocate (index : Slot) (pool : MemoryPool)
    (done : ring.view.deallocate index = .ok pool) :
    ∃ next, ring.deallocate index = .ok next ∧ next.Quiet ∧ next.view = pool := by
  have size : 2 ^ 19 = queueCapacity := by decide
  obtain ⟨queue, fetched, pushed⟩ := (checked_bind_eq_ok _ _ _).mp done
  unfold fetch at fetched
  split at fetched
  · rename_i inside
    obtain rfl := Except.ok.inj fetched
    have inside : index / ring.sliceCapacity < ring.numWorkers := inside
    obtain ⟨next, result, rests, contents⟩ := push_contents 19 (by decide)
      (ring.recycleQueues (index / ring.sliceCapacity)) index (quiet _)
    rw [size] at result contents
    have waiting : ring.view.recycleQueues (index / ring.view.sliceCapacity) =
      (ring.recycleQueues (index / ring.sliceCapacity)).contents := rfl
    rw [waiting, pushQueue] at pushed
    by_cases room : (ring.recycleQueues (index / ring.sliceCapacity)).contents.length + 1 <
        queueCapacity
    · rw [if_pos room] at pushed contents
      rw [decide_eq_true room] at result
      refine ⟨ring.setQueue (index / ring.sliceCapacity) next, ?_,
        quiet_set ring quiet _ next rests, ?_⟩
      · simp only [RingPool.deallocate, fetch_ok _ _ _ inside, checked_bind_ok, result, if_true]
        rfl
      · rw [view_set, contents]
        exact Except.ok.inj pushed
    · rw [if_neg room] at pushed
      cases pushed
  · cases fetched

end

theorem ring_run (capacity workers : Nat) (buffers : Nat → Nat → Slot) (calls : List PoolCall)
    (h : PoolHistory) (run : PoolRun capacity workers calls h) :
    ∃ ring answers, calls.foldlM RingPool.step (.init capacity workers buffers, []) =
        .ok (ring, answers) ∧
      calls.foldlM MemoryPool.step (.init capacity workers, []) = .ok (h.pool, answers) ∧
      ring.Quiet ∧ ring.view = h.pool := by
  induction run with
  | start =>
      refine ⟨.init capacity workers buffers, [], rfl, rfl, fun worker => ?_, rfl⟩
      exact ⟨queue_run_inv 19 (by decide) (buffers worker) [] _ .start, rfl, rfl⟩
  | snoc calls call h next run step ih =>
      obtain ⟨ring, answers, rings, lists, quiet, view⟩ := ih
      obtain ⟨allowed, done⟩ := step
      simp only [List.foldlM_append, rings, lists, checked_bind_ok, List.foldlM_cons,
        List.foldlM_nil]
      cases call with
      | allocate worker =>
          obtain ⟨after, result, rests, same⟩ := ring_allocate ring quiet worker
          rw [view] at result same
          have pool : ((h.pool.allocate worker).map Prod.snd).getD h.pool = next.pool := by
            rw [poolStep] at done
            cases found : h.pool.allocate worker with
            | some given =>
                rw [found] at done
                cases done
                rfl
            | none =>
                rw [found] at done
                cases done
                rfl
          simp only [RingPool.step, MemoryPool.step, result, checked_bind_ok, checked_pure]
          exact ⟨after, _, rfl, by rw [pool], rests, same.trans pool⟩
      | deallocate slot =>
          obtain ⟨pool, freed, result⟩ := (checked_bind_eq_ok _ _ _).mp done
          cases result
          obtain ⟨after, result, rests, same⟩ :=
            ring_deallocate ring quiet slot pool (view ▸ freed)
          simp only [RingPool.step, MemoryPool.step, result, freed, checked_bind_ok,
            checked_pure]
          exact ⟨after, _, rfl, rfl, rests, same⟩

-- The pool with its rings of loads and stores is the pool of lists, over every
-- history of calls: it returns the same slots, and no push has to be retried.
theorem ring_pool_refines (capacity workers : Nat) (least : 2 ≤ capacity / workers)
    (most : capacity / workers ≤ 524287) (buffers : Nat → Nat → Slot) (calls : List PoolCall)
    (h : PoolHistory) (run : PoolRun capacity workers calls h) :
    ∃ ring answers, calls.foldlM RingPool.step (.init capacity workers buffers, []) =
        .ok (ring, answers) ∧
      calls.foldlM MemoryPool.step (.init capacity workers, []) = .ok (h.pool, answers) ∧
      ring.view = h.pool ∧
      ∀ call, PoolAllowed h call → ∃ next, RingPool.step (ring, answers) call = .ok next := by
  obtain ⟨ring, answers, rings, lists, quiet, view⟩ :=
    ring_run capacity workers buffers calls h run
  refine ⟨ring, answers, rings, lists, view, fun call allowed => ?_⟩
  cases call with
  | allocate worker =>
      obtain ⟨next, result, _⟩ := ring_allocate ring quiet worker
      exact ⟨_, by rw [RingPool.step, result]; rfl⟩
  | deallocate slot =>
      have inv := pool_run_inv capacity workers least most calls h run
      have freed := deallocate_result capacity workers h inv slot allowed
      obtain ⟨next, result, _⟩ := ring_deallocate ring quiet slot _ (view ▸ freed)
      exact ⟨_, by rw [RingPool.step, result]; rfl⟩

theorem small_ring_pool :
    ∃ ring answers,
    smallPoolCalls.foldlM RingPool.step (.init 7 3 fun _ _ => 0, []) = .ok (ring, answers) ∧
    answers = [some 1, some 2, none, some 1, some 4] := by
  have result : (execute PoolAllowed poolStep (.init 7 3) smallPoolCalls).isSome = true := by
    decide
  obtain ⟨h, found⟩ := Option.isSome_iff_exists.mp result
  have run := execute_run PoolAllowed poolStep smallPoolCalls (.init 7 3) h found
  obtain ⟨ring, answers, rings, lists, _⟩ :=
    ring_pool_refines 7 3 (by decide) (by decide) (fun _ _ => 0) smallPoolCalls h run
  have given : (smallPoolCalls.foldlM MemoryPool.step (.init 7 3, [])).toOption.map Prod.snd =
      some [some 1, some 2, none, some 1, some 4] := by decide
  rw [lists] at given
  exact ⟨ring, answers, rings, Option.some.inj given⟩

end HftExchange
