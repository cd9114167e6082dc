import HftExchange.Base.Runs
import HftExchange.Core.MemoryPool

set_option autoImplicit false

namespace HftExchange

open Base

namespace MemoryPool

-- The sum over the workers, in 32-bit arithmetic, of what each has taken of
-- its slice.
def slotsUsed (pool : MemoryPool) : Nat :=
  (List.range pool.numWorkers).foldl
    (fun total i => (total + (pool.highWaterMark i + 2 ^ 32 - i * pool.sliceCapacity % 2 ^ 32)) % 2 ^ 32) 0

end MemoryPool

-- A pool with the history of its calls: the slots its users hold, the worker
-- each was last allocated by, and all slots ever handed out.
structure PoolHistory where
  pool : MemoryPool
  live : Finset Nat
  owner : Nat → Nat
  handed : Finset Nat

inductive PoolCall where
  | allocate (worker : Nat)
  | deallocate (slot : Slot)
deriving DecidableEq, Repr

def PoolHistory.init (capacity workers : Nat) : PoolHistory := ⟨.init capacity workers, ∅, fun _ => 0, ∅⟩

def poolStep (h : PoolHistory) : PoolCall → Checked PoolHistory
  | .allocate worker =>
      match h.pool.allocate worker with
      | some (slot, pool) =>
          pure ⟨pool, insert slot h.live, Function.update h.owner slot worker, insert slot h.handed⟩
      | none => pure h
  | .deallocate slot => do
      let pool ← h.pool.deallocate slot
      pure { h with pool := pool, live := h.live.erase slot }

def PoolAllowed (h : PoolHistory) : PoolCall → Prop
  | .allocate worker => worker < h.pool.numWorkers
  | .deallocate slot => slot ∈ h.live

instance (h : PoolHistory) : (call : PoolCall) → Decidable (PoolAllowed h call)
  | .allocate worker => inferInstanceAs (Decidable (worker < _))
  | .deallocate slot => inferInstanceAs (Decidable (slot ∈ h.live))

def PoolRun (capacity workers : Nat) : List PoolCall → PoolHistory → Prop :=
  Run (.init capacity workers) (Guarded PoolAllowed poolStep)

def InSlice (pool : MemoryPool) (worker : Nat) (slot : Slot) : Prop :=
  worker * pool.sliceCapacity ≤ slot ∧ slot < (worker + 1) * pool.sliceCapacity

theorem in_slice_iff (pool : MemoryPool) (positive : 0 < pool.sliceCapacity) (worker : Nat) (slot : Slot) :
    InSlice pool worker slot ↔ slot / pool.sliceCapacity = worker := by
  constructor
  · exact fun inside => slice_of _ worker slot inside.1 inside.2
  · rintro rfl
    refine ⟨Nat.div_mul_le_self slot _, ?_⟩
    rw [Nat.succ_mul]
    exact Nat.lt_div_mul_add positive

def MemoryPool.Hosts (pool : MemoryPool) (slot : Slot) : Prop :=
  0 < slot ∧ slot / pool.sliceCapacity < pool.numWorkers

instance (pool : MemoryPool) (slot : Slot) : Decidable (pool.Hosts slot) :=
    inferInstanceAs (Decidable (_ ∧ _))

structure HistoryInv (capacity workers : Nat) (h : PoolHistory) : Prop where
  slice : h.pool.sliceCapacity = capacity / workers
  numWorkers : h.pool.numWorkers = workers
  valid : h.pool.Valid
  balance : ∀ slot : Nat, h.pool.free slot + (if slot ∈ h.live then 1 else 0) =
    if h.pool.Hosts slot then 1 else 0
  marks : ∀ worker, worker < workers → h.pool.highWaterMark worker ≤ (worker + 1) * h.pool.sliceCapacity
  handed : ∀ slot : Nat, slot ∈ h.handed ↔ h.pool.Hosts slot ∧ slot < h.pool.highWaterMark
    (slot / h.pool.sliceCapacity)
  owner : ∀ slot : Nat, slot ∈ h.live → h.owner slot = slot / h.pool.sliceCapacity

theorem initial_history_inv (capacity workers : Nat) (least : 2 ≤ capacity / workers)
    (most : capacity / workers ≤ 524287) :
    HistoryInv capacity workers (.init capacity workers) := by
  have bounded : capacity / workers < queueCapacity := Nat.lt_of_le_of_lt most (by decide)
  refine ⟨rfl, rfl, init_valid capacity workers (by omega) bounded, fun slot => ?_, fun worker _ =>
      ?_, fun slot => ?_, by
    simp [PoolHistory.init]⟩
  · rw [show (PoolHistory.init capacity workers).pool = .init capacity workers from rfl, init_free]
    simp only [PoolHistory.init, Finset.notMem_empty, if_false, Nat.add_zero]
    exact if_congr Iff.rfl rfl rfl
  · simp only [PoolHistory.init, MemoryPool.init, Nat.succ_mul]
    split <;> omega
  · have lower := Nat.div_mul_le_self slot (capacity / workers)
    simp only [PoolHistory.init, MemoryPool.init, MemoryPool.Hosts, Finset.notMem_empty, false_iff,
      not_and, Nat.not_lt]
    intro usable
    split
    · rename_i first
      rw [first, Nat.zero_mul]
      exact usable.1
    · exact lower

section
variable (capacity workers : Nat) (h : PoolHistory) (inv : HistoryInv capacity workers h)
include inv

theorem live_not_free (slot : Slot) (live : slot ∈ h.live) : h.pool.free slot = 0 ∧ h.pool.Hosts slot := by
  have balance := inv.balance slot
  rw [if_pos live] at balance
  split at balance
  · rename_i usable
    exact ⟨by omega, usable⟩
  · omega

theorem free_usable (slot : Slot) (free : 0 < h.pool.free slot) : h.pool.Hosts slot ∧ slot ∉ h.live := by
  have balance := inv.balance slot
  by_cases usable : h.pool.Hosts slot
  · refine ⟨usable, fun live => ?_⟩
    rw [if_pos live, if_pos usable] at balance
    omega
  · rw [if_neg usable] at balance
    omega

theorem recycled_below (slot : Slot) (worker : Nat) (waits : slot ∈ h.pool.recycleQueues worker) :
    slot / h.pool.sliceCapacity = worker ∧ 0 < h.pool.free slot ∧ slot < h.pool.highWaterMark worker := by
  have home := inv.valid.home worker slot waits
  have once := inv.valid.once slot
  have counted := List.count_pos_iff.mpr waits
  rw [MemoryPool.free, home] at once
  have free : 0 < h.pool.free slot := by
    rw [MemoryPool.free, home]
    omega
  obtain ⟨⟨_, inside⟩, _⟩ := free_usable capacity workers h inv slot free
  have touched : h.pool.untouched slot = 0 := by omega
  rw [MemoryPool.untouched, home] at touched
  rw [home] at inside
  refine ⟨home, free, ?_⟩
  by_contra above
  rw [if_pos ⟨inside, Nat.le_of_not_lt above⟩] at touched
  exact absurd touched Nat.one_ne_zero

theorem mark_free (worker : Nat) (member : worker < workers)
    (room : h.pool.highWaterMark worker < (worker + 1) * h.pool.sliceCapacity) :
    h.pool.highWaterMark worker / h.pool.sliceCapacity = worker ∧
    0 < h.pool.free (h.pool.highWaterMark worker) := by
  have lower := inv.valid.marks worker (inv.numWorkers ▸ member)
  have home := slice_of _ worker _ lower room
  refine ⟨home, ?_⟩
  rw [MemoryPool.free, MemoryPool.untouched, home, if_pos ⟨inv.numWorkers ▸ member, Nat.le_refl _⟩]
  omega

theorem allocate_cases (worker : Nat) (slot : Slot) (next : MemoryPool) (member : worker < workers)
    (taken : h.pool.allocate worker = some (slot, next)) :
    slot / h.pool.sliceCapacity = worker ∧ 0 < h.pool.free slot ∧
      (next.highWaterMark = h.pool.highWaterMark ∧ slot < h.pool.highWaterMark worker ∨
        slot = h.pool.highWaterMark worker ∧ slot < (worker + 1) * h.pool.sliceCapacity ∧
          next.highWaterMark = Function.update h.pool.highWaterMark worker (slot + 1)) := by
  unfold MemoryPool.allocate at taken
  cases queue : h.pool.recycleQueues worker with
  | cons index rest =>
      rw [queue] at taken
      obtain ⟨rfl, rfl⟩ := Prod.mk.inj (Option.some.inj taken)
      obtain ⟨home, free, below⟩ := recycled_below capacity workers h inv index worker (by simp [queue])
      exact ⟨home, free, .inl ⟨rfl, below⟩⟩
  | nil =>
      rw [queue] at taken
      simp only [Option.ite_none_right_eq_some, Option.some.injEq, Prod.mk.injEq] at taken
      obtain ⟨room, rfl, rfl⟩ := taken
      obtain ⟨home, free⟩ := mark_free capacity workers h inv worker member room
      exact ⟨home, free, .inr ⟨rfl, room, rfl⟩⟩

theorem allocate_inv (worker : Nat) (slot : Slot) (next : MemoryPool) (member : worker < workers)
    (taken : h.pool.allocate worker = some (slot, next)) :
    HistoryInv capacity workers ⟨next, insert slot h.live, Function.update h.owner slot worker,
      insert slot h.handed⟩ := by
  obtain ⟨_, ⟨slices, same⟩, valid, balance⟩ := allocate_spec h.pool next worker slot inv.valid
    (inv.numWorkers ▸ member) taken
  obtain ⟨home, free, marks⟩ := allocate_cases capacity workers h inv worker slot next member taken
  obtain ⟨usable, dead⟩ := free_usable capacity workers h inv slot free
  have usable_ : ∀ other : Nat, next.Hosts other ↔ h.pool.Hosts other := fun other => by
    rw [MemoryPool.Hosts, MemoryPool.Hosts, slices, same]
  refine ⟨slices.trans inv.slice, same.trans inv.numWorkers, valid, fun other => ?_, fun w inside =>
    ?_, fun other => ?_, fun other live => ?_⟩
  · have before := inv.balance other
    rw [balance other] at before
    simp only [usable_, Finset.mem_insert]
    by_cases taken_ : other = slot
    · subst taken_
      rw [if_pos rfl, if_neg dead] at before
      rwa [if_pos (.inl rfl)]
    · simpa [taken_] using before
  · have bound := inv.marks w inside
    dsimp only
    rw [slices]
    rcases marks with ⟨still, _⟩ | ⟨_, room, moved⟩
    · rwa [still]
    · rw [moved]
      by_cases own : w = worker
      · subst own
        rwa [Function.update_self]
      · rwa [Function.update_of_ne own]
  · simp only [Finset.mem_insert, inv.handed, usable_, slices]
    rcases marks with ⟨still, below⟩ | ⟨first, room, moved⟩
    · rw [still]
      refine ⟨fun either => either.elim (fun new => ?_) id, .inr⟩
      subst new
      exact ⟨usable, home ▸ below⟩
    · rw [moved]
      by_cases own : other / h.pool.sliceCapacity = worker
      · rw [own, Function.update_self, ← first]
        constructor
        · rintro (rfl | ⟨usable', below⟩)
          · exact ⟨usable, Nat.lt_succ_self _⟩
          · exact ⟨usable', Nat.lt_succ_of_lt below⟩
        · rintro ⟨usable', below⟩
          rcases Nat.lt_succ_iff_lt_or_eq.mp below with less | equal
          · exact .inr ⟨usable', less⟩
          · exact .inl equal
      · rw [Function.update_of_ne own]
        have different : other ≠ slot := fun equal => own (equal ▸ home)
        simp [different]
  · dsimp only
    rw [slices]
    by_cases new : other = slot
    · subst new
      rw [Function.update_self, home]
    · rw [Function.update_of_ne new]
      exact inv.owner other (Finset.mem_of_mem_insert_of_ne live new)

theorem deallocate_result (slot : Slot) (live : slot ∈ h.live) :
    h.pool.deallocate slot =
    .ok (h.pool.setQueue (h.owner slot) (h.pool.recycleQueues (h.owner slot) ++ [slot])) := by
  obtain ⟨dead, _, inside⟩ := live_not_free capacity workers h inv slot live
  have room := recycle_room h.pool slot inv.valid dead
  rw [inv.owner slot live]
  simp [MemoryPool.deallocate, inside, pushQueue, room]

theorem deallocate_inv (slot : Slot) (live : slot ∈ h.live) :
    ∃ next, h.pool.deallocate slot = .ok next ∧
    HistoryInv capacity workers { h with pool := next, live := h.live.erase slot } := by
  obtain ⟨dead, usable⟩ := live_not_free capacity workers h inv slot live
  obtain ⟨next, result, ⟨slices, same⟩, valid, balance⟩ := deallocate_spec h.pool slot inv.valid dead usable.2
  have marks : next.highWaterMark = h.pool.highWaterMark := by
    cases result.symm.trans (deallocate_result capacity workers h inv slot live)
    rfl
  have usable_ : ∀ other : Nat, next.Hosts other ↔ h.pool.Hosts other := fun other => by
    rw [MemoryPool.Hosts, MemoryPool.Hosts, slices, same]
  refine ⟨next, result, slices.trans inv.slice, same.trans inv.numWorkers, valid, fun other => ?_,
    fun w inside => ?_, fun other => ?_,
    fun other member => ?_⟩
  · have before := inv.balance other
    rw [balance other]
    simp only [usable_, Finset.mem_erase]
    by_cases given : other = slot
    · subst given
      rw [if_pos live, if_pos usable] at before
      simp only [ne_eq, not_true_eq_false, false_and, if_false, if_true, if_pos usable]
      omega
    · simpa [given] using before
  · simpa only [marks, slices] using inv.marks w inside
  · simpa only [usable_, marks, slices] using inv.handed other
  · simpa only [slices] using inv.owner other (Finset.mem_of_mem_erase member)

theorem pool_step_inv (call : PoolCall) (allowed : PoolAllowed h call) :
    ∃ next, poolStep h call = .ok next ∧ HistoryInv capacity workers next := by
  cases call with
  | allocate worker =>
      cases taken : h.pool.allocate worker with
      | none => exact ⟨h, by simp [poolStep, taken], inv⟩
      | some result =>
          obtain ⟨slot, next⟩ := result
          have member : worker < workers := by
            rw [← inv.numWorkers]
            exact allowed
          exact ⟨_, by simp only [poolStep, taken, checked_pure],
            allocate_inv capacity workers h inv worker slot next member taken⟩
  | deallocate slot =>
      obtain ⟨next, result, inv'⟩ := deallocate_inv capacity workers h inv slot allowed
      exact ⟨_, by simp only [poolStep, result, checked_bind_ok, checked_pure], inv'⟩

theorem allocate_none_iff (worker : Nat) (member : worker < workers) :
    h.pool.allocate worker = none ↔ ∀ slot : Nat, InSlice h.pool worker slot → slot ≠ 0 → slot ∈ h.live := by
  constructor
  · intro nothing slot inside nonzero
    have home := (in_slice_iff h.pool inv.valid.positive worker slot).mp inside
    unfold MemoryPool.allocate at nothing
    cases queue : h.pool.recycleQueues worker with
    | cons index rest => simp [queue] at nothing
    | nil =>
        have full : ¬ h.pool.highWaterMark worker < (worker + 1) * h.pool.sliceCapacity :=
          by simpa [queue] using nothing
        have taken : h.pool.free slot = 0 := by
          rw [MemoryPool.free, MemoryPool.untouched, home, queue, if_neg fun both =>
            full (Nat.lt_of_le_of_lt both.2 inside.2)]
          rfl
        have balance := inv.balance slot
        have usable : h.pool.Hosts slot :=
          ⟨Nat.pos_of_ne_zero nonzero, by rw [home, inv.numWorkers]; exact member⟩
        by_contra dead
        rw [taken, if_neg dead, if_pos usable] at balance
        omega
  · intro used
    cases result : h.pool.allocate worker with
    | none => rfl
    | some taken =>
        obtain ⟨slot, next⟩ := taken
        obtain ⟨home, free, _⟩ := allocate_cases capacity workers h inv worker slot next member result
        obtain ⟨⟨nonzero, _⟩, dead⟩ := free_usable capacity workers h inv slot free
        exact absurd (used slot ((in_slice_iff h.pool inv.valid.positive worker slot).mpr home)
          (Nat.ne_of_gt nonzero)) dead

theorem handed_slices (some_ : 0 < workers) :
    insert 0 h.handed =
    (Finset.range workers).biUnion fun w => Finset.Ico (w * h.pool.sliceCapacity)
    (h.pool.highWaterMark w) := by
  have positive := inv.valid.positive
  ext slot
  simp only [Finset.mem_insert, inv.handed, Finset.mem_biUnion, Finset.mem_range, Finset.mem_Ico]
  constructor
  · rintro (rfl | ⟨⟨_, inside⟩, below⟩)
    · -- The null handle is below the first mark, or it would be free.
      have first : ¬ h.pool.highWaterMark 0 ≤ 0 := fun low => by
        have free : 0 < h.pool.free 0 := by
          rw [MemoryPool.free, MemoryPool.untouched, Nat.zero_div, if_pos ⟨inv.numWorkers ▸ some_, low⟩]
          omega
        exact absurd (free_usable capacity workers h inv 0 free).1.1 (Nat.lt_irrefl 0)
      exact ⟨0, some_, by simp, by omega⟩
    · exact ⟨slot / h.pool.sliceCapacity, inv.numWorkers ▸ inside, Nat.div_mul_le_self .., below⟩
  · rintro ⟨w, member, lower, below⟩
    have home := slice_of _ w slot lower (Nat.lt_of_lt_of_le below (inv.marks w member))
    refine (Nat.eq_zero_or_pos slot).imp_right fun nonzero => ⟨⟨nonzero, ?_⟩, home ▸ below⟩
    rw [home, inv.numWorkers]
    exact member

theorem handed_card (some_ : 0 < workers) :
    1 + h.handed.card =
    ∑ w ∈ Finset.range workers, (h.pool.highWaterMark w - w * h.pool.sliceCapacity) := by
  have null : 0 ∉ h.handed := fun member => absurd ((inv.handed 0).mp member).1.1 (Nat.lt_irrefl 0)
  rw [Nat.add_comm, ← Finset.card_insert_of_notMem null, handed_slices capacity workers h inv some_,
    Finset.card_biUnion]
  · simp only [Nat.card_Ico]
  · intro v first w second different
    refine Finset.disjoint_left.mpr fun slot left right => different ?_
    obtain ⟨lower, below⟩ := Finset.mem_Ico.mp left
    obtain ⟨lower', below'⟩ := Finset.mem_Ico.mp right
    have home := slice_of _ v slot lower (Nat.lt_of_lt_of_le below (inv.marks v (Finset.mem_range.mp first)))
    have home' := slice_of _ w slot lower'
      (Nat.lt_of_lt_of_le below' (inv.marks w (Finset.mem_range.mp second)))
    exact home.symm.trans home'

theorem slots_used_sum (word : capacity < 2 ^ 32) :
    h.pool.slotsUsed = ∑ w ∈ Finset.range workers, (h.pool.highWaterMark w - w * h.pool.sliceCapacity) := by
  have whole : workers * h.pool.sliceCapacity ≤ capacity := by
    rw [inv.slice]
    exact Nat.mul_div_le capacity workers
  have partial_ : ∀ n, n ≤ workers → (List.range n).foldl
      (fun total i => (total + (h.pool.highWaterMark i + 2 ^ 32 - i * h.pool.sliceCapacity % 2 ^
        32)) % 2 ^ 32) 0 =
        ∑ w ∈ Finset.range n, (h.pool.highWaterMark w - w * h.pool.sliceCapacity) ∧
      ∑ w ∈ Finset.range n, (h.pool.highWaterMark w - w * h.pool.sliceCapacity) ≤
        n * h.pool.sliceCapacity := by
    intro n
    induction n with
    | zero => exact fun _ => ⟨rfl, Nat.zero_le _⟩
    | succ n ih =>
        intro below
        obtain ⟨sum, bound⟩ := ih (by omega)
        have lower := inv.valid.marks n (inv.numWorkers ▸ below)
        have upper := inv.marks n below
        have slices := Nat.mul_le_mul_right h.pool.sliceCapacity below
        rw [Nat.succ_mul] at upper slices
        rw [List.range_succ, List.foldl_append, sum, Finset.sum_range_succ, Nat.succ_mul,
          List.foldl_cons, List.foldl_nil]
        omega
  rw [MemoryPool.slotsUsed, inv.numWorkers]
  exact (partial_ workers (Nat.le_refl _)).1

end

theorem pool_run_inv (capacity workers : Nat) (least : 2 ≤ capacity / workers)
    (most : capacity / workers ≤ 524287) (calls : List PoolCall)
    (h : PoolHistory) (run : PoolRun capacity workers calls h) : HistoryInv capacity workers h := by
  refine run_invariant (HistoryInv capacity workers)
    (initial_history_inv capacity workers least most) ?_ calls h run
  rintro before call after inv ⟨allowed, step⟩
  obtain ⟨next, result, inv'⟩ := pool_step_inv capacity workers before inv call allowed
  cases step.symm.trans result
  exact inv'

theorem memory_pool_contract (capacity workers : Nat) (word : capacity < 2 ^ 32)
    (least : 2 ≤ capacity / workers) (most : capacity / workers ≤ 524287)
    (calls : List PoolCall) (h : PoolHistory) (run : PoolRun capacity workers calls h) :
    (h.pool.sliceCapacity = capacity / workers ∧ h.pool.numWorkers = workers) ∧
    (∀ worker, worker < workers → ∀ slot next, h.pool.allocate worker = some (slot, next) →
      InSlice h.pool worker slot ∧ slot ≠ 0 ∧ slot ∉ h.live) ∧
    (∀ worker, worker < workers →
      (h.pool.allocate worker = none ↔ ∀ slot : Nat, InSlice h.pool worker slot →
        slot ≠ 0 → slot ∈ h.live) ∧
      (h.pool.allocate worker = none → poolStep h (.allocate worker) = .ok h)) ∧
    (∀ slot ∈ h.live, InSlice h.pool (h.owner slot) slot ∧
      h.pool.deallocate slot = .ok
      (h.pool.setQueue (h.owner slot) (h.pool.recycleQueues (h.owner slot) ++ [slot]))) ∧
    h.pool.slotsUsed = 1 + h.handed.card := by
  have inv := pool_run_inv capacity workers least most calls h run
  have some_ : 0 < workers := Nat.pos_of_ne_zero fun zero => by
    rw [zero, Nat.div_zero] at least
    omega
  refine ⟨⟨inv.slice, inv.numWorkers⟩, fun worker member slot next taken => ?_,
    fun worker member => ⟨allocate_none_iff capacity workers h inv worker member, ?_⟩,
    fun slot live => ⟨?_, deallocate_result capacity workers h inv slot live⟩, ?_⟩
  · obtain ⟨home, free, _⟩ := allocate_cases capacity workers h inv worker slot next member taken
    obtain ⟨⟨nonzero, _⟩, dead⟩ := free_usable capacity workers h inv slot free
    exact ⟨(in_slice_iff h.pool inv.valid.positive worker slot).mpr home, Nat.ne_of_gt nonzero, dead⟩
  · intro nothing
    simp [poolStep, nothing]
  · exact (in_slice_iff h.pool inv.valid.positive _ slot).mpr (inv.owner slot live).symm
  · rw [slots_used_sum capacity workers h inv word, handed_card capacity workers h inv some_]

-- Three slices of two slots in a pool of seven. The only slot of the first is
-- refused while it is live, and is handed out again once it is back.
def smallPoolCalls : List PoolCall :=
    [.allocate 0, .allocate 1, .allocate 0, .deallocate 1, .allocate 0, .allocate 2]

theorem small_pool_contract :
    ∃ h, PoolRun 7 3 smallPoolCalls h ∧ h.live = {1, 2, 4} ∧
    h.pool.sliceCapacity = 2 ∧ h.pool.slotsUsed = 1 + h.handed.card := by
  have result : (execute PoolAllowed poolStep (.init 7 3) smallPoolCalls).map PoolHistory.live =
      some {1, 2, 4} := by decide
  obtain ⟨h, found, live⟩ := Option.map_eq_some_iff.mp result
  have run := execute_run PoolAllowed poolStep smallPoolCalls (.init 7 3) h found
  obtain ⟨⟨slice, -⟩, -, -, -, used⟩ := memory_pool_contract 7 3 (by decide) (by decide)
    (by decide) smallPoolCalls h run
  exact ⟨h, run, live, slice, used⟩

end HftExchange
