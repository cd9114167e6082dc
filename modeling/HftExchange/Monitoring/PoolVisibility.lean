import HftExchange.Book.OrderBook
import HftExchange.Core.PoolContract
import HftExchange.Monitoring.Health

set_option autoImplicit false

namespace HftExchange.Monitoring

open Base

-- The block of a shard as the exchange samples it.
def sample (pool : MemoryPool) (engineQDepth dropcopyQDepth mktdataQDepth : Nat) : ShardStats :=
  ⟨pool.slotsUsed, engineQDepth, dropcopyQDepth, mktdataQDepth⟩

def freeSlots (h : PoolHistory) : Nat :=
  ((Finset.range poolCapacityPerShard).filter fun slot => h.pool.Hosts slot ∧ slot ∉ h.live).card

-- A refused allocation shows in the headroom and makes the shard and the whole
-- exchange critical, and a critical shard has less than a tenth of its slots free.
structure ExhaustionVisible (workers : Nat) (h : PoolHistory) (sh : ShardStats) (i : Nat)
    (report : Health) : Prop where
  shown : ∀ worker, worker < workers → h.pool.allocate worker = none →
    poolHeadroom sh poolCapacity < poolHeadroomWarn ∧
    report.levelOf i = some .critical ∧ report.overall = .critical
  justified : report.levelOf i = some .critical → 10 * freeSlots h < poolCapacityPerShard

theorem slice_range (workers : Nat) (one : 1 ≤ workers) (sixteen : workers ≤ 16) :
    2 ≤ poolCapacityPerShard / workers ∧ poolCapacityPerShard / workers ≤ 524287 := by
  constructor
  · exact (Nat.le_div_iff_mul_le one).mpr (Nat.le_trans (Nat.mul_le_mul_left 2 sixteen) (by decide))
  · exact Nat.le_trans (Nat.div_le_self ..) (by decide)

section
variable (workers : Nat) (h : PoolHistory) (inv : HistoryInv poolCapacityPerShard workers h)
  (one : 1 ≤ workers)
include inv one

theorem slots_used_card : h.pool.slotsUsed = 1 + h.handed.card := by
  rw [slots_used_sum _ workers h inv (by decide), handed_card _ workers h inv one]

theorem slots_used_le : h.pool.slotsUsed ≤ poolCapacity := by
  have inside : insert 0 h.handed ⊆ Finset.range poolCapacityPerShard := by
    rw [handed_slices _ workers h inv one]
    intro slot member
    obtain ⟨w, worker, within⟩ := Finset.mem_biUnion.mp member
    have mark := inv.marks w (Finset.mem_range.mp worker)
    have last := Nat.mul_le_mul_right h.pool.sliceCapacity (Nat.succ_le_of_lt (Finset.mem_range.mp worker))
    have whole := Nat.mul_div_le poolCapacityPerShard workers
    rw [← inv.slice] at whole
    have below := (Finset.mem_Ico.mp within).2
    rw [Nat.succ_eq_add_one] at last
    exact Finset.mem_range.mpr (by omega)
  have null : 0 ∉ h.handed := fun member => absurd ((inv.handed 0).mp member).1.1 (Nat.lt_irrefl 0)
  have count := Finset.card_le_card inside
  rw [Finset.card_insert_of_notMem null, Finset.card_range] at count
  rw [slots_used_card workers h inv one, Nat.add_comm]
  exact count

theorem critical_iff_handed (engine dropcopy mktdata : Nat) :
    (assessShard (sample h.pool engine dropcopy mktdata)).level = .critical ↔ 449999 ≤ h.handed.card := by
  have bound := slots_used_le workers h inv one
  have used := slots_used_card workers h inv one
  rw [shard_critical_iff, headroom_low_iff _ bound,
    show (sample h.pool engine dropcopy mktdata).poolHighWater = h.pool.slotsUsed from rfl]
  omega

end

-- The monitor is right in exactly two kinds of state: few slots have been
-- handed out and every worker has one left, or many have and few are free.
theorem exhaustion_visible_iff (workers : Nat) (one : 1 ≤ workers) (sixteen : workers ≤ 16)
    (calls : List PoolCall) (h : PoolHistory)
    (run : PoolRun poolCapacityPerShard workers calls h) (engine dropcopy mktdata : Nat)
    (snap : StatsSnapshot) (i : Nat)
    (sampled : snap.shards[i]? = some (sample h.pool engine dropcopy mktdata)) (age : ℚ) :
    ExhaustionVisible workers h (sample h.pool engine dropcopy mktdata) i (assess snap age) ↔
      (h.handed.card < 449999 ∧ ∀ worker, worker < workers →
        ∃ slot : Nat, InSlice h.pool worker slot ∧ slot ≠ 0 ∧ slot ∉ h.live) ∨
      (449999 ≤ h.handed.card ∧ freeSlots h < 50000) := by
  obtain ⟨least, most⟩ := slice_range workers one sixteen
  have inv := pool_run_inv poolCapacityPerShard workers least most calls h run
  have size : poolCapacityPerShard = 500000 := rfl
  have level := level_of_assessed snap age i _ sampled
  have critical : (assess snap age).levelOf i = some .critical ↔ 449999 ≤ h.handed.card := by
    rw [level, Option.some.injEq]
    exact critical_iff_handed workers h inv one engine dropcopy mktdata
  constructor
  · rintro ⟨shown, justified⟩
    by_cases many : 449999 ≤ h.handed.card
    · have few := justified (critical.mpr many)
      exact .inr ⟨many, by omega⟩
    · refine .inl ⟨Nat.lt_of_not_le many, fun worker member => ?_⟩
      by_contra full
      push Not at full
      have refused := (allocate_none_iff _ workers h inv worker member).mpr full
      exact many (critical.mp (shown worker member refused).2.1)
  · rintro (⟨few, room⟩ | ⟨many, free⟩)
    · refine ⟨fun worker member refused => ?_, fun reported => ?_⟩
      · obtain ⟨slot, inside, nonzero, dead⟩ := room worker member
        have full := (allocate_none_iff _ workers h inv worker member).mp refused
        exact absurd (full slot inside nonzero) dead
      · have many := critical.mp reported
        omega
    · have reported := critical.mpr many
      have own : (assessShard (sample h.pool engine dropcopy mktdata)).level = .critical :=
        Option.some.inj (level.symm.trans reported)
      have whole := assess_critical snap age _ (List.mem_of_getElem? sampled) own
      exact ⟨fun _ _ _ => ⟨(shard_critical_iff _).mp own, reported, whole⟩, fun _ => by omega⟩

def taken (workers worker n : Nat) : PoolHistory :=
  let first := (MemoryPool.init poolCapacityPerShard workers).highWaterMark worker
  { pool := (MemoryPool.init poolCapacityPerShard workers).setMark worker (first + n)
    live := Finset.Ico first (first + n)
    owner := fun slot => if first ≤ slot ∧ slot < first + n then worker else 0
    handed := Finset.Ico first (first + n) }

theorem taken_step (workers worker n : Nat) (member : worker < workers)
    (room : (MemoryPool.init poolCapacityPerShard workers).highWaterMark worker + n <
      (worker + 1) * (poolCapacityPerShard / workers)) :
    Guarded PoolAllowed poolStep (taken workers worker n) (.allocate worker)
      (taken workers worker (n + 1)) := by
  let first := (MemoryPool.init poolCapacityPerShard workers).highWaterMark worker
  have result : (taken workers worker n).pool.allocate worker =
      some (first + n, (taken workers worker (n + 1)).pool) := by
    have queue : (taken workers worker n).pool.recycleQueues worker = [] := rfl
    have mark : (taken workers worker n).pool.highWaterMark worker = first + n := by
      simp [taken, MemoryPool.setMark, first]
    have slice : (taken workers worker n).pool.sliceCapacity =
      poolCapacityPerShard / workers := rfl
    have next : (taken workers worker n).pool.setMark worker (first + n + 1) =
        (taken workers worker (n + 1)).pool := by
      simp [taken, MemoryPool.setMark, Nat.add_assoc, first]
    simp only [MemoryPool.allocate, queue, mark, slice]
    rw [if_pos room, next]
  have more : insert (first + n) (Finset.Ico first (first + n)) =
      Finset.Ico first (first + (n + 1)) := by
    ext slot
    simp only [Finset.mem_insert, Finset.mem_Ico]
    omega
  have owner : Function.update (taken workers worker n).owner (first + n) worker =
      (taken workers worker (n + 1)).owner := by
    funext slot
    by_cases new : slot = first + n
    · subst new
      simp [taken, first]
    · rw [Function.update_of_ne new]
      exact if_congr (by omega) rfl rfl
  refine ⟨member, ?_⟩
  simp only [poolStep, result, checked_pure, owner]
  exact congrArg Except.ok (congr (congrArg (fun live => PoolHistory.mk _ live _) more) more)

theorem taken_run (workers worker n : Nat) (member : worker < workers)
    (room : (MemoryPool.init poolCapacityPerShard workers).highWaterMark worker + n ≤
      (worker + 1) * (poolCapacityPerShard / workers)) :
    PoolRun poolCapacityPerShard workers (List.replicate n (.allocate worker))
      (taken workers worker n) := by
  induction n with
  | zero =>
      have owner : (taken workers worker 0).owner = fun _ => 0 := by
        funext slot
        exact if_neg (by omega)
      have start : taken workers worker 0 = .init poolCapacityPerShard workers := by
        simp only [taken, Nat.add_zero, Finset.Ico_self] at owner ⊢
        rw [owner, MemoryPool.setMark, Function.update_eq_self]
        rfl
      rw [start]
      exact .start
  | succ n ih =>
      rw [List.replicate_succ']
      exact .snoc _ _ _ _ (ih (by omega)) (taken_step workers worker n member (by omega))

def busyPool : PoolHistory :=
  { taken 1 0 460000 with
    pool := (taken 1 0 460000).pool.setQueue 0 [7]
    live := (taken 1 0 460000).live.erase 7 }

theorem busy_pool_run :
    PoolRun poolCapacityPerShard 1
    (List.replicate 460000 (.allocate 0) ++ [.deallocate 7]) busyPool := by
  have run := taken_run 1 0 460000 (by decide) (by decide)
  have live : 7 ∈ (taken 1 0 460000).live := Finset.mem_Ico.mpr ⟨by decide, by decide⟩
  exact .snoc _ _ _ _ run ⟨live, rfl⟩

theorem busy_pool_free : freeSlots busyPool < 50000 := by
  have inside : ((Finset.range poolCapacityPerShard).filter fun slot : Nat =>
      busyPool.pool.Hosts slot ∧ slot ∉ busyPool.live) ⊆
      insert 7 (Finset.Ico 460001 500000) := by
    intro slot member
    obtain ⟨small, ⟨positive, -⟩, dead⟩ := Finset.mem_filter.mp member
    have small : slot < 500000 := Finset.mem_range.mp small
    have positive : 0 < slot := positive
    have dead : ¬(slot ≠ 7 ∧ 1 ≤ slot ∧ slot < 460001) := fun live =>
      dead (Finset.mem_erase.mpr ⟨live.1, Finset.mem_Ico.mpr live.2⟩)
    rw [Finset.mem_insert, Finset.mem_Ico]
    omega
  have count := (Finset.card_le_card inside).trans (Finset.card_insert_le _ _)
  rw [Nat.card_Ico] at count
  exact Nat.lt_of_le_of_lt count (by decide)

theorem busy_pool_visible :
    ∃ calls h, PoolRun poolCapacityPerShard 1 calls h ∧
    h.handed.card = 460000 ∧ freeSlots h < 50000 ∧
    ExhaustionVisible 1 h (sample h.pool 3 5 2) 1
      (assess ⟨[⟨1, 0, 0, 0⟩, sample h.pool 3 5 2], 0, 0⟩ 1000) := by
  have count : busyPool.handed.card = 460000 := Nat.card_Ico _ _
  exact ⟨_, busyPool, busy_pool_run, count, busy_pool_free,
    (exhaustion_visible_iff 1 (by decide) (by decide) _ busyPool busy_pool_run 3 5 2
      ⟨[⟨1, 0, 0, 0⟩, sample busyPool.pool 3 5 2], 0, 0⟩ 1 rfl 1000).mpr
      (.inr ⟨by rw [count]; decide, busy_pool_free⟩)⟩

-- With its slice used up the second of sixteen workers is refused, and the
-- shard is reported healthy.
theorem exhausted_slice_unseen :
    ∃ calls h, PoolRun poolCapacityPerShard 16 calls h ∧ h.pool.allocate 1 = none ∧
    (assess ⟨[sample h.pool 0 0 0], 0, 0⟩ 0).levelOf 0 = some .ok ∧
    ¬ ExhaustionVisible 16 h (sample h.pool 0 0 0) 0
      (assess ⟨[sample h.pool 0 0 0], 0, 0⟩ 0) := by
  have run := taken_run 16 1 31250 (by decide) (by decide)
  have inv := pool_run_inv poolCapacityPerShard 16 (by decide) (by decide) _ _ run
  have critical := critical_iff_handed 16 _ inv (by decide) 0 0 0
  have count : (taken 16 1 31250).handed.card = 31250 := Nat.card_Ico _ _
  have healthy : (assessShard (sample (taken 16 1 31250).pool 0 0 0)).level ≠ .critical := by
    rw [Ne, critical, count]
    decide
  have low : ¬ poolHeadroom (sample (taken 16 1 31250).pool 0 0 0) poolCapacity <
    poolHeadroomWarn := fun low => healthy ((shard_critical_iff _).mpr low)
  have level : (assessShard (sample (taken 16 1 31250).pool 0 0 0)).level = .ok := by
    simp only [assessShard, if_neg low]
    rfl
  have reported := level_of_assessed ⟨[sample (taken 16 1 31250).pool 0 0 0], 0, 0⟩ 0 0 _ rfl
  have refused : (taken 16 1 31250).pool.allocate 1 = none := rfl
  rw [level] at reported
  refine ⟨_, _, run, refused, reported, fun visible => ?_⟩
  have wrong := (visible.shown 1 (by decide) refused).2.1
  rw [reported] at wrong
  cases wrong

end HftExchange.Monitoring
