import HftExchange.Base.Binary64

set_option autoImplicit false

namespace HftExchange.Monitoring

open Base

inductive HealthLevel where
  | ok
  | warn
  | critical
deriving DecidableEq, Repr

def HealthLevel.rank : HealthLevel → Nat
  | .ok => 0
  | .warn => 1
  | .critical => 2

def worst (first second : HealthLevel) : HealthLevel := if first.rank < second.rank then second else first

structure ShardStats where
  poolHighWater : Nat
  engineQDepth : Nat
  dropcopyQDepth : Nat
  mktdataQDepth : Nat

structure StatsSnapshot where
  shards : List ShardStats
  droppedReports : Nat
  droppedDropCopies : Nat

def poolCapacity : Nat := 500000

def heartbeatStaleNs : ℚ := 500000000
def heartbeatSkewNs : ℚ := 50000000
def queueDepthWarn : Nat := 100000
def poolHeadroomWarn : ℚ := Binary64.rounded (1 / 10)

def poolHeadroom (shard : ShardStats) (capacity : Nat) : ℚ :=
  if capacity = 0 then 0 else Binary64.sub 1 (Binary64.div shard.poolHighWater capacity)

inductive ShardReason where
  | queueDepth (depth : Nat)
  | poolFree (headroom : ℚ)
deriving DecidableEq

structure ShardHealth where
  level : HealthLevel
  why : List ShardReason
  maxDepth : Nat
  poolHeadroom : ℚ

def assessShard (sh : ShardStats) : ShardHealth :=
  let depth := max (max sh.engineQDepth sh.dropcopyQDepth) sh.mktdataQDepth
  let (level, why) :=
    if queueDepthWarn < depth then (worst .ok .warn, [ShardReason.queueDepth depth]) else (HealthLevel.ok, [])
  let headroom := poolHeadroom sh poolCapacity
  let (level, why) :=
    if headroom < poolHeadroomWarn then (worst level .critical, why ++ [.poolFree headroom]) else (level, why)
  ⟨level, why, depth, headroom⟩

inductive HealthReason where
  | heartbeatStale (age : ℚ)
  | heartbeatFuture (age : ℚ)
  | drops (reports dropCopies : Nat)
deriving DecidableEq

structure Health where
  overall : HealthLevel
  heartbeatAge : ℚ
  reasons : List HealthReason
  shards : List ShardHealth

-- The age of the heartbeat is what the clock makes of the snapshot's and its
-- own time stamp.
def assess (snap : StatsSnapshot) (age : ℚ) : Health :=
  let (overall, reasons) :=
    if heartbeatStaleNs < age then (worst .ok .critical, [HealthReason.heartbeatStale age])
    else if age < -heartbeatSkewNs then (worst .ok .warn, [.heartbeatFuture age])
    else (.ok, [])
  let (overall, reasons) :=
    if snap.droppedReports ≠ 0 ∨ snap.droppedDropCopies ≠ 0 then
      (worst overall .warn, reasons ++ [.drops snap.droppedReports snap.droppedDropCopies])
    else (overall, reasons)
  let shards := snap.shards.map assessShard
  ⟨shards.foldl (fun overall shard => worst overall shard.level) overall, age, reasons, shards⟩

def Health.levelOf (report : Health) (i : Nat) : Option HealthLevel :=
  report.shards[i]?.map ShardHealth.level

theorem level_of_assessed (snap : StatsSnapshot) (age : ℚ) (i : Nat) (sh : ShardStats)
    (listed : snap.shards[i]? = some sh) :
    (assess snap age).levelOf i = some (assessShard sh).level := by
  have shards : (assess snap age).shards = snap.shards.map assessShard := rfl
  rw [Health.levelOf, shards, List.getElem?_map, listed]
  rfl

theorem worst_critical (level : HealthLevel) : worst level .critical = .critical := by
  cases level <;> rfl

theorem shard_critical_iff (sh : ShardStats) :
    (assessShard sh).level = .critical ↔ poolHeadroom sh poolCapacity < poolHeadroomWarn := by
  unfold assessShard
  by_cases low : poolHeadroom sh poolCapacity < poolHeadroomWarn
  · simp [low, worst_critical]
  · by_cases deep : queueDepthWarn < max (max sh.engineQDepth sh.dropcopyQDepth) sh.mktdataQDepth
    · simp only [if_neg low, if_pos deep]
      exact iff_of_false (by decide) low
    · simp only [if_neg low, if_neg deep]
      exact iff_of_false (by decide) low

theorem worst_at_least (first second : HealthLevel) :
    first.rank ≤ (worst first second).rank ∧ second.rank ≤ (worst first second).rank := by
  cases first <;> cases second <;> decide

theorem assess_critical (snap : StatsSnapshot) (age : ℚ) (sh : ShardStats) (listed : sh ∈ snap.shards)
    (critical : (assessShard sh).level = .critical) : (assess snap age).overall = .critical := by
  have grows : ∀ (shards : List ShardHealth) (level : HealthLevel),
      level.rank ≤ (shards.foldl (fun overall shard => worst overall shard.level) level).rank ∧
      ∀ shard ∈ shards, shard.level.rank ≤
        (shards.foldl (fun overall shard => worst overall shard.level) level).rank := by
    intro shards
    induction shards with
    | nil => exact fun level => ⟨Nat.le_refl _, fun _ member => by cases member⟩
    | cons first rest ih =>
        intro level
        obtain ⟨kept, each⟩ := ih (worst level first.level)
        obtain ⟨before, now_⟩ := worst_at_least level first.level
        refine ⟨Nat.le_trans before kept, fun shard member => ?_⟩
        rcases List.mem_cons.mp member with rfl | later
        · exact Nat.le_trans now_ kept
        · exact each shard later
  have reached : HealthLevel.rank .critical ≤ (assess snap age).overall.rank := by
    rw [← critical]
    exact (grows (snap.shards.map assessShard) _).2 _ (List.mem_map_of_mem listed)
  cases overall : (assess snap age).overall with
  | critical => rfl
  | ok | warn =>
      rw [overall] at reached
      exact absurd reached (by decide)

theorem warn_value : poolHeadroomWarn = 7205759403792794 / 2 ^ 56 := by
  rw [poolHeadroomWarn, Binary64.rounded_eq (1 / 10) (-4) 7205759403792794 (by norm_num)
    (by norm_num) (by norm_num) (by norm_num [abs_lt])]
  norm_num

-- At nine tenths the quotient is rounded up, and the headroom falls below the
-- threshold although a tenth is free.
theorem headroom_at_tenth : Binary64.sub 1 (Binary64.div 450000 500000) = 7205759403792792 / 2 ^ 56 := by
  have quotient : Binary64.div 450000 500000 = 8106479329266893 / 2 ^ 53 := by
    rw [Binary64.div, show (450000 : ℚ) / 500000 = 9 / 10 by norm_num,
      Binary64.rounded_eq (9 / 10) (-1) 8106479329266893 (by norm_num) (by norm_num) (by norm_num)
        (by norm_num [abs_lt])]
    norm_num
  rw [quotient, Binary64.sub, Binary64.rounded_eq (1 - 8106479329266893 / 2 ^ 53) (-4)
    7205759403792792 (by norm_num) (by norm_num) (by norm_num)
    (by norm_num [abs_lt])]
  norm_num

theorem headroom_error (used : ℚ) (positive : 0 ≤ used) (bound : used ≤ 500000) :
    |1 - used / 500000 - Binary64.sub 1 (Binary64.div used 500000)| ≤ 2 ^ (-52 : ℤ) := by
  have lower : 0 ≤ used / 500000 := by positivity
  have upper : used / 500000 ≤ 1 := by linarith
  have first : |used / 500000 - Binary64.div used 500000| ≤ 2 ^ (-53 : ℤ) :=
    Binary64.small_error (used / 500000) (by rw [abs_of_nonneg lower]; linarith)
  norm_num at first ⊢
  obtain ⟨low, high⟩ := abs_le.mp first
  have second : |1 - Binary64.div used 500000 - Binary64.sub 1 (Binary64.div used 500000)| ≤ 2 ^ (-53 : ℤ) :=
    Binary64.small_error (1 - Binary64.div used 500000) (abs_lt.mpr ⟨by linarith, by linarith⟩)
  norm_num at second
  obtain ⟨low', high'⟩ := abs_le.mp second
  exact abs_le.mpr ⟨by linarith, by linarith⟩

theorem headroom_low_iff (sh : ShardStats) (bound : sh.poolHighWater ≤ poolCapacity) :
    poolHeadroom sh poolCapacity < poolHeadroomWarn ↔ 450000 ≤ sh.poolHighWater := by
  have size : (sh.poolHighWater : ℚ) ≤ 500000 := by exact_mod_cast bound
  have error := headroom_error sh.poolHighWater (by positivity) size
  have value : poolHeadroom sh poolCapacity = Binary64.sub 1 (Binary64.div sh.poolHighWater 500000) := by
    simp [poolHeadroom, poolCapacity]
  rw [value, warn_value]
  norm_num at error ⊢
  obtain ⟨low, high⟩ := abs_le.mp error
  constructor
  · intro less
    by_contra fewer
    have whole : (sh.poolHighWater : ℚ) ≤ 449999 :=
      by exact_mod_cast Nat.le_of_lt_succ (Nat.lt_of_not_le fewer)
    linarith
  · intro many
    rcases Nat.eq_or_lt_of_le many with exact_ | more
    · have tenth := headroom_at_tenth
      norm_num at tenth
      rw [← exact_]
      push_cast
      rw [tenth]
      norm_num
    · have whole : (450001 : ℚ) ≤ sh.poolHighWater := by exact_mod_cast more
      linarith

end HftExchange.Monitoring
