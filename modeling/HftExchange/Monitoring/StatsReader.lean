import HftExchange.Base.SeqlockCalls
import HftExchange.Engine.Shard

set_option autoImplicit false

namespace HftExchange.Monitoring

open Base
open Base.Reads (get getSeq)

-- A field's bytes; the 32-bit fields are held zero-extended.
abbrev Word := BitVec 64

def statsMaxShards : Nat := 8

inductive ShardField where
  | ordersIn
  | fills
  | cancels
  | rejects
  | engineQDepth
  | dropcopyQDepth
  | mktdataQDepth
  | poolHighWater
deriving DecidableEq

inductive StatsField where
  | magic
  | protocolVersion
  | numShards
  | tscAtAnchor
  | unixNsAtAnchor
  | cyclesPerNs
  | heartbeatTsc
  | droppedReports
  | droppedDropCopies
  | epollCycles
  | readCycles
  | decodeCycles
  | validationCycles
  | enqueueCycles
  | ordersProcessed
  | engineOrdersIn (i : Fin statsMaxShards)
  | shard (i : Fin statsMaxShards) (field : ShardField)
deriving DecidableEq

def initStatsRegion (tsc unixNs cyclesPerNs : Word) : StatsField → Word
  | .magic => 0x48465431
  | .protocolVersion => 1
  | .numShards => BitVec.ofNat 64 HftExchange.numShards
  | .tscAtAnchor => tsc
  | .unixNsAtAnchor => unixNs
  | .cyclesPerNs => cyclesPerNs
  | _ => 0

-- The rate is stored only when the measurement is long enough and near the
-- one made at the start.
def refreshAnchor (refined : Bool) : List StatsField :=
  [.tscAtAnchor, .unixNsAtAnchor] ++ if refined then [.cyclesPerNs] else []

def liveShards : List (Fin statsMaxShards) := (List.finRange statsMaxShards).take HftExchange.numShards

-- The fields the exchange's main loop stores inside stats_write, in order.
def statsBody (refined : Bool) : List StatsField :=
  refreshAnchor refined ++
  liveShards.flatMap (fun i =>
    [.shard i .engineQDepth, .shard i .dropcopyQDepth, .shard i .mktdataQDepth, .shard i .poolHighWater]) ++
  [.epollCycles, .readCycles, .decodeCycles, .validationCycles, .enqueueCycles, .ordersProcessed,
    .droppedReports, .droppedDropCopies] ++
  liveShards.map .engineOrdersIn

-- The OrderManager stores these at any time.
def orderManagerField : StatsField → Bool
  | .heartbeatTsc => true
  | .shard _ .ordersIn => true
  | .shard _ .fills => true
  | .shard _ .cancels => true
  | .shard _ .rejects => true
  | _ => false

namespace StatsReader

structure ShardStats where
  ordersIn : Nat
  fills : Nat
  cancels : Nat
  rejects : Nat
  engineQDepth : Nat
  dropcopyQDepth : Nat
  mktdataQDepth : Nat
  poolHighWater : Nat
  engineOrdersIn : Nat

structure GatewayCycles where
  epoll : Nat
  read : Nat
  decode : Nat
  validation : Nat
  enqueue : Nat
  ordersProcessed : Nat

-- The rate of the anchor is a double and stays as the word that holds it.
structure StatsSnapshot where
  magic : Nat
  protocolVersion : Nat
  numShards : Nat
  heartbeatTsc : Nat
  droppedReports : Nat
  droppedDropCopies : Nat
  gatewayCycles : GatewayCycles
  anchor : Nat × Nat × Word
  shards : List ShardStats

-- unpack_from raises for a shard behind the end of the mapping.
def decodeShard (i : Nat) : Reads StatsField Word ShardStats :=
  if inside : i < statsMaxShards then do
    let ordersIn ← get (.shard ⟨i, inside⟩ .ordersIn)
    let fills ← get (.shard ⟨i, inside⟩ .fills)
    let cancels ← get (.shard ⟨i, inside⟩ .cancels)
    let rejects ← get (.shard ⟨i, inside⟩ .rejects)
    let engineQDepth ← get (.shard ⟨i, inside⟩ .engineQDepth)
    let dropcopyQDepth ← get (.shard ⟨i, inside⟩ .dropcopyQDepth)
    let mktdataQDepth ← get (.shard ⟨i, inside⟩ .mktdataQDepth)
    let poolHighWater ← get (.shard ⟨i, inside⟩ .poolHighWater)
    let engineOrdersIn ← get (.engineOrdersIn ⟨i, inside⟩)
    pure ⟨ordersIn.toNat, fills.toNat, cancels.toNat, rejects.toNat, engineQDepth.toNat,
      dropcopyQDepth.toNat, mktdataQDepth.toNat,
      poolHighWater.toNat, engineOrdersIn.toNat⟩
  else .raise

def decodeShards : List Nat → Reads StatsField Word (List ShardStats)
  | [] => pure []
  | i :: rest => do
      let shard ← decodeShard i
      let shards ← decodeShards rest
      pure (shard :: shards)

def snapshot : Reads StatsField Word StatsSnapshot := do
  let magic ← get .magic
  let protocolVersion ← get .protocolVersion
  let numShards ← get .numShards
  let heartbeatTsc ← get .heartbeatTsc
  let droppedReports ← get .droppedReports
  let droppedDropCopies ← get .droppedDropCopies
  let epoll ← get .epollCycles
  let read ← get .readCycles
  let decode ← get .decodeCycles
  let validation ← get .validationCycles
  let enqueue ← get .enqueueCycles
  let ordersProcessed ← get .ordersProcessed
  let tscAtAnchor ← get .tscAtAnchor
  let unixNsAtAnchor ← get .unixNsAtAnchor
  let cyclesPerNs ← get .cyclesPerNs
  let shards ← decodeShards (List.range numShards.toNat)
  pure {
    magic := magic.toNat
    protocolVersion := protocolVersion.toNat
    numShards := numShards.toNat
    heartbeatTsc := heartbeatTsc.toNat
    droppedReports := droppedReports.toNat
    droppedDropCopies := droppedDropCopies.toNat
    gatewayCycles := ⟨epoll.toNat, read.toNat, decode.toNat, validation.toNat, enqueue.toNat,
      ordersProcessed.toNat⟩
    anchor := (tscAtAnchor.toNat, unixNsAtAnchor.toNat, cyclesPerNs)
    shards := shards
  }

def region : Seqlock.Region StatsField Word StatsSnapshot :=
    ⟨[statsBody false, statsBody true], orderManagerField, snapshot⟩

structure ShardSamples (contents : StatsField → Word) (i : Fin statsMaxShards)
    (shard : ShardStats) : Prop where
  engineQDepth : shard.engineQDepth = (contents (.shard i .engineQDepth)).toNat
  dropcopyQDepth : shard.dropcopyQDepth = (contents (.shard i .dropcopyQDepth)).toNat
  mktdataQDepth : shard.mktdataQDepth = (contents (.shard i .mktdataQDepth)).toNat
  poolHighWater : shard.poolHighWater = (contents (.shard i .poolHighWater)).toNat
  engineOrdersIn : shard.engineOrdersIn = (contents (.engineOrdersIn i)).toNat

structure Samples (contents : StatsField → Word) (snap : StatsSnapshot) : Prop where
  magic : snap.magic = (contents .magic).toNat
  protocolVersion : snap.protocolVersion = (contents .protocolVersion).toNat
  numShards : snap.numShards = (contents .numShards).toNat
  droppedReports : snap.droppedReports = (contents .droppedReports).toNat
  droppedDropCopies : snap.droppedDropCopies = (contents .droppedDropCopies).toNat
  epollCycles : snap.gatewayCycles.epoll = (contents .epollCycles).toNat
  readCycles : snap.gatewayCycles.read = (contents .readCycles).toNat
  decodeCycles : snap.gatewayCycles.decode = (contents .decodeCycles).toNat
  validationCycles : snap.gatewayCycles.validation = (contents .validationCycles).toNat
  enqueueCycles : snap.gatewayCycles.enqueue = (contents .enqueueCycles).toNat
  ordersProcessed : snap.gatewayCycles.ordersProcessed = (contents .ordersProcessed).toNat
  anchor : snap.anchor = ((contents .tscAtAnchor).toNat, (contents .unixNsAtAnchor).toNat,
    contents .cyclesPerNs)
  shards : List.Forall₂ (fun i shard => ∃ inside : i < statsMaxShards,
    ShardSamples contents ⟨i, inside⟩ shard) (List.range snap.numShards) snap.shards

section
variable (memory contents : StatsField → Word) (agree : Seqlock.Agree region memory contents)
include agree

theorem decode_shard_samples (i : Nat) (seq : Nat) (shard : ShardStats)
    (result : (decodeShard i).eval memory seq = some shard) :
    ∃ inside : i < statsMaxShards, ShardSamples contents ⟨i, inside⟩ shard := by
  unfold decodeShard at result
  split at result
  · rename_i inside
    simp only [Reads.eval_get, Reads.eval_pure, Option.some.injEq] at result
    subst result
    refine ⟨inside, ?_⟩
    constructor <;> exact congrArg BitVec.toNat (agree _ rfl)
  · cases result

theorem decode_shards_samples (indices : List Nat) (seq : Nat) (shards : List ShardStats)
    (result : (decodeShards indices).eval memory seq = some shards) :
    List.Forall₂ (fun i shard => ∃ inside : i < statsMaxShards,
      ShardSamples contents ⟨i, inside⟩ shard) indices shards := by
  induction indices generalizing shards with
  | nil =>
      obtain rfl : [] = shards := Option.some.inj result
      exact .nil
  | cons i rest ih =>
      rw [decodeShards, Reads.eval_bind, Option.bind_eq_some_iff] at result
      obtain ⟨shard, first, result⟩ := result
      rw [Reads.eval_bind, Option.bind_eq_some_iff] at result
      obtain ⟨others, second, last⟩ := result
      obtain rfl : shard :: others = shards := Option.some.inj last
      exact .cons (decode_shard_samples memory contents agree i seq shard first)
        (ih others second)

theorem snapshot_samples (seq : Nat) (snap : StatsSnapshot)
    (result : snapshot.eval memory seq = some snap) : Samples contents snap := by
  simp only [snapshot, Reads.eval_get] at result
  rw [Reads.eval_bind, Option.bind_eq_some_iff] at result
  obtain ⟨shards, listed, last⟩ := result
  rw [agree .numShards rfl] at listed
  have sampled := decode_shards_samples memory contents agree _ seq shards listed
  rw [Reads.eval_pure, Option.some.injEq] at last
  subst last
  constructor
  case shards => simpa only [agree .numShards rfl] using sampled
  case anchor => simp only [agree .tscAtAnchor rfl, agree .unixNsAtAnchor rfl, agree .cyclesPerNs rfl]
  all_goals exact congrArg BitVec.toNat (agree _ rfl)

end

def scalarFields : List StatsField :=
  [.magic, .protocolVersion, .numShards, .heartbeatTsc, .droppedReports, .droppedDropCopies,
    .epollCycles, .readCycles, .decodeCycles,
    .validationCycles, .enqueueCycles, .ordersProcessed, .tscAtAnchor, .unixNsAtAnchor, .cyclesPerNs]

def shardFields (i : Fin statsMaxShards) : List StatsField :=
  [.shard i .ordersIn, .shard i .fills, .shard i .cancels, .shard i .rejects,
    .shard i .engineQDepth, .shard i .dropcopyQDepth,
    .shard i .mktdataQDepth, .shard i .poolHighWater, .engineOrdersIn i]

def shardOf : StatsField → Option (Fin statsMaxShards)
  | .shard i _ => some i
  | .engineOrdersIn i => some i
  | _ => none

theorem shard_fields_of (i : Fin statsMaxShards) (field : StatsField)
    (inside : field ∈ shardFields i) : shardOf field = some i := by
  simp only [shardFields, List.mem_cons, List.not_mem_nil, or_false] at inside
  obtain rfl | rfl | rfl | rfl | rfl | rfl | rfl | rfl | rfl := inside <;> rfl

def fields : Finset StatsField := scalarFields.toFinset ∪ (liveShards.flatMap shardFields).toFinset

section
variable (Allowed : StatsField → Word → Prop)

theorem decode_shard_once (i : Fin statsMaxShards) :
    Reads.Once Allowed (shardFields i).toFinset 0 (decodeShard i) := by
  rw [decodeShard, dif_pos i.isLt]
  iterate 9 refine Reads.once_get Allowed _ 0 _ _ (by simp [shardFields]) fun _ _ => ?_
  exact .done _ _ _

theorem shard_fields_apart (i : Fin statsMaxShards) (rest : List (Fin statsMaxShards)) (fresh : i ∉ rest) :
    Disjoint (shardFields i).toFinset (rest.flatMap shardFields).toFinset := by
  rw [Finset.disjoint_left]
  intro field here there
  obtain ⟨j, inside, there⟩ := List.mem_flatMap.mp (List.mem_toFinset.mp there)
  have same := (shard_fields_of i field (List.mem_toFinset.mp here)).symm.trans
    (shard_fields_of j field there)
  exact fresh (Option.some.inj same ▸ inside)

theorem decode_shards_once (shards : List (Fin statsMaxShards)) (distinct : shards.Nodup) :
    Reads.Once Allowed (shards.flatMap shardFields).toFinset 0 (decodeShards (shards.map Fin.val)) := by
  induction shards with
  | nil => exact .done _ _ _
  | cons i rest ih =>
      obtain ⟨fresh, distinct⟩ := List.nodup_cons.mp distinct
      rw [List.flatMap_cons, List.toFinset_append]
      refine Reads.once_bind Allowed _ _ 0 0 _ _ (decode_shard_once Allowed i) (fun shard => ?_)
        (shard_fields_apart i rest fresh)
      rw [← Finset.union_empty (rest.flatMap shardFields).toFinset]
      exact Reads.once_bind Allowed _ ∅ 0 0 _ _ (ih distinct) (fun _ => .done _ _ _)
        (Finset.disjoint_empty_right _)

end

theorem num_shards_fixed : region.Fixed .numShards := by
  refine ⟨rfl, fun body known => ?_⟩
  simp only [region, List.mem_cons, List.not_mem_nil, or_false] at known
  obtain rfl | rfl := known <;> decide

theorem scalars_apart (field : StatsField) (scalar : shardOf field = none)
    (shards : List (Fin statsMaxShards)) :
    field ∉ (shards.flatMap shardFields).toFinset := by
  intro inside
  obtain ⟨i, -, inside⟩ := List.mem_flatMap.mp (List.mem_toFinset.mp inside)
  rw [shard_fields_of i field inside] at scalar
  cases scalar

theorem snapshot_once (tsc unixNs cyclesPerNs : Word) :
    Reads.Once (Seqlock.Held region (initStatsRegion tsc unixNs cyclesPerNs)) fields 0 snapshot := by
  unfold snapshot fields scalarFields
  iterate 2 refine Reads.once_head _ _ _ _ 0 _ (by decide) (scalars_apart _ rfl _) fun _ _ => ?_
  refine Reads.once_head _ _ _ _ 0 _ (by decide) (scalars_apart _ rfl _) fun shards held => ?_
  iterate 12 refine Reads.once_head _ _ _ _ 0 _ (by decide) (scalars_apart _ rfl _) fun _ _ => ?_
  -- the number of shards is stored at the start only
  rw [held num_shards_fixed]
  have live : List.range (initStatsRegion tsc unixNs cyclesPerNs .numShards).toNat =
    liveShards.map Fin.val := rfl
  rw [live, List.toFinset_nil, Finset.empty_union,
    ← Finset.union_empty (liveShards.flatMap shardFields).toFinset]
  exact Reads.once_bind _ _ ∅ 0 0 _ _ (decode_shards_once _ liveShards (by decide)) (fun _ => .done _ _ _)
    (Finset.disjoint_empty_right _)

end StatsReader

end HftExchange.Monitoring
