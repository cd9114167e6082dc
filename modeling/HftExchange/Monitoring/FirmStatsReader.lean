import HftExchange.Monitoring.StatsReader

set_option autoImplicit false

namespace HftExchange.Monitoring

open Base
open Base.Reads (get getSeq)

def firmMaxInstruments : Nat := 256

inductive FirmField where
  | magic
  | protocolVersion
  | killSwitch
  | heartbeatTsc
  | realizedPnl
  | ordersSent
  | ordersAcked
  | inFlight
  | ticks
  | bookCycles
  | signalCycles
  | strategyCycles
  | riskCycles
  | execCycles
  | serializeCycles
  | sendCycles
  | enqueueCycles
  | dequeueCycles
  | position (i : Fin firmMaxInstruments)
deriving DecidableEq

def mapFirmStatsRegion : FirmField → Word
  | .magic => 0x4649524D
  | .protocolVersion => 1
  | _ => 0

-- The fields the market-data callback stores inside firm_stats_write, in order.
def firmStatsBody : List FirmField :=
  [.heartbeatTsc, .killSwitch, .realizedPnl, .ordersSent, .ordersAcked, .inFlight, .ticks,
    .bookCycles, .signalCycles, .strategyCycles,
    .riskCycles, .execCycles, .serializeCycles, .sendCycles, .enqueueCycles, .dequeueCycles] ++
  (List.finRange firmMaxInstruments).map .position

namespace FirmStatsReader

structure FirmCycles where
  book : Nat
  signal : Nat
  strategy : Nat
  risk : Nat
  exec : Nat
  serialize : Nat
  send : Nat
  enqueue : Nat
  dequeue : Nat

structure FirmStatsSnapshot where
  magic : Nat
  protocolVersion : Nat
  seq : Nat
  killSwitch : Nat
  heartbeatTsc : Nat
  realizedPnl : Int
  ordersSent : Nat
  ordersAcked : Nat
  inFlight : Nat
  ticks : Nat
  cycles : FirmCycles
  positions : List (Nat × Int)

def unpackPositions : List (Fin firmMaxInstruments) → Reads FirmField Word (List (Nat × Int))
  | [] => pure []
  | i :: rest => do
      let p ← get (.position i)
      let positions ← unpackPositions rest
      pure ((i.val, p.toInt) :: positions)

-- The constructor also keeps the counter; the positions are the non-flat ones.
def snapshot : Reads FirmField Word FirmStatsSnapshot := do
  let magic ← get .magic
  let protocolVersion ← get .protocolVersion
  let seq ← getSeq
  let killSwitch ← get .killSwitch
  let heartbeatTsc ← get .heartbeatTsc
  let realizedPnl ← get .realizedPnl
  let ordersSent ← get .ordersSent
  let ordersAcked ← get .ordersAcked
  let inFlight ← get .inFlight
  let ticks ← get .ticks
  let book ← get .bookCycles
  let signal ← get .signalCycles
  let strategy ← get .strategyCycles
  let risk ← get .riskCycles
  let exec ← get .execCycles
  let serialize ← get .serializeCycles
  let send ← get .sendCycles
  let enqueue ← get .enqueueCycles
  let dequeue ← get .dequeueCycles
  let pos ← unpackPositions (List.finRange firmMaxInstruments)
  pure {
    magic := magic.toNat
    protocolVersion := protocolVersion.toNat
    seq := seq
    killSwitch := killSwitch.toNat
    heartbeatTsc := heartbeatTsc.toNat
    realizedPnl := realizedPnl.toInt
    ordersSent := ordersSent.toNat
    ordersAcked := ordersAcked.toNat
    inFlight := inFlight.toNat
    ticks := ticks.toNat
    cycles := ⟨book.toNat, signal.toNat, strategy.toNat, risk.toNat, exec.toNat, serialize.toNat,
      send.toNat, enqueue.toNat,
      dequeue.toNat⟩
    positions := pos.filter fun (_, p) => p ≠ 0
  }

def region : Seqlock.Region FirmField Word FirmStatsSnapshot := ⟨[firmStatsBody], fun _ => false, snapshot⟩

-- A snapshot's values are those of the given contents; the counter it keeps is
-- the one the contents' section left.
structure Samples (contents : FirmField → Word) (seq : Nat) (snap : FirmStatsSnapshot) :
    Prop where
  magic : snap.magic = (contents .magic).toNat
  protocolVersion : snap.protocolVersion = (contents .protocolVersion).toNat
  seq : snap.seq = seq
  killSwitch : snap.killSwitch = (contents .killSwitch).toNat
  heartbeatTsc : snap.heartbeatTsc = (contents .heartbeatTsc).toNat
  realizedPnl : snap.realizedPnl = (contents .realizedPnl).toInt
  ordersSent : snap.ordersSent = (contents .ordersSent).toNat
  ordersAcked : snap.ordersAcked = (contents .ordersAcked).toNat
  inFlight : snap.inFlight = (contents .inFlight).toNat
  ticks : snap.ticks = (contents .ticks).toNat
  cycles : snap.cycles = ⟨(contents .bookCycles).toNat, (contents .signalCycles).toNat,
    (contents .strategyCycles).toNat, (contents .riskCycles).toNat,
    (contents .execCycles).toNat, (contents .serializeCycles).toNat,
    (contents .sendCycles).toNat, (contents .enqueueCycles).toNat,
    (contents .dequeueCycles).toNat⟩
  positions : ∀ i : Nat, ∀ p : Int, (i, p) ∈ snap.positions ↔ p ≠ 0 ∧
    ∃ inside : i < firmMaxInstruments, p = (contents (.position ⟨i, inside⟩)).toInt

theorem unpack_positions_eval (memory : FirmField → Word) (seq : Nat)
    (instruments : List (Fin firmMaxInstruments)) :
    (unpackPositions instruments).eval memory seq =
      some (instruments.map fun i => (i.val, (memory (.position i)).toInt)) := by
  induction instruments with
  | nil => rfl
  | cons i rest ih =>
      rw [unpackPositions, Reads.eval_get, Reads.eval_bind, ih]
      rfl

theorem snapshot_samples (memory contents : FirmField → Word)
    (agree : Seqlock.Agree region memory contents) (seq : Nat) (snap : FirmStatsSnapshot)
    (result : snapshot.eval memory seq = some snap) : Samples contents seq snap := by
  obtain rfl : memory = contents := funext fun field => agree field rfl
  simp only [snapshot, Reads.eval_get, Reads.eval_get_seq] at result
  rw [Reads.eval_bind, unpack_positions_eval, Option.bind_some, Reads.eval_pure,
    Option.some.injEq] at result
  subst result
  constructor
  case positions =>
    intro i p
    simp only [List.mem_filter, List.mem_map, List.mem_finRange, true_and, Prod.mk.injEq,
      decide_eq_true_eq]
    constructor
    · rintro ⟨⟨j, rfl, rfl⟩, moved⟩
      exact ⟨moved, j.isLt, rfl⟩
    · rintro ⟨moved, inside, rfl⟩
      exact ⟨⟨⟨i, inside⟩, rfl, rfl⟩, moved⟩
  all_goals rfl

def scalarFields : List FirmField :=
  [.magic, .protocolVersion, .killSwitch, .heartbeatTsc, .realizedPnl, .ordersSent, .ordersAcked,
    .inFlight, .ticks, .bookCycles,
    .signalCycles, .strategyCycles, .riskCycles, .execCycles, .serializeCycles, .sendCycles,
      .enqueueCycles, .dequeueCycles]

def positionFields (instruments : List (Fin firmMaxInstruments)) : Finset FirmField :=
    (instruments.map .position).toFinset

def fields : Finset FirmField := scalarFields.toFinset ∪ positionFields (List.finRange firmMaxInstruments)

section
variable (Allowed : FirmField → Word → Prop)

theorem positions_once (instruments : List (Fin firmMaxInstruments)) (distinct : instruments.Nodup) :
    Reads.Once Allowed (positionFields instruments) 0 (unpackPositions instruments) := by
  induction instruments with
  | nil => exact .done _ _ _
  | cons i rest ih =>
      obtain ⟨fresh, distinct⟩ := List.nodup_cons.mp distinct
      have left : (positionFields (i :: rest)).erase (.position i) = positionFields rest := by
        rw [positionFields, List.map_cons, List.toFinset_cons, Finset.erase_insert]
        · rfl
        · simpa using fresh
      refine Reads.once_get Allowed _ 0 _ _ (by simp [positionFields]) fun p _ => ?_
      rw [left, ← Finset.union_empty (positionFields rest)]
      exact Reads.once_bind Allowed _ ∅ 0 0 _ _ (ih distinct) (fun _ => .done _ _ _)
        (Finset.disjoint_empty_right _)

theorem snapshot_once : Reads.Once Allowed fields 1 snapshot := by
  unfold snapshot fields scalarFields
  iterate 2 refine Reads.once_head _ _ _ _ 1 _ (by decide) (by simp [positionFields]) fun _ _ => ?_
  refine .loadSeq _ 0 _ fun _ => ?_
  iterate 16 refine Reads.once_head _ _ _ _ 0 _ (by decide) (by simp [positionFields]) fun _ _ => ?_
  rw [List.toFinset_nil, Finset.empty_union, ← Finset.union_empty (positionFields _)]
  exact Reads.once_bind _ _ ∅ 0 0 _ _ (positions_once _ _ (List.nodup_finRange _)) (fun _ => .done _ _ _)
    (Finset.disjoint_empty_right _)

end

end FirmStatsReader

theorem snapshots_untorn :
    (∀ (tsc unixNs cyclesPerNs : Word) labels st,
      Run (Seqlock.State.init (initStatsRegion tsc unixNs cyclesPerNs))
        (Seqlock.Steps StatsReader.region) labels st →
      (∀ snap, st.reader.phase = .returned (some snap) → ∃ i : Nat, ∃ contents,
        (initStatsRegion tsc unixNs cyclesPerNs :: st.published)[i]? = some contents ∧
        StatsReader.Samples contents snap) ∧
      Seqlock.ReadContract StatsReader.region (initStatsRegion tsc unixNs cyclesPerNs)
        (Seqlock.attemptSteps StatsReader.fields 0) st) ∧
    (∀ labels st,
      Run (Seqlock.State.init mapFirmStatsRegion) (Seqlock.Steps FirmStatsReader.region)
        labels st →
      (∀ snap, st.reader.phase = .returned (some snap) → ∃ i : Nat, ∃ contents,
        (mapFirmStatsRegion :: st.published)[i]? = some contents ∧
        FirmStatsReader.Samples contents (2 * i % 2 ^ 32) snap) ∧
      Seqlock.ReadContract FirmStatsReader.region mapFirmStatsRegion
        (Seqlock.attemptSteps FirmStatsReader.fields 1) st) := by
  constructor
  · intro tsc unixNs cyclesPerNs labels st run
    have contract := Seqlock.read_contract StatsReader.region _ StatsReader.fields 0
      (StatsReader.snapshot_once tsc unixNs cyclesPerNs) labels st run
    refine ⟨fun snap phase => ?_, contract⟩
    obtain ⟨i, contents, listed, memory, agree, built⟩ := contract.untorn snap phase
    exact ⟨i, contents, listed,
      StatsReader.snapshot_samples memory contents agree _ snap built⟩
  · intro labels st run
    have contract := Seqlock.read_contract FirmStatsReader.region _ FirmStatsReader.fields 1
      (FirmStatsReader.snapshot_once _) labels st run
    refine ⟨fun snap phase => ?_, contract⟩
    obtain ⟨i, contents, listed, memory, agree, built⟩ := contract.untorn snap phase
    exact ⟨i, contents, listed,
      FirmStatsReader.snapshot_samples memory contents agree _ snap built⟩

theorem published_section_read :
    (∃ labels st snap, ∃ i : Nat, ∃ contents,
      Run (Seqlock.State.init (initStatsRegion 1000 1000000 2))
        (Seqlock.Steps StatsReader.region) labels st ∧
      st.published.length = 2 ∧ st.reader.failed = 1 ∧
      st.reader.phase = .returned (some snap) ∧
      (initStatsRegion 1000 1000000 2 :: st.published)[i]? = some contents ∧
      StatsReader.Samples contents snap ∧
      Seqlock.ReadContract StatsReader.region (initStatsRegion 1000 1000000 2)
        (Seqlock.attemptSteps StatsReader.fields 0) st) ∧
    ∃ labels st snap, ∃ i : Nat, ∃ contents,
      Run (Seqlock.State.init mapFirmStatsRegion) (Seqlock.Steps FirmStatsReader.region)
        labels st ∧
      st.published.length = 2 ∧ st.reader.failed = 1 ∧
      st.reader.phase = .returned (some snap) ∧
      (mapFirmStatsRegion :: st.published)[i]? = some contents ∧
      FirmStatsReader.Samples contents (2 * i % 2 ^ 32) snap ∧
      Seqlock.ReadContract FirmStatsReader.region mapFirmStatsRegion
        (Seqlock.attemptSteps FirmStatsReader.fields 1) st := by
  constructor
  · obtain ⟨labels, st, snap, run, phase, failed, published⟩ :=
      Seqlock.section_then_read StatsReader.region (initStatsRegion 1000 1000000 2)
        (fun _ => 7) (fun _ => 8) StatsReader.fields 0 (StatsReader.snapshot_once _ _ _)
        (statsBody true) (by simp [StatsReader.region]) 100
    have untorn := snapshots_untorn.1 1000 1000000 2 labels st run
    obtain ⟨i, contents, listed, samples⟩ := untorn.1 snap phase
    exact ⟨labels, st, snap, i, contents, run, by rw [published]; rfl, failed, phase, listed,
      samples, untorn.2⟩
  · obtain ⟨labels, st, snap, run, phase, failed, published⟩ :=
      Seqlock.section_then_read FirmStatsReader.region mapFirmStatsRegion
        (fun _ => 7) (fun _ => 8) FirmStatsReader.fields 1 (FirmStatsReader.snapshot_once _)
        firmStatsBody (by simp [FirmStatsReader.region]) 100
    have untorn := snapshots_untorn.2 labels st run
    obtain ⟨i, contents, listed, samples⟩ := untorn.1 snap phase
    exact ⟨labels, st, snap, i, contents, run, by rw [published]; rfl, failed, phase, listed,
      samples, untorn.2⟩

end HftExchange.Monitoring
