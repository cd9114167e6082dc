import HftExchange.Engine.FieldRanges
import HftExchange.MarketData.PublisherDrain
import HftExchange.Monitoring.Reconstruction

set_option autoImplicit false

namespace HftExchange.Monitoring

open Base

-- MulticastReader.poll for datagram after datagram. Nothing catches the
-- exception of a record that is not text.
def pollAll : List Bytes → Yielded ItchRecord
  | [] => ⟨[], false⟩
  | data :: rest =>
      let polled := iterItch data
      if polled.raised then polled
      else ⟨polled.values ++ (pollAll rest).values, (pollAll rest).raised⟩

theorem poll_datagram (t : Stamped) (fits : t.message.Fits) (stamp : t.timestamp < 2 ^ 64) :
    iterItch t.datagram = ⟨[t.message.record t.timestamp], false⟩ := by
  have one := iter_itch_messages [(t.message, t.timestamp)] [] (by decide)
    (by simpa using ⟨fits, stamp⟩)
  simpa [Stamped.datagram] using one

theorem poll_wire (sent : List Stamped)
    (fits : ∀ t ∈ sent, t.message.Fits ∧ t.timestamp < 2 ^ 64) :
    pollAll (sent.map Stamped.datagram) =
      ⟨sent.map fun t => t.message.record t.timestamp, false⟩ := by
  induction sent with
  | nil => rfl
  | cons t rest ih =>
      obtain ⟨own, later⟩ := List.forall_mem_cons.mp fits
      rw [List.map_cons, pollAll, poll_datagram t own.1 own.2, ih later]
      rfl

section
variable {shards : Nat → Shard} {ops : Nat → List ShardOp} {labels : List PublisherLabel} {p : Publisher}

structure Broadcasting (shards : Nat → Shard) (ops : Nat → List ShardOp)
    (labels : List PublisherLabel) (p : Publisher) : Prop where
  engines : ∀ s, s < numShards → ShardRun (.init s) (ops s) (shards s)
  sized : ∀ s, s < numShards → WordSized (ops s)
  publisher : PublisherRun labels p
  told : ∀ s, s < numShards → broadcastsOf s labels = itchSequence (shards s).shared.out
  undropped : p.droppedReports = 0

theorem taken_inside (system : Broadcasting shards ops labels p) (t : Stamped) (member : t ∈ p.taken) :
    t.queue < numShards ∧ t.message ∈ itchSequence (shards t.queue).shared.out := by
  have inv := publisher_run_inv labels p system.publisher
  have known := (inv.stamps t member).1
  have pushed := (publisher_run_pushed labels p system.publisher).2 system.undropped t.queue
  refine ⟨known, ?_⟩
  rw [← system.told t.queue known, ← pushed, ← inv.fifo t.queue]
  refine List.mem_append_left _ (List.mem_map_of_mem (List.mem_filter.mpr ⟨member, by simp⟩))

theorem taken_fits (system : Broadcasting shards ops labels p) (t : Stamped) (member : t ∈ p.taken) :
    t.message.Fits ∧ t.timestamp < 2 ^ 64 ∧ t.message.stockLocate % numShards = t.queue := by
  obtain ⟨known, inside⟩ := taken_inside system t member
  have stamp := ((publisher_run_inv labels p system.publisher).stamps t member).2
  obtain ⟨fits, _, routed⟩ := shard_itch_fits t.queue _ _ (system.engines _ known)
    (system.sized _ known) t.message inside
  exact ⟨fits, stamp, routed⟩

theorem taken_of_shard (system : Broadcasting shards ops labels p) (s : Nat) :
    ((p.taken.map Stamped.message).filter fun m => m.stockLocate % numShards = s) = p.takenFrom s := by
  rw [List.filter_map, Publisher.takenFrom]
  congr 1
  refine List.filter_congr fun t member => ?_
  rw [← (taken_fits system t member).2.2]
  rfl

theorem drained_of_shard (system : Broadcasting shards ops labels p) (drained : p.Drained) (s : Nat)
    (known : s < numShards) :
    p.takenFrom s = itchSequence (shards s).shared.out := by
  rw [(drained_wire labels p system.publisher drained).2.2 s known,
    (publisher_run_pushed labels p system.publisher).2 system.undropped s, system.told s known]

variable {τ : Type}

theorem book_of_shard (feed : List (ItchMessage × τ)) (inst : Nat) :
    ((BookSet.init.receive feed).book inst) =
      (BookSet.init.receive (feed.filter fun m => m.1.stockLocate % numShards =
        inst % numShards)).book inst := by
  rw [book_receive, book_receive, List.filter_filter]
  congr 1
  refine List.filter_congr fun m _ => ?_
  by_cases here : m.1.stockLocate = inst
  · simp [here]
  · simp [here]

theorem monitor_reconstructs_exchange (shards : Nat → Shard) (ops : Nat → List ShardOp)
    (labels : List PublisherLabel) (p : Publisher)
    (system : Broadcasting shards ops labels p) (drained : p.Drained) (accepted : p.refused = 0) :
    (∃ sent : List Stamped,
      pollAll p.wire = ⟨sent.map fun t => t.message.record t.timestamp, false⟩ ∧
      ∀ s, s < numShards → (sent.filter fun t => t.queue = s).map Stamped.message =
        itchSequence (shards s).shared.out) ∧
    ∀ feed : List (ItchMessage × τ),
      feed.map Prod.fst = (pollAll p.wire).values.map ItchRecord.message →
      ∀ inst, (∀ price, ((BookSet.init.receive feed).book inst).bids.lookup price =
        engineLevel (shards (inst % numShards)) inst .buy price) ∧
        (∀ price, ((BookSet.init.receive feed).book inst).asks.lookup price =
          engineLevel (shards (inst % numShards)) inst .sell price) ∧
        BestPrice (shards (inst % numShards)) inst .buy ((BookSet.init.receive feed).book inst).bestBid ∧
        BestPrice (shards (inst % numShards)) inst .sell ((BookSet.init.receive feed).book inst).bestAsk := by
  have wire := (drained_wire labels p system.publisher drained).2.1 accepted
  have polled := poll_wire p.taken fun t member =>
    ⟨(taken_fits system t member).1, (taken_fits system t member).2.1⟩
  rw [wire, polled]
  refine ⟨⟨p.taken, rfl, drained_of_shard system drained⟩, fun feed arrived inst => ?_⟩
  have messages : feed.map Prod.fst = p.taken.map Stamped.message := by
    rw [arrived, List.map_map]
    rfl
  have known : inst % numShards < numShards := Nat.mod_lt _ (by decide)
  obtain ⟨books, rep, mirrored⟩ := shard_run_mirrors (τ := τ) _ _ _ (system.engines (inst % numShards) known)
  have delivered : (feed.filter fun m => m.1.stockLocate % numShards = inst % numShards).map Prod.fst =
      itchSequence (shards (inst % numShards)).shared.out := by
    rw [← drained_of_shard system drained _ known, ← taken_of_shard system, ← messages, List.filter_map]
    rfl
  obtain ⟨mirrors, consistent⟩ := mirrored _ delivered inst
  rw [book_of_shard]
  have levels : ∀ side price,
    (((BookSet.init.receive (feed.filter fun m => m.1.stockLocate % numShards =
    inst % numShards)).book inst).levels
      (sideByte side)).lookup price = engineLevel (shards (inst % numShards)) inst side price := by
    intro side price
    rw [level_at_eq _ books rep, mirrors_levels (books inst) _ mirrors consistent (rep.each inst).distinct]
  exact ⟨levels .buy, levels .sell, best_bid_exact _ inst _ (levels .buy),
    best_ask_exact _ inst _ (levels .sell)⟩

end

def recycledMessages : List ItchMessage :=
  ((execute ShardAdmissible shardStep (.init 3) recycledOps).map fun shard =>
    itchSequence shard.shared.out).getD []

def recycledLabels : List PublisherLabel :=
  recycledMessages.map (.broadcast 3) ++ (List.range 40).map fun tsc => .advance tsc 64

theorem recycled_reference_published :
    ∃ shards p, Broadcasting shards (fun s => if s = 3 then recycledOps else []) recycledLabels p ∧
    (pollAll p.wire).values.length = 5 ∧ ∀ feed : List (ItchMessage × Unit),
      feed.map Prod.fst = (pollAll p.wire).values.map ItchRecord.message →
      BestPrice (shards 3) 3 .buy ((BookSet.init.receive feed).book 3).bestBid := by
  obtain ⟨shard, result⟩ := Option.isSome_iff_exists.mp
    (show (execute ShardAdmissible shardStep (.init 3) recycledOps).isSome = true by decide +kernel)
  obtain ⟨p, published⟩ := Option.isSome_iff_exists.mp
    (show (execute PublisherAllowed publisherStep .init recycledLabels).isSome = true by decide +kernel)
  have ends : (execute PublisherAllowed publisherStep .init recycledLabels).map
      (fun p => [p.droppedReports, p.refused, p.currentBatchCount, p.queued,
        (pollAll p.wire).values.length]) = some [0, 0, 0, 0, 5] := by
    decide +kernel
  rw [published] at ends
  obtain ⟨undropped, accepted, count, queues, polled⟩ : p.droppedReports = 0 ∧ p.refused = 0 ∧
    p.currentBatchCount = 0 ∧ p.queued = 0 ∧
      (pollAll p.wire).values.length = 5 := by simpa using ends
  have own : itchSequence shard.shared.out = recycledMessages := by rw [recycledMessages, result]; rfl
  have system : Broadcasting (fun s => if s = 3 then shard else .init s)
      (fun s => if s = 3 then recycledOps else []) recycledLabels p := by
    refine ⟨fun s _ => ?_, fun s _ => ?_, execute_run _ _ _ _ _ published, fun s known => ?_, undropped⟩
    · by_cases here : s = 3
      · subst here
        exact execute_run ShardAdmissible shardStep recycledOps _ shard result
      · rw [if_neg here, if_neg here]
        exact .start
    · by_cases here : s = 3
      · simp [here, WordSized, recycledOps]
      · simp [here, WordSized]
    · by_cases here : s = 3
      · subst here
        rw [if_pos rfl, own]
        decide +kernel
      · have silent : ∀ t, t < numShards → t ≠ 3 → broadcastsOf t recycledLabels = [] := by decide +kernel
        rw [if_neg here, silent s known here]
        rfl
  have drained : p.Drained := ⟨queued_none p queues, count⟩
  exact ⟨_, p, system, polled, fun feed arrived =>
    ((monitor_reconstructs_exchange _ _ _ p system drained accepted).2 feed arrived 3).2.2.1⟩

end HftExchange.Monitoring
