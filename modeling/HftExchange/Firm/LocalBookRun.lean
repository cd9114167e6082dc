import HftExchange.Firm.LocalBook

set_option autoImplicit false

namespace HftExchange

open Base

def quantityAt (shard : Shard) (inst : Nat) (side : Side) (p : Nat) : Nat :=
  ((shard.slotsAt inst side p).map fun slot => (shard.shared.order slot).quantity).sum

def LevelsFit (shard : Shard) (inst : Nat) : Prop := ∀ side p, quantityAt shard inst side p < 2 ^ 32

-- The best prices of the engine and the quantities resting there, with the
-- prices that stand for an empty side.
def SnapshotExact (shard : Shard) (inst : Nat) (snap : BookSnapshot) : Prop :=
  ∃ bid ask, BestPrice shard inst .buy bid ∧ BestPrice shard inst .sell ask ∧
    snap = ⟨bid.getD 0, ask.getD 100000, (bid.map (quantityAt shard inst .buy)).getD 0,
      (ask.map (quantityAt shard inst .sell)).getD 0⟩

-- The task cancels an order of the instrument: it names a live slot and the
-- token of the order in it.
def Removes (shard : Shard) (inst : Nat) : ShardOp → Prop
  | .submit _ => False
  | .cancel idx token => shard.shared.ordersById idx ≠ none ∧ (shard.shared.order idx).clientOrderId = token ∧
      (shard.shared.order idx).instrumentId = inst

def FittingRun (id inst : Nat) (Also : Shard → ShardOp → Prop) : List ShardOp → Shard → Prop :=
  Run (.init id) fun before op after => Guarded ShardAdmissible shardStep before op after ∧
    LevelsFit after inst ∧ Also before op

theorem quantity_at_eq (shard : Shard) (books : Nat → Resting)
    (rep : ShardRep shard books allQuiet) (inst : Nat) :
    quantityAt shard inst = volume (books inst) := by
  funext side p
  rw [quantityAt, slots_at_eq shard books allQuiet rep, levelIds, ids, List.map_map]
  refine congrArg List.sum (List.map_congr_left fun r member => ?_)
  have stored : shard.shared.order r.internalId = r :=
    (rep.each inst).stored r (List.mem_of_mem_filter member)
  simp [stored]

theorem volume_pos_iff (book : Resting) (positive : ∀ r ∈ book, 0 < r.quantity) (side : Side) (p : Nat) :
    volume book side p ≠ 0 ↔ levelIds book side p ≠ [] := by
  have level : ∀ r ∈ levelOrders book side p, 0 < r.quantity := fun r member => positive r
    (List.mem_of_mem_filter member)
  rw [levelIds, ids, ne_eq, ne_eq, List.map_eq_nil_iff, volume]
  cases orders : levelOrders book side p with
  | nil => simp
  | cons head tail =>
      have first := level head (by simp [orders])
      simp only [List.map_cons, List.sum_cons, reduceCtorEq, not_false_eq_true, iff_true]
      omega

theorem top_is_best (shard : Shard) (books : Nat → Resting) (rep : ShardRep shard books allQuiet)
    (inst : Nat) (side : Side) (best : Nat)
    (top : Top side (volume (books inst) side) best) :
    ∃ price, BestPrice shard inst side price ∧ best = price.getD (emptyBest side) ∧
      volume (books inst) side best = (price.map (quantityAt shard inst side)).getD 0 := by
  have live : ∀ p, volume (books inst) side p ≠ 0 ↔ shard.slotsAt inst side p ≠ [] := fun p => by
    rw [slots_at_eq shard books allQuiet rep]
    exact volume_pos_iff (books inst) (rep.each inst).positive side p
  by_cases shown : volume (books inst) side best = 0
  · have last : best = emptyBest side := top.shown.resolve_left fun nonzero => nonzero shown
    refine ⟨none, fun p => ?_, last, shown⟩
    by_contra nonempty
    have first := top.first p ((live p).mpr nonempty)
    have bound : p < maxPrice := by
      rw [slots_at_eq shard books allQuiet rep] at nonempty
      obtain ⟨slot, member⟩ := List.exists_mem_of_ne_nil _ nonempty
      obtain ⟨r, inside, _, rfl, _⟩ := (mem_level_ids _ _ _ _).mp member
      exact ((rep.each inst).valid r inside).2.2
    have same : p = best := by
      subst last
      cases side with
      | buy =>
          have least : ¬ 0 < p := of_decide_eq_false first
          exact Nat.eq_zero_of_not_pos least
      | sell =>
          have most : ¬ p < maxPriceLevels - 1 := of_decide_eq_false first
          simp only [emptyBest, maxPriceLevels, maxPrice] at bound most ⊢
          omega
    exact (live p).mpr nonempty (same ▸ shown)
  · refine ⟨some best, ⟨(live best).mp shown, fun q nonempty => top.first q ((live q).mpr nonempty)⟩, rfl, ?_⟩
    rw [quantity_at_eq shard books rep]
    rfl

theorem shows_exact (shard : Shard) (books : Nat → Resting) (rep : ShardRep shard books allQuiet)
    (inst : Nat) (snap : BookSnapshot)
    (shown : Shows (volume (books inst)) snap) : SnapshotExact shard inst snap := by
  obtain ⟨bid, bestBid, bidPrice, bidVolume⟩ := top_is_best shard books rep inst .buy snap.bestBid shown.bid
  obtain ⟨ask, bestAsk, askPrice, askVolume⟩ := top_is_best shard books rep inst .sell snap.bestAsk shown.ask
  refine ⟨bid, ask, bestBid, bestAsk, ?_⟩
  have fields : snap = ⟨snap.bestBid, snap.bestAsk, snap.bidQty, snap.askQty⟩ := rfl
  rw [fields, shown.bidQty, shown.askQty, bidVolume, askVolume, bidPrice, askPrice]
  rfl

structure Followed (shard : Shard) (inst : Nat) (books : Nat → Resting) : Prop where
  rep : ShardRep shard books allQuiet
  uncrossed : Uncrossed (books inst)
  fed : ∀ feed : List (ItchMessage × Nat × Nat), feed.map Prod.fst = itchSequence shard.shared.out →
    ∃ builder, BookBuilder.init.receive feed = .ok builder ∧ BuilderSafe builder ∧
      InstRep builder inst (volume (books inst))

theorem initial_followed (id inst : Nat) : Followed (.init id) inst fun _ => [] where
  rep := initial_shard_rep id
  uncrossed := by simp [Uncrossed]
  fed feed delivered := by
    cases List.map_eq_nil_iff.mp delivered
    exact ⟨.init, rfl, initial_builder_safe, initial_inst_rep inst⟩

theorem delivered_elsewhere (feed : List (ItchMessage × Nat × Nat)) (inst target : Nat)
    (different : target ≠ inst)
    (located : ∀ msg ∈ feed.map Prod.fst, msg.stockLocate = target) : ∀ m ∈ feed,
      m.1.stockLocate ≠ inst := fun m member same =>
  different ((located m.1 (List.mem_map_of_mem member)).symm.trans same)

theorem receive_change (shard : Shard) (inst : Nat) (books books' : Nat → Resting) (op : ShardOp)
    (events : List Event)
    (rep : ShardRep shard books allQuiet) (uncrossed : Uncrossed (books inst))
    (admissible : ShardAdmissible shard op)
    (change : ShardChange books op events books') (keeps : ¬ Removes shard inst op)
    (fits : ∀ side p, volume (books' inst) side p < 2 ^ 32)
    (known : inst < maxInstruments) (builder : BookBuilder) (feed : List (ItchMessage × Nat × Nat))
    (safe : BuilderSafe builder)
    (local_ : InstRep builder inst (volume (books inst)))
    (delivered : feed.map Prod.fst = itchSequence (events.flatMap Event.outputs)) :
    Uncrossed (books' inst) ∧ ∃ next, builder.receive feed = .ok next ∧ BuilderSafe next ∧
    InstRep next inst (volume (books' inst)) := by
  have small : inst < numInstruments := Nat.lt_trans known (by decide)
  cases change with
  | matched o events final trace fresh =>
      have located := trace_locate o.instrumentId _ _ o events trace
        (fun r inside => (rep.placed _ r inside).1) rfl
      by_cases own : o.instrumentId = inst
      · subst own
        rw [Function.update_self] at fits ⊢
        have book := rep.each o.instrumentId
        have ready : Matchable (books o.instrumentId) o :=
          ⟨book.distinct, uncrossed, book.positive, fun r inside => (book.valid r inside).2.2,
            admissible.1.2.2.2.1⟩
        exact receive_trace o.instrumentId _ final o events trace builder feed safe local_ ready small
          (fun r inside => (rep.placed _ r inside).1) rfl fits delivered
      · rw [Function.update_of_ne (Ne.symm own)]
        exact ⟨uncrossed, receive_elsewhere builder feed inst _ safe local_
          (delivered_elsewhere feed inst _ own (delivered ▸ located))⟩
  | canceled r inside =>
      have member : r.internalId ∈ ids (books r.instrumentId) := List.mem_map_of_mem inside
      have present : shard.shared.ordersById r.internalId = some r.internalId :=
        (rep.each _).present _ (.inl member)
      have stored : shard.shared.order r.internalId = r := (rep.each _).stored r inside
      have other : r.instrumentId ≠ inst :=
        fun same => keeps ⟨by simp [present], by rw [stored], by rw [stored, same]⟩
      rw [Function.update_of_ne (Ne.symm other)]
      refine ⟨uncrossed,
        receive_elsewhere builder feed inst _ safe local_
        (delivered_elsewhere feed inst _ other ?_)⟩
      rw [delivered, List.flatMap_singleton, itch_cancel]
      simp [itchMessage]
  | ignored idx token stale =>
      cases List.map_eq_nil_iff.mp delivered
      exact ⟨uncrossed, builder, rfl, safe, local_⟩

theorem followed_step (inst : Nat) (known : inst < maxInstruments) (before after : Shard)
    (op : ShardOp) (books : Nat → Resting)
    (followed : Followed before inst books)
    (step : Guarded ShardAdmissible shardStep before op after) (fits : LevelsFit after inst)
    (keeps : ¬ Removes before inst op) : ∃ books', Followed after inst books' := by
  obtain ⟨events, books', rep', _, change, out⟩ := shard_step_refines before after books op followed.rep step
  have room : ∀ side p, volume (books' inst) side p < 2 ^ 32 := fun side p => by
    rw [← quantity_at_eq after books' rep']
    exact fits side p
  have received := receive_change before inst books books' op events followed.rep followed.uncrossed
    step.1 change keeps room known
  refine ⟨books', rep', ?_, fun feed delivered => ?_⟩
  · obtain ⟨builder, _, safe, local_⟩ :=
      followed.fed ((itchSequence before.shared.out).map fun m => (m, 0, 0))
      (by simp [Function.comp_def])
    exact (received builder ((itchSequence (events.flatMap Event.outputs)).map fun m => (m, 0, 0)) safe local_
      (by simp [Function.comp_def])).1
  · rw [out, itch_append] at delivered
    obtain ⟨first, later, rfl, old, new⟩ := List.map_eq_append_iff.mp delivered
    obtain ⟨builder, start, safe, local_⟩ := followed.fed first old
    obtain ⟨_, next, result, final⟩ := received builder later safe local_ new
    exact ⟨next, by rw [BookBuilder.receive_append, start, checked_bind_ok, result], final⟩

theorem local_book_exact_without_cancels (id inst : Nat) (ops : List ShardOp) (shard : Shard)
    (run : FittingRun id inst (fun before op => ¬ Removes before inst op) ops shard)
    (known : inst < maxInstruments)
    (feed : List (ItchMessage × Nat × Nat)) (delivered : feed.map Prod.fst = itchSequence shard.shared.out) :
    ∃ builder snap, BookBuilder.init.receive feed = .ok builder ∧
    builder.getSnapshot inst = .ok snap ∧ SnapshotExact shard inst snap := by
  obtain ⟨books, followed⟩ : ∃ books, Followed shard inst books := by
    refine run_invariant (fun shard => ∃ books, Followed shard inst books)
      ⟨_, initial_followed id inst⟩ ?_ ops shard run
    rintro before op after ⟨books, followed⟩ ⟨step, fits, keeps⟩
    exact followed_step inst known before after op books followed step fits keeps
  obtain ⟨builder, result, _, local_⟩ := followed.fed feed delivered
  obtain ⟨snap, snapshot, shown⟩ := inst_rep_snapshot builder inst _ local_ (Nat.lt_trans known (by decide))
  exact ⟨builder, snap, result, snapshot, shows_exact shard books followed.rep inst snap shown⟩

def submittedQuantity : ShardOp → Nat
  | .submit o => o.quantity
  | .cancel _ _ => 0

theorem trace_volume_le (book final : Resting) (n : Order) (events : List Event)
    (trace : MatchTrace book n events final)
    (distinct : (ids book).Nodup) (side : Side) (p : Nat) :
    volume final side p ≤ volume book side p + n.quantity := by
  induction trace with
  | ended book next n event step =>
      cases step with
      | reject r live best same => exact Nat.le_add_right _ _
      | filled spent => exact Nat.le_add_right _ _
      | rest live absent =>
          rw [volume_rest]
          split <;> omega
  | traded book next final n left event events step rest ih =>
      cases step with
      | trade r live best other =>
          have inside := best_opposite_mem n r book best
          have later := ih (settle_distinct book r _ distinct inside)
          have balance := volume_settle book r (tradeQty n r) distinct inside (Nat.min_le_right _ _) side p
          simp only [reduced] at later
          omega

theorem change_volume_le (shard : Shard) (books books' : Nat → Resting) (op : ShardOp) (events : List Event)
    (rep : ShardRep shard books allQuiet) (change : ShardChange books op events books') (inst : Nat)
    (side : Side) (p : Nat) :
    volume (books' inst) side p ≤ volume (books inst) side p + submittedQuantity op := by
  cases change with
  | matched o events final trace fresh =>
      by_cases same : inst = o.instrumentId
      · subst same
        rw [Function.update_self]
        exact trace_volume_le _ final o events trace (rep.each _).distinct side p
      · rw [Function.update_of_ne same]
        exact Nat.le_add_right _ _
  | canceled r inside =>
      refine Nat.le_add_right_of_le ?_
      by_cases same : inst = r.instrumentId
      · subst same
        rw [Function.update_self]
        exact (((List.filter_sublist).filter _).map _).sum_le_sum fun _ _ => Nat.zero_le _
      · rw [Function.update_of_ne same]
  | ignored idx token stale => exact Nat.le_add_right _ _

theorem fitting_run (id inst : Nat) (Also : Shard → ShardOp → Prop) (ops : List ShardOp)
    (shard : Shard) (run : ShardRun (.init id) ops shard)
    (small : (ops.map submittedQuantity).sum < 2 ^ 32) (also_ : ∀ before, ∀ op ∈ ops, Also before op) :
    FittingRun id inst Also ops shard ∧ ∃ books, ShardRep shard books allQuiet ∧
      ∀ side p, volume (books inst) side p ≤ (ops.map submittedQuantity).sum := by
  induction run with
  | start => exact ⟨.start, _, initial_shard_rep id, fun side p => Nat.le_refl 0⟩
  | snoc ops op before after previous step ih =>
      rw [List.map_append, List.sum_append] at small ⊢
      obtain ⟨fitting, books, rep, most⟩ := ih (by omega) fun before other member =>
        also_ before other (List.mem_append_left _ member)
      obtain ⟨events, books', rep', _, change, _⟩ := shard_step_refines before after books op rep step
      have grown : ∀ side p, volume (books' inst) side p ≤
          (ops.map submittedQuantity).sum + ([op].map submittedQuantity).sum := by
        intro side p
        have one := change_volume_le before books books' op events rep change inst side p
        have old := most side p
        simp only [List.map_cons, List.map_nil, List.sum_cons, List.sum_nil]
        omega
      refine ⟨.snoc ops op before after fitting ⟨step, fun side p => ?_, also_ before op (by simp)⟩,
        books', rep', grown⟩
      rw [quantity_at_eq after books' rep']
      exact Nat.lt_of_le_of_lt (grown side p) small

def partlyTakenOps : List ShardOp :=
    [.submit ⟨1, 11, 100, 10, 7, 3, 0, .buy⟩, .submit ⟨2, 12, 100, 4, 8, 3, 0, .sell⟩]

theorem partly_taken_shown :
    ∃ shard, FittingRun 3 3 (fun before op => ¬ Removes before 3 op) partlyTakenOps shard ∧
    ∃ builder snap, BookBuilder.init.receive ((itchSequence shard.shared.out).map fun m =>
      (m, 0, 0)) = .ok builder ∧
      builder.getSnapshot 3 = .ok snap ∧ SnapshotExact shard 3 snap := by
  obtain ⟨shard, result⟩ := Option.isSome_iff_exists.mp
    (show (execute ShardAdmissible shardStep (.init 3) partlyTakenOps).isSome = true by decide +kernel)
  have run : ShardRun (.init 3) partlyTakenOps shard :=
    execute_run ShardAdmissible shardStep partlyTakenOps _ shard result
  obtain ⟨fitting, _⟩ := fitting_run 3 3 (fun before op => ¬ Removes before 3 op) partlyTakenOps
      shard run (by decide) (by
    intro before op member
    rcases List.mem_pair.mp member with rfl | rfl <;> exact not_false)
  exact ⟨shard, fitting, local_book_exact_without_cancels 3 3 partlyTakenOps shard fitting
    (by decide) _ (by simp [Function.comp_def])⟩

-- The only order of the book is canceled, and the local book doubles it.
def canceledOps : List ShardOp := [.submit ⟨1, 11, 100, 10, 7, 3, 0, .buy⟩, .cancel 1 11]

theorem canceled_order_doubled :
    ∃ shard, FittingRun 3 3 (fun _ _ => True) canceledOps shard ∧
    ∃ builder, BookBuilder.init.receive ((itchSequence shard.shared.out).map fun m =>
      (m, 0, 0)) = .ok builder ∧
      builder.getSnapshot 3 = .ok ⟨100, 100000, 20, 0⟩ ∧ ¬ SnapshotExact shard 3 ⟨100, 100000, 20, 0⟩ := by
  obtain ⟨shard, result⟩ := Option.isSome_iff_exists.mp
    (show (execute ShardAdmissible shardStep (.init 3) canceledOps).isSome = true by decide +kernel)
  have left : (execute ShardAdmissible shardStep (.init 3) canceledOps).map
      (fun shard => (shard.slotsAt 3 .buy 100, itchSequence shard.shared.out)) =
        some ([], [⟨ascii 'A', 3, 1, 10, 100, ascii 'B'⟩, ⟨ascii 'X', 3, 1, 10, 100, ascii 'B'⟩]) :=
          by decide +kernel
  have run : ShardRun (.init 3) canceledOps shard :=
    execute_run ShardAdmissible shardStep canceledOps _ shard result
  rw [result] at left
  obtain ⟨empty, feed⟩ := Prod.mk.inj (Option.some.inj left)
  obtain ⟨builder, received⟩ : ∃ builder, BookBuilder.init.receive
      ((itchSequence shard.shared.out).map fun m => (m, 0, 0)) = .ok builder := by
    rw [feed]
    exact ⟨_, rfl⟩
  have snapshot : (BookBuilder.init.receive ((itchSequence shard.shared.out).map fun m => (m, 0, 0))
    >>= fun builder =>
      builder.getSnapshot 3) = .ok ⟨100, 100000, 20, 0⟩ := by
    rw [feed]
    rfl
  rw [received] at snapshot
  refine ⟨shard, (fitting_run 3 3 _ canceledOps shard run (by decide) fun _ _ _ => trivial).1,
    builder, received, snapshot, ?_⟩
  rintro ⟨bid, ask, bestBid, _, same⟩
  have price : bid.getD 0 = 100 := (congrArg BookSnapshot.bestBid same).symm
  cases bid with
  | none => cases price
  | some p =>
      obtain rfl : p = 100 := price
      exact bestBid.1 empty

end HftExchange
