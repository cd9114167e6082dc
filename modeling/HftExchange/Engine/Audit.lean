import HftExchange.Engine.DropCopy

set_option autoImplicit false

namespace HftExchange

open Base

def fillRecords (out : List Output) : List DropCopyMessage :=
  (dropCopySequence out).filter fun m => isFill m.state

def fillRecord (o : Order) (price qty : Nat) : DropCopyMessage :=
  ⟨o.clientOrderId, o.internalId, price, qty, o.instrumentId, fillState o qty, o.side⟩

def fillPair (trade : Order × Order) : List DropCopyMessage :=
  let qty := tradeQty trade.1 trade.2
  [fillRecord trade.1 trade.2.price qty, fillRecord trade.2 trade.2.price qty]

def sharesOn (side : Side) (records : List DropCopyMessage) : Nat :=
  ((records.filter fun m => m.side = side).map DropCopyMessage.quantity).sum

structure LifecycleOf (o : Order) (out : List Output) (shard : Shard) : Prop where
  released : .release o.internalId ∈ out → states (historyOf o out) ∈ lifecycle.matches' ∧
    totalOf isFill (historyOf o out) + totalOf isLeftover (historyOf o out) = o.quantity
  resting : .release o.internalId ∉ out → (∃ rest, states (historyOf o out) ++ rest ∈ lifecycle.matches') ∧
    o.internalId ∈ shard.slotsAt o.instrumentId o.side o.price ∧
    ∃ left, shard.shared.order o.internalId = o.stage left ∧
      totalOf isFill (historyOf o out) + left = o.quantity
  filled : (states (historyOf o out)).getLast? = some .filled ↔ totalOf isFill (historyOf o out) = o.quantity
  new : ∀ before after qty, historyOf o out = before ++ (.new, qty) :: after →
    totalOf isFill before + qty = o.quantity

-- Every match is reported twice on the drop copy, with one price and quantity
-- and on opposite sides.
structure MatchesPaired (out : List Output) (trades : List (Order × Order)) : Prop where
  records : fillRecords out = trades.flatMap fillPair
  executions : itchExecutions out = trades.flatMap itchPair
  sides : ∀ trade ∈ trades, trade.2.side = trade.1.side.opposite
  count : (fillRecords out).length = 2 * trades.length
  balanced : sharesOn .buy (fillRecords out) = sharesOn .sell (fillRecords out)

def OppositeTrade (event : Event) : Prop :=
  ∀ trade, tradeOf event = some trade → trade.2.side = trade.1.side.opposite

theorem match_trace_opposite (book final : Resting) (n : Order) (events : List Event)
    (trace : MatchTrace book n events final) :
    ∀ event ∈ events, OppositeTrade event := by
  induction trace with
  | ended book next n event step =>
      cases step <;> simp [OppositeTrade, tradeOf]
  | traded book next final n left event events step rest ih =>
      cases step with
      | trade r live best other =>
          intro event member
          rcases List.mem_cons.mp member with rfl | later
          · intro trade same
            cases same
            exact ((compatible_iff n r).mp (best_opposite_spec n r book best).1).1
          · exact ih event later

theorem change_opposite (books books' : Nat → Resting) (op : ShardOp) (events : List Event)
    (change : ShardChange books op events books') : ∀ event ∈ events, OppositeTrade event := by
  cases change with
  | matched o _ final trace fresh => exact match_trace_opposite _ _ _ _ trace
  | canceled r inside => simp [OppositeTrade, tradeOf]
  | ignored idx token stale => simp

theorem fill_records_events (events : List Event) :
    fillRecords (events.flatMap Event.outputs) = (events.filterMap tradeOf).flatMap fillPair := by
  have fills : ∀ o qty, isFill (fillState o qty) = true := by
    intro o qty
    unfold fillState
    split <;> rfl
  refine trades_projection fillRecords fillPair rfl (by simp [fillRecords, dropCopySequence])
    (fun event => ?_) events
  cases event with
  | trade taker maker =>
      by_cases all : maker.quantity ≤ tradeQty taker maker <;>
        simp [fillRecords, dropCopySequence, Event.outputs, itchOf, dropCopyOf, ackOf, fillPair,
          fillRecord, tradeOf, all, fills]
  | reject o => rfl
  | rest o => rfl
  | filled o => rfl
  | cancel o => rfl

theorem pairs_balanced (trades : List (Order × Order))
    (opposite : ∀ trade ∈ trades, trade.2.side = trade.1.side.opposite) :
    (trades.flatMap fillPair).length = 2 * trades.length ∧
      sharesOn .buy (trades.flatMap fillPair) = sharesOn .sell (trades.flatMap fillPair) := by
  induction trades with
  | nil => exact ⟨rfl, rfl⟩
  | cons trade rest ih =>
      obtain ⟨count, balance⟩ := ih fun later member => opposite later (List.mem_cons_of_mem _ member)
      have sides := opposite trade (by simp)
      refine ⟨?_, ?_⟩
      · simp only [List.flatMap_cons, List.length_append, count, fillPair, List.length_cons, List.length_nil]
        omega
      · have split : ∀ side, sharesOn side (fillPair trade ++ rest.flatMap fillPair) =
            sharesOn side (fillPair trade) + sharesOn side (rest.flatMap fillPair) := by
          intro side
          simp [sharesOn]
        have one : sharesOn .buy (fillPair trade) = sharesOn .sell (fillPair trade) := by
          cases own : trade.1.side <;> simp [sharesOn, fillPair, fillRecord, sides, own, Side.opposite]
        rw [List.flatMap_cons, split, split, balance, one]

theorem matches_paired (events : List Event) (opposite : ∀ event ∈ events, OppositeTrade event) :
    MatchesPaired (events.flatMap Event.outputs) (events.filterMap tradeOf) := by
  have sides : ∀ trade ∈ events.filterMap tradeOf, trade.2.side = trade.1.side.opposite := by
    intro trade member
    obtain ⟨event, inside, traded⟩ := List.mem_filterMap.mp member
    exact opposite event inside trade traded
  obtain ⟨count, balance⟩ := pairs_balanced _ sides
  rw [← fill_records_events] at count balance
  exact ⟨fill_records_events events, itch_executions_events events, sides, count, balance⟩

theorem shard_run_events (id : Nat) (ops : List ShardOp) (shard : Shard)
    (run : ShardRun (.init id) ops shard) :
    ∃ books, ∃ events : List Event, ShardRep shard books allQuiet ∧
    shard.shared.out = events.flatMap Event.outputs ∧
      ∀ event ∈ events, OppositeTrade event := by
  refine run_invariant (fun shard => ∃ books, ∃ events : List Event, ShardRep shard books allQuiet ∧
    shard.shared.out = events.flatMap Event.outputs ∧ ∀ event ∈ events, OppositeTrade event)
    ⟨_, [], initial_shard_rep id, rfl, by simp⟩ ?_ ops shard run
  rintro state op next ⟨books, events, rep, out, opposite⟩ step
  obtain ⟨more, books', rep', _, change, out'⟩ := shard_step_refines state next books op rep step
  refine ⟨books', events ++ more, rep', by rw [out', out, List.flatMap_append], ?_⟩
  exact List.forall_mem_append.mpr ⟨opposite, change_opposite books books' op more change⟩

theorem later_run_tracks (start : Shard) (o : Order) (out : List Output) (books : Nat → Resting)
    (rep : ShardRep start books allQuiet) (tracked : Tracked o out (books o.instrumentId))
    (ops : List ShardOp) (shard : Shard)
    (run : ShardRun start ops shard) :
    ∃ more books', shard.shared.out = start.shared.out ++ more ∧ ShardRep shard books' allQuiet ∧
      Tracked o (out ++ more) (books' o.instrumentId) := by
  refine run_invariant (fun shard => ∃ more books', shard.shared.out = start.shared.out ++ more ∧
    ShardRep shard books' allQuiet ∧
    Tracked o (out ++ more) (books' o.instrumentId)) ⟨[], books, by
      simp, rep, by simpa using tracked⟩ ?_ ops shard run
  rintro state op next ⟨more, books', grown, rep', tracked'⟩ step
  obtain ⟨events, books'', rep'', _, change, out'⟩ := shard_step_refines state next books' op rep' step
  refine ⟨more ++ events.flatMap Event.outputs, books'', by rw [out', grown, List.append_assoc], rep'', ?_⟩
  rw [← List.append_assoc]
  exact change_tracks state books' books'' op events o rep' change _ tracked'

theorem tracked_lifecycle (o : Order) (out : List Output) (shard : Shard) (books : Nat → Resting)
    (rep : ShardRep shard books allQuiet)
    (positive : 0 < o.quantity) (tracked : Tracked o out (books o.instrumentId)) :
    LifecycleOf o out shard := by
  have some_ : ∃ phase, Life o.quantity (historyOf o out) phase := by
    rcases tracked with ⟨_, life⟩ | ⟨_, left, life, _⟩
    · exact ⟨_, life⟩
    · exact ⟨_, life⟩
  obtain ⟨phase, any⟩ := some_
  refine ⟨fun released => ?_, fun held => ?_, life_filled_iff _ positive _ phase any,
    fun before after qty split => ?_⟩
  · rcases tracked with ⟨_, life⟩ | ⟨held, _⟩
    · exact ⟨life_language _ _ _ life, by simpa [Phase.left] using life_conserves _ _ _ life⟩
    · exact absurd released held
  · rcases tracked with ⟨released, _⟩ | ⟨_, left, life, inside⟩
    · exact absurd released held
    · have stored : shard.shared.order o.internalId = o.stage left :=
        (rep.each o.instrumentId).stored (o.stage left) inside
      have next : Phase.record (.resting left) (.canceled, left) = some .closed := by simp [Phase.record]
      obtain ⟨_, none_, _⟩ := life_open _ positive _ _ life (by simp)
      have balance := life_conserves _ _ _ life
      refine ⟨⟨[.canceled], record_language _ _ _ next _ (life_language _ _ _ life)⟩, ?_, left, stored, ?_⟩
      · exact (slots_at_iff shard books allQuiet rep o.instrumentId (o.stage left) inside _ _ _).mpr
          ⟨rfl, rfl, rfl⟩
      · simpa [none_, Phase.left] using balance
  · exact life_new _ positive before after qty phase (split ▸ any)

theorem submit_tracked (shard next : Shard) (books : Nat → Resting) (o : Order)
    (rep : ShardRep shard books allQuiet)
    (step : Guarded ShardAdmissible shardStep shard (.submit o) next) :
    ∃ more books', next.shared.out = shard.shared.out ++ more ∧ ShardRep next books' allQuiet ∧
      Tracked o more (books' o.instrumentId) := by
  have positive : 0 < o.quantity := step.1.1.2.2.2.2
  obtain ⟨events, books', rep', _, change, out⟩ := shard_step_refines shard next books (.submit o) rep step
  refine ⟨events.flatMap Event.outputs, books', out, rep', ?_⟩
  cases change with
  | matched _ _ final trace fresh =>
      rw [Function.update_self]
      refine incoming_trace o _ final o events trace o.quantity rfl (fresh _) [] (by simp) ?_
      rw [if_neg (Nat.ne_of_gt positive)]
      rfl

theorem drop_copy_lifecycle (id : Nat) (ops : List ShardOp) (shard : Shard)
    (run : ShardRun (.init id) ops shard) :
    (∀ o later next final, Guarded ShardAdmissible shardStep shard (.submit o) next →
      ShardRun next later final →
      ∃ out, final.shared.out = shard.shared.out ++ out ∧ LifecycleOf o out final) ∧
    ∃ trades, MatchesPaired shard.shared.out trades := by
  obtain ⟨books, events, rep, out, opposite⟩ := shard_run_events id ops shard run
  refine ⟨fun o later next final submitted rest => ?_, _, out ▸ matches_paired events opposite⟩
  obtain ⟨first, books', grown, rep', tracked⟩ := submit_tracked shard next books o rep submitted
  obtain ⟨more, books'', grown', rep'', tracked'⟩ :=
    later_run_tracks next o first books' rep' tracked later final rest
  refine ⟨first ++ more, by rw [grown', grown, List.append_assoc], ?_⟩
  exact tracked_lifecycle o _ final books'' rep'' submitted.1.1.2.2.2.2 tracked'

def auditedOrder : Order := ⟨2, 12, 100, 10, 8, 3, 0, .buy⟩

def auditedBefore : List ShardOp := [.submit ⟨1, 11, 100, 4, 7, 3, 0, .sell⟩]

def auditedLater : List ShardOp := [.submit ⟨3, 13, 99, 3, 9, 3, 0, .sell⟩, .cancel 2 12]

theorem audited_order_lifecycle :
    ∃ shard next final out, ShardRun (.init 3) auditedBefore shard ∧
    Guarded ShardAdmissible shardStep shard (.submit auditedOrder) next ∧ ShardRun next auditedLater final ∧
    final.shared.out = shard.shared.out ++ out ∧
    historyOf auditedOrder out = [(.partialFill, 4), (.new, 6), (.partialFill, 3), (.canceled, 3)] ∧
    LifecycleOf auditedOrder out final := by
  let first := execute ShardAdmissible shardStep (.init 3) auditedBefore
  let second := execute ShardAdmissible shardStep (.init 3) (auditedBefore ++ [.submit auditedOrder])
  let third := second.bind fun shard => execute ShardAdmissible shardStep shard auditedLater
  have shape : (third.bind fun final => first.map fun shard =>
      historyOf auditedOrder (final.shared.out.drop shard.shared.out.length)) =
        some [(.partialFill, 4), (.new, 6), (.partialFill, 3), (.canceled, 3)] := by decide +kernel
  obtain ⟨final, result, shape⟩ := Option.bind_eq_some_iff.mp shape
  obtain ⟨shard, before, history⟩ := Option.map_eq_some_iff.mp shape
  obtain ⟨next, middle, after⟩ := Option.bind_eq_some_iff.mp result
  have run := execute_run ShardAdmissible shardStep auditedBefore _ shard before
  have step := execute_last ShardAdmissible shardStep auditedBefore
    (.submit auditedOrder) _ shard next before middle
  have rest := execute_run ShardAdmissible shardStep auditedLater next final after
  obtain ⟨out, grown, life⟩ := (drop_copy_lifecycle 3 auditedBefore shard run).1 auditedOrder
    auditedLater next final step rest
  refine ⟨shard, next, final, out, run, step, rest, grown, ?_, life⟩
  rw [grown, List.drop_left] at history
  exact history

end HftExchange
