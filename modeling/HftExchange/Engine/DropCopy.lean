import HftExchange.Engine.Lifecycle
import HftExchange.Engine.Invariant

set_option autoImplicit false

namespace HftExchange

open Base

def untilRelease (slot : Slot) (out : List Output) : List Output := out.takeWhile (· ≠ .release slot)

-- The drop-copy records that carry the identity of an order, up to the
-- release of its slot. A later order may use the slot and the token again.
def recordsOf (o : Order) (out : List Output) : List DropCopyMessage :=
  (dropCopySequence (untilRelease o.internalId out)).filter fun m =>
    m.clientOrderId = o.clientOrderId ∧ m.internalId = o.internalId

def historyOf (o : Order) (out : List Output) : History := (recordsOf o out).map fun m =>
    (m.state, m.quantity)

theorem history_open (o : Order) (out more : List Output) (held : .release o.internalId ∉ out) :
    historyOf o (out ++ more) = historyOf o out ++ historyOf o more := by
  have kept : ∀ output ∈ out, decide (output ≠ .release o.internalId) = true := by
    intro output member
    have other : output ≠ .release o.internalId := fun same => held (same ▸ member)
    simpa using other
  have all : untilRelease o.internalId out = out := by
    simpa [untilRelease] using kept
  rw [historyOf, recordsOf, untilRelease, List.takeWhile_append_of_pos kept, historyOf, recordsOf,
    all, historyOf, recordsOf]
  simp [dropCopySequence, untilRelease]

theorem history_released (o : Order) (out more : List Output) (released : .release o.internalId ∈ out) :
    historyOf o (out ++ more) = historyOf o out := by
  have same : untilRelease o.internalId (out ++ more) = untilRelease o.internalId out := by
    induction out with
    | nil => cases released
    | cons head tail ih =>
        by_cases here : head = .release o.internalId
        · simp [untilRelease, here]
        · have later : .release o.internalId ∈ tail := by simpa [Ne.symm here] using released
          simpa [untilRelease, here] using ih later
  rw [historyOf, recordsOf, same]
  rfl

def Order.stage (o : Order) (left : Nat) : Order := { o with quantity := left }

def Tracked (o : Order) (out : List Output) (book : Resting) : Prop :=
  (.release o.internalId ∈ out ∧ Life o.quantity (historyOf o out) .closed) ∨
  (.release o.internalId ∉ out ∧ ∃ left, Life o.quantity (historyOf o out) (.resting left) ∧
    o.stage left ∈ book)

-- What one event adds to the history of an order, and whether it gives up a
-- slot. The release comes last in the outputs of an event.
def entryOf (o r : Order) (state : OrderState) (qty : Nat) : History :=
  if r.clientOrderId = o.clientOrderId ∧ r.internalId = o.internalId then [(state, qty)] else []

def Event.entries (o : Order) : Event → History
  | .trade taker maker =>
      let qty := tradeQty taker maker
      entryOf o taker (fillState taker qty) qty ++ entryOf o maker (fillState maker qty) qty
  | .reject r => entryOf o r .rejected r.quantity
  | .rest r => entryOf o r .new r.quantity
  | .filled _ => []
  | .cancel r => entryOf o r .canceled r.quantity

def Event.frees (slot : Slot) : Event → Prop
  | .trade taker maker => maker.internalId = slot ∧ maker.quantity ≤ tradeQty taker maker
  | .reject r => r.internalId = slot
  | .rest _ => False
  | .filled r => r.internalId = slot
  | .cancel r => r.internalId = slot

theorem record_history (o r : Order) (price qty : Nat) (state : OrderState) (rest : List Output) :
    historyOf o (dropCopyOf r price qty state :: rest) = entryOf o r state qty ++ historyOf o rest := by
  by_cases own : r.clientOrderId = o.clientOrderId ∧ r.internalId = o.internalId <;>
    simp [historyOf, recordsOf, untilRelease, dropCopySequence, dropCopyOf, entryOf, own]

theorem other_history (o : Order) (rest : List Output) :
    (∀ type r price qty, historyOf o (itchOf type r price qty :: rest) = historyOf o rest) ∧
    (∀ r price qty flag, historyOf o (ackOf r price qty flag :: rest) = historyOf o rest) := by
  constructor <;> intros <;> simp [historyOf, recordsOf, untilRelease, dropCopySequence, itchOf, ackOf]

theorem last_history (o : Order) (slot : Slot) : historyOf o [.release slot] = [] := by
  by_cases same : slot = o.internalId <;> simp [historyOf, recordsOf, untilRelease, dropCopySequence, same]

theorem event_history (o : Order) (event : Event) : historyOf o event.outputs = event.entries o := by
  have empty : historyOf o [] = [] := rfl
  obtain ⟨itch, ack⟩ := other_history o []
  cases event with
  | trade taker maker =>
      by_cases all : maker.quantity ≤ tradeQty taker maker <;>
        simp [Event.outputs, Event.entries, record_history, (other_history o _).1,
          (other_history o _).2, last_history, empty, all]
  | reject r => simp [Event.outputs, Event.entries, record_history, last_history]
  | rest r => simp [Event.outputs, Event.entries, record_history, (other_history o _).1, empty]
  | filled r => simp [Event.outputs, Event.entries, last_history]
  | cancel r => simp [Event.outputs, Event.entries, record_history, (other_history o _).1, last_history]

theorem event_release (slot : Slot) (event : Event) : .release slot ∈ event.outputs ↔ event.frees slot := by
  cases event with
  | trade taker maker =>
      by_cases all : maker.quantity ≤ tradeQty taker maker <;>
        simp [Event.outputs, Event.frees, itchOf, dropCopyOf, ackOf, all, eq_comm]
  | reject r => simp [Event.outputs, Event.frees, dropCopyOf, eq_comm]
  | rest r => simp [Event.outputs, Event.frees, itchOf, dropCopyOf]
  | filled r => simp [Event.outputs, Event.frees, eq_comm]
  | cancel r => simp [Event.outputs, Event.frees, itchOf, dropCopyOf, eq_comm]

theorem entry_own (o : Order) (left : Nat) (state : OrderState) (qty : Nat) :
    entryOf o (o.stage left) state qty = [(state, qty)] :=
  if_pos ⟨rfl, rfl⟩

theorem entry_other (o r : Order) (state : OrderState) (qty : Nat)
    (apart : r.internalId ≠ o.internalId) : entryOf o r state qty = [] :=
  if_neg fun same => apart same.2

theorem fill_state_filled (o : Order) (left qty : Nat) (all : left ≤ qty) :
    fillState (o.stage left) qty = .filled :=
  if_pos (Nat.sub_eq_zero_of_le all)

theorem fill_state_partial (o : Order) (left qty : Nat) (more : qty < left) :
    fillState (o.stage left) qty = .partialFill :=
  if_neg (Nat.sub_ne_zero_of_lt more)

theorem tracked_released (o : Order) (out more : List Output) (book : Resting)
    (released : .release o.internalId ∈ out)
    (life : Life o.quantity (historyOf o out) .closed) : Tracked o (out ++ more) book :=
  .inl ⟨List.mem_append_left _ released, by rwa [history_released o out more released]⟩

theorem event_closes (o : Order) (out : List Output) (event : Event) (held : .release o.internalId ∉ out)
    (frees : event.frees o.internalId) (life : Life o.quantity (historyOf o out ++ event.entries o) .closed) :
    .release o.internalId ∈ out ++ event.outputs ∧
    Life o.quantity (historyOf o (out ++ event.outputs)) .closed := by
  rw [history_open o out _ held, event_history]
  exact ⟨List.mem_append_right _ ((event_release _ event).mpr frees), life⟩

theorem event_continues (o : Order) (out : List Output) (event : Event) (phase : Phase)
    (held : .release o.internalId ∉ out)
    (keeps : ¬ event.frees o.internalId) (life : Life o.quantity (historyOf o out ++ event.entries o) phase) :
    .release o.internalId ∉ out ++ event.outputs ∧
    Life o.quantity (historyOf o (out ++ event.outputs)) phase := by
  rw [history_open o out _ held, event_history]
  refine ⟨fun member => ?_, life⟩
  rcases List.mem_append.mp member with before | now
  · exact held before
  · exact keeps ((event_release _ event).mp now)

-- While an order sweeps the opposite side every trade is its own, and it
-- leaves the sweep filled, rejected or resting.
theorem incoming_trace (o : Order) (book final : Resting) (n : Order) (events : List Event)
    (trace : MatchTrace book n events final)
    (left : Nat) (own : n = o.stage left) (fresh : o.internalId ∉ ids book) (out : List Output)
    (held : .release o.internalId ∉ out)
    (life : Life o.quantity (historyOf o out) (if left = 0 then .closed else .incoming left)) :
    Tracked o (out ++ events.flatMap Event.outputs) final := by
  induction trace generalizing left out with
  | ended book next n event step =>
      subst own
      rw [List.flatMap_singleton]
      cases step with
      | reject r live best same =>
          have positive : left ≠ 0 := Nat.ne_of_gt live
          rw [if_neg positive] at life
          refine .inl (event_closes o out (.reject _) held rfl ?_)
          rw [Event.entries, entry_own]
          exact (life_snoc _ _ _ _).mpr ⟨_, life, by simp [Phase.record, Order.stage]⟩
      | rest live absent =>
          have positive : left ≠ 0 := Nat.ne_of_gt live
          rw [if_neg positive] at life
          obtain ⟨stays, after⟩ := event_continues o out (.rest (o.stage left))
              (.resting left) held (fun h => h) (by
            rw [Event.entries, entry_own]
            exact (life_snoc _ _ _ _).mpr ⟨_, life, by simp [Phase.record, Order.stage]⟩)
          exact .inr ⟨stays, left, after, by simp⟩
      | filled spent =>
          have nothing : left = 0 := spent
          rw [if_pos nothing] at life
          exact .inl (event_closes o out (.filled _) held rfl (by simpa [Event.entries] using life))
  | traded book next final n rest event events step later ih =>
      subst own
      rw [List.flatMap_cons, ← List.append_assoc]
      cases step with
      | trade r live best other =>
          have inside : r.internalId ∈ ids book := List.mem_map_of_mem (best_opposite_mem _ r book best)
          have apart : r.internalId ≠ o.internalId := fun same => fresh (same ▸ inside)
          have positive : left ≠ 0 := Nat.ne_of_gt live
          rw [if_neg positive] at life
          have most : tradeQty (o.stage left) r ≤ left := Nat.min_le_left _ _
          obtain ⟨stays, after⟩ := event_continues o out (.trade (o.stage left) r)
            (if left - tradeQty (o.stage left) r = 0 then .closed
              else .incoming (left - tradeQty (o.stage left) r)) held
            (fun frees => apart frees.1) (by
              rw [Event.entries, entry_own, entry_other _ _ _ _ apart, List.append_nil]
              refine (life_snoc _ _ _ _).mpr ⟨_, life, ?_⟩
              by_cases all : left - tradeQty (o.stage left) r = 0
              · have exact_ : tradeQty (o.stage left) r = left := by omega
                rw [if_pos all, fill_state_filled o left _ (Nat.le_of_sub_eq_zero all), exact_]
                simp [Phase.record]
              · have some_ : tradeQty (o.stage left) r < left := by omega
                rw [if_neg all, fill_state_partial o left _ some_]
                simp [Phase.record, some_])
          exact ih (left - tradeQty (o.stage left) r) rfl
            (fun member => fresh (settle_ids_subset _ _ _ _ member))
            (out ++ (Event.trade (o.stage left) r).outputs) stays after

theorem settle_distinct (book : Resting) (r : Order) (qty : Nat) (distinct : (ids book).Nodup)
    (inside : r ∈ book) :
    (ids (settle book r.internalId qty)).Nodup := by
  by_cases all : r.quantity ≤ qty
  · rw [settle_exhausted book r qty distinct inside all, ids_without]
    exact distinct.filter _
  · rw [settle_reduced book r qty distinct inside (Nat.lt_of_not_le all), ids_lowered]
    exact distinct

theorem settle_absent (book : Resting) (id qty : Nat) (absent : id ∉ ids book) :
    settle book id qty = book := by
  have kept : ∀ r ∈ book, takeQuantity id qty r = some r := fun r inside => by
    have other : r.internalId ≠ id := fun same => absent (same ▸ List.mem_map_of_mem inside)
    exact if_neg other
  rw [settle, List.filterMap_congr kept, List.filterMap_some]

theorem settle_keeps (book : Resting) (id qty : Nat) (s : Order) (inside : s ∈ book)
    (apart : s.internalId ≠ id) :
    s ∈ settle book id qty :=
  List.mem_filterMap.mpr ⟨s, inside, if_neg apart⟩

theorem settle_lowers (book : Resting) (r : Order) (qty : Nat) (inside : r ∈ book) (more : qty < r.quantity) :
    reduced r qty ∈ settle book r.internalId qty := by
  refine List.mem_filterMap.mpr ⟨r, inside, ?_⟩
  rw [takeQuantity, if_pos rfl, if_neg (Nat.not_le.mpr more)]
  rfl

theorem event_apart (o : Order) (out : List Output) (event : Event) (book next : Resting)
    (held : .release o.internalId ∉ out)
    (keeps : ¬ event.frees o.internalId) (silent : event.entries o = []) (left : Nat)
    (life : Life o.quantity (historyOf o out) (.resting left)) (stays : o.stage left ∈ book →
      o.stage left ∈ next)
    (inside : o.stage left ∈ book) : Tracked o (out ++ event.outputs) next := by
  obtain ⟨still, after⟩ := event_continues o out event (.resting left) held keeps
    (by rwa [silent, List.append_nil])
  exact .inr ⟨still, left, after, stays inside⟩

theorem event_hits (o n : Order) (out : List Output) (book : Resting) (left : Nat)
    (apart : n.internalId ≠ o.internalId)
    (held : .release o.internalId ∉ out) (life : Life o.quantity (historyOf o out) (.resting left))
    (inside : o.stage left ∈ book) :
    Tracked o (out ++ (Event.trade n (o.stage left)).outputs)
    (settle book o.internalId (tradeQty n (o.stage left))) := by
  have most : tradeQty n (o.stage left) ≤ left := Nat.min_le_right _ _
  have entries : (Event.trade n (o.stage left)).entries o =
      [(fillState (o.stage left) (tradeQty n (o.stage left)), tradeQty n (o.stage left))] := by
    rw [Event.entries, entry_own, entry_other _ _ _ _ apart, List.nil_append]
  by_cases all : left ≤ tradeQty n (o.stage left)
  · have exact_ : tradeQty n (o.stage left) = left := Nat.le_antisymm most all
    refine .inl (event_closes o out _ held ⟨rfl, all⟩ ?_)
    rw [entries, fill_state_filled o left _ all, exact_]
    exact (life_snoc _ _ _ _).mpr ⟨_, life, by simp [Phase.record]⟩
  · have more : tradeQty n (o.stage left) < left := Nat.lt_of_not_le all
    obtain ⟨still, after⟩ := event_continues o out (.trade n (o.stage left))
      (.resting (left - tradeQty n (o.stage left))) held
      (fun frees => all frees.2) (by
        rw [entries, fill_state_partial o left _ more]
        exact (life_snoc _ _ _ _).mpr ⟨_, life, by simp [Phase.record, more]⟩)
    exact .inr ⟨still, _, after, settle_lowers book (o.stage left) _ inside more⟩

theorem resting_trace (o : Order) (book final : Resting) (n : Order) (events : List Event)
    (trace : MatchTrace book n events final)
    (distinct : (ids book).Nodup) (apart : o.internalId ∈ ids book → n.internalId ≠ o.internalId)
    (out : List Output)
    (tracked : Tracked o out book) : Tracked o (out ++ events.flatMap Event.outputs) final := by
  rcases tracked with ⟨released, life⟩ | ⟨held, left, life, inside⟩
  · exact tracked_released o out _ final released life
  have other : n.internalId ≠ o.internalId := apart (List.mem_map.mpr ⟨_, inside, rfl⟩)
  induction trace generalizing left out with
  | ended book next n event step =>
      rw [List.flatMap_singleton]
      cases step with
      | reject r live best same =>
          exact event_apart o out _ book _ held other (entry_other _ _ _ _ other) left life
            (fun h => h) inside
      | rest live absent =>
          exact event_apart o out _ book _ held (fun h => h) (entry_other _ _ _ _ other) left life
            (List.mem_append_left _) inside
      | filled spent => exact event_apart o out _ book _ held other rfl left life (fun h => h) inside
  | traded book next final n rest event events step later ih =>
      rw [List.flatMap_cons, ← List.append_assoc]
      cases step with
      | trade r live best different =>
          have member := best_opposite_mem n r book best
          have distinct' := settle_distinct book r (tradeQty n r) distinct member
          have after : Tracked o (out ++ (Event.trade n r).outputs)
              (settle book r.internalId (tradeQty n r)) := by
            by_cases same : r.internalId = o.internalId
            · have equal : r = o.stage left := ids_injective book distinct r _ member inside same
              subst equal
              exact event_hits o n out book left other held life inside
            · refine event_apart o out _ book _ held (fun frees => same frees.1) ?_ left life
                (fun h => settle_keeps book _ _ _ h (Ne.symm same)) inside
              simp [Event.entries, entry_other _ _ _ _ other, entry_other _ _ _ _ same]
          rcases after with ⟨released, closed⟩ | ⟨still, left', life', inside'⟩
          · exact tracked_released o _ _ final released closed
          · exact ih distinct' (fun _ => other) _ still left' life' inside' other

theorem silent_trace (o : Order) (book final : Resting) (n : Order) (events : List Event)
    (trace : MatchTrace book n events final)
    (absent : o.internalId ∉ ids book) (other : n.internalId ≠ o.internalId) (out : List Output)
    (held : .release o.internalId ∉ out) :
    .release o.internalId ∉ out ++ events.flatMap Event.outputs ∧
      historyOf o (out ++ events.flatMap Event.outputs) = historyOf o out := by
  induction trace generalizing out with
  | ended book next n event step =>
      rw [List.flatMap_singleton, history_open o out _ held, event_history]
      have quiet_ : ¬ event.frees o.internalId ∧ event.entries o = [] := by
        cases step with
        | reject r live best same => exact ⟨other, entry_other _ _ _ _ other⟩
        | rest live none_ => exact ⟨fun h => h, entry_other _ _ _ _ other⟩
        | filled spent => exact ⟨other, rfl⟩
      simp [held, event_release, quiet_]
  | traded book next final n rest event events step later ih =>
      rw [List.flatMap_cons, ← List.append_assoc]
      cases step with
      | trade r live best different =>
          have apart : r.internalId ≠ o.internalId := fun same =>
            absent (same ▸ List.mem_map_of_mem (best_opposite_mem n r book best))
          have quiet_ : (Event.trade n r).entries o = [] := by
            simp [Event.entries, entry_other _ _ _ _ other, entry_other _ _ _ _ apart]
          have still : .release o.internalId ∉ out ++ (Event.trade n r).outputs := by
            simp [held, event_release, Event.frees, apart]
          obtain ⟨stays, same⟩ := ih (fun member => absent (settle_ids_subset _ _ _ _ member)) other _ still
          refine ⟨stays, same.trans ?_⟩
          rw [history_open o out _ held, event_history, quiet_, List.append_nil]

theorem change_tracks (shard : Shard) (books books' : Nat → Resting) (op : ShardOp)
    (events : List Event) (o : Order)
    (rep : ShardRep shard books allQuiet) (change : ShardChange books op events books') (out : List Output)
    (tracked : Tracked o out (books o.instrumentId)) :
    Tracked o (out ++ events.flatMap Event.outputs) (books' o.instrumentId) := by
  rcases tracked with ⟨released, life⟩ | ⟨held, left, life, inside⟩
  · exact tracked_released o out _ _ released life
  have member : o.internalId ∈ ids (books o.instrumentId) := List.mem_map.mpr ⟨_, inside, rfl⟩
  cases change with
  | matched n _ final trace fresh =>
      have other : n.internalId ≠ o.internalId := fun same => fresh o.instrumentId (same ▸ member)
      by_cases here : o.instrumentId = n.instrumentId
      · rw [here, Function.update_self]
        rw [here] at inside
        exact resting_trace o _ final n events trace (rep.each _).distinct (fun _ => other) out
          (.inr ⟨held, left, life, inside⟩)
      · have absent := live_elsewhere_apart shard books allQuiet rep n.instrumentId o.instrumentId
          here o.internalId member
        obtain ⟨stays, same⟩ := silent_trace o _ final n events trace absent other out held
        rw [Function.update_of_ne here]
        exact .inr ⟨stays, left, same ▸ life, inside⟩
  | canceled r rInside =>
      rw [List.flatMap_singleton]
      by_cases same : r.internalId = o.internalId
      · have equal : r = o.stage left := by
          rw [← (rep.each _).stored r rInside, same]
          exact (rep.each o.instrumentId).stored (o.stage left) inside
        subst equal
        refine .inl (event_closes o out _ held rfl ?_)
        rw [Event.entries, entry_own]
        exact (life_snoc _ _ _ _).mpr ⟨_, life, by simp [Phase.record, Order.stage]⟩
      · refine event_apart o out _ _ _ held same (entry_other _ _ _ _ same) left life (fun h => ?_) inside
        by_cases here : o.instrumentId = r.instrumentId
        · rw [here] at h ⊢
          rw [Function.update_self]
          exact List.mem_filter.mpr ⟨h, decide_eq_true (Ne.symm same)⟩
        · rwa [Function.update_of_ne here]
  | ignored idx token stale => simpa using .inr ⟨held, left, life, inside⟩

end HftExchange
