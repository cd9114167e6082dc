import HftExchange.Book.Run

set_option autoImplicit false

namespace HftExchange

open Base

def Uncrossed (book : Resting) : Prop :=
  ∀ b ∈ book, b.side = .buy → ∀ a ∈ book, a.side = .sell → b.price < a.price

def buyer (taker maker : Order) : Order := if taker.side = .buy then taker else maker

def seller (taker maker : Order) : Order := if taker.side = .buy then maker else taker

structure SafeTrade (taker maker : Order) : Prop where
  clients : taker.clientId ≠ maker.clientId
  sides : (buyer taker maker).side = .buy ∧ (seller taker maker).side = .sell
  bought : maker.price ≤ (buyer taker maker).price
  sold : (seller taker maker).price ≤ maker.price

def Submitted (ops : List BookOp) (r : Order) : Prop :=
  ∃ o, BookOp.submit o ∈ ops ∧ r.quantity ≤ o.quantity ∧ r = { o with quantity := r.quantity }

def SafeEvent (ops : List BookOp) : Event → Prop
  | .trade taker maker => SafeTrade taker maker ∧ Submitted ops taker ∧ Submitted ops maker
  | _ => True

theorem submitted_reduced (ops : List BookOp) (r : Order) (qty : Nat) (before : Submitted ops r) :
    Submitted ops (reduced r qty) := by
  obtain ⟨o, member, less, same⟩ := before
  refine ⟨o, member, ?_, ?_⟩
  · simp only [reduced]
    omega
  · rw [same]
    rfl

theorem submitted_later (ops : List BookOp) (op : BookOp) (r : Order) (before : Submitted ops r) :
    Submitted (ops ++ [op]) r := by
  obtain ⟨o, member, rest⟩ := before
  exact ⟨o, List.mem_append_left _ member, rest⟩

theorem safe_event_later (ops : List BookOp) (op : BookOp) (event : Event) (before : SafeEvent ops event) :
    SafeEvent (ops ++ [op]) event := by
  cases event with
  | trade taker maker =>
      exact ⟨before.1, submitted_later ops op taker before.2.1,
      submitted_later ops op maker before.2.2⟩
  | reject o => trivial
  | rest o => trivial
  | filled o => trivial
  | cancel o => trivial

theorem uncrossed_settle (book : Resting) (id qty : Nat) (before : Uncrossed book) :
    Uncrossed (settle book id qty) := by
  have origin : ∀ r ∈ settle book id qty, ∃ old ∈ book, old.side = r.side ∧ old.price = r.price := by
    intro r member
    obtain ⟨old, inside, rfl | rfl⟩ := settle_origin book id qty r member
    · exact ⟨r, inside, rfl, rfl⟩
    · exact ⟨old, inside, rfl, rfl⟩
  intro b bid onBuy a ask onSell
  obtain ⟨oldBid, bidInside, bidSide, bidPrice⟩ := origin b bid
  obtain ⟨oldAsk, askInside, askSide, askPrice⟩ := origin a ask
  rw [← bidPrice, ← askPrice]
  exact before oldBid bidInside (bidSide.trans onBuy) oldAsk askInside (askSide.trans onSell)

theorem uncrossed_rest (book : Resting) (n : Order) (before : Uncrossed book)
    (absent : bestOpposite n book = none) :
    Uncrossed (book ++ [n]) := by
  have clear := (best_opposite_none_iff n book).mp absent
  intro b bid onBuy a ask onSell
  rcases List.mem_append.mp bid with bidOld | bidNew <;> rcases List.mem_append.mp ask with askOld | askNew
  · exact before b bidOld onBuy a askOld onSell
  · cases List.mem_singleton.mp askNew
    simpa [compatible, onBuy, onSell, Side.opposite, crosses] using clear b bidOld
  · cases List.mem_singleton.mp bidNew
    simpa [compatible, onBuy, onSell, Side.opposite, crosses] using clear a askOld
  · cases List.mem_singleton.mp bidNew
    cases List.mem_singleton.mp askNew
    rw [onBuy] at onSell
    cases onSell

theorem safe_trade_of_best (book : Resting) (n r : Order) (best : bestOpposite n book = some r)
    (other : r.clientId ≠ n.clientId) :
    SafeTrade n r := by
  obtain ⟨compat, _, _⟩ := best_opposite_spec n r book best
  obtain ⟨opposite, crossed⟩ := (compatible_iff n r).mp compat
  cases own : n.side with
  | buy =>
      have limit : r.price ≤ n.price := by simpa [own, crosses] using crossed
      have sells : r.side = .sell := by simpa [own, Side.opposite] using opposite
      refine ⟨other.symm, ?_, ?_, ?_⟩ <;> simp [buyer, seller, own, sells, limit]
  | sell =>
      have limit : n.price ≤ r.price := by simpa [own, crosses] using crossed
      have buys : r.side = .buy := by simpa [own, Side.opposite] using opposite
      refine ⟨other.symm, ?_, ?_, ?_⟩ <;> simp [buyer, seller, own, buys, limit]

theorem match_trace_safe (ops : List BookOp) (book final : Resting) (n : Order) (events : List Event)
    (trace : MatchTrace book n events final) (uncrossed : Uncrossed book)
    (known : ∀ r ∈ book, Submitted ops r)
    (own : Submitted ops n) :
    Uncrossed final ∧ (∀ r ∈ final, Submitted ops r) ∧ ∀ event ∈ events, SafeEvent ops event := by
  induction trace with
  | ended book next n event step =>
      cases step with
      | reject r live best same => exact ⟨uncrossed, known, by simp [SafeEvent]⟩
      | filled spent => exact ⟨uncrossed, known, by simp [SafeEvent]⟩
      | rest live absent =>
          refine ⟨uncrossed_rest book n uncrossed absent, fun r member => ?_, by simp [SafeEvent]⟩
          rcases List.mem_append.mp member with before | last
          · exact known r before
          · exact List.mem_singleton.mp last ▸ own
  | traded book next final n left event events step rest ih =>
      cases step with
      | trade r live best other =>
          obtain ⟨after, knownAfter, safe⟩ := ih (uncrossed_settle book _ _ uncrossed) (fun s member => by
            obtain ⟨old, inside, rfl | rfl⟩ := settle_origin book _ _ s member
            · exact known s inside
            · exact submitted_reduced ops old _ (known old inside)) (submitted_reduced ops n _ own)
          refine ⟨after, knownAfter, fun event member => ?_⟩
          rcases List.mem_cons.mp member with rfl | later
          · exact ⟨safe_trade_of_best book n r best other, own, known r (best_opposite_mem n r book best)⟩
          · exact safe event later

theorem reference_run_snoc (ops : List BookOp) (op : BookOp) :
    referenceRun (ops ++ [op]) = referenceStep (referenceRun ops) op := by
  simp [referenceRun]

theorem reference_cancel_mem (book : Resting) (id : Nat) (r : Order)
    (member : r ∈ (referenceCancel book id).1) : r ∈ book := by
  unfold referenceCancel at member
  split at member
  · exact member
  · exact List.mem_of_mem_filter member

theorem reference_cancel_safe (ops : List BookOp) (book : Resting) (id : Nat) :
    ∀ event ∈ (referenceCancel book id).2, SafeEvent ops event := by
  unfold referenceCancel
  split <;> simp [SafeEvent]

theorem reference_run_safe (ops : List BookOp) :
    Uncrossed (referenceRun ops).1 ∧ (∀ r ∈ (referenceRun ops).1, Submitted ops r) ∧
    ∀ event ∈ (referenceRun ops).2, SafeEvent ops event := by
  induction ops using List.reverseRecOn with
  | nil => simp [referenceRun, Uncrossed]
  | append_singleton ops op ih =>
      obtain ⟨uncrossed, known, safe⟩ := ih
      have known' : ∀ r ∈ (referenceRun ops).1, Submitted (ops ++ [op]) r := fun r inside =>
        submitted_later ops op r (known r inside)
      have safe' : ∀ event ∈ (referenceRun ops).2, SafeEvent (ops ++ [op]) event :=
        fun event member => safe_event_later ops op event (safe event member)
      rw [reference_run_snoc]
      cases op with
      | submit o =>
          have own : Submitted (ops ++ [.submit o]) o := ⟨o, by simp, Nat.le_refl _, rfl⟩
          obtain ⟨after, knownAfter, safeAfter⟩ :=
            match_trace_safe _ _ _ o _ (reference_match_trace (referenceRun ops).1 o) uncrossed known' own
          exact ⟨after, knownAfter, List.forall_mem_append.mpr ⟨safe', safeAfter⟩⟩
      | cancel id =>
          refine ⟨fun b bid onBuy a ask onSell => ?_, fun r member =>
            known' r (reference_cancel_mem _ id r member),
            List.forall_mem_append.mpr ⟨safe', reference_cancel_safe _ _ id⟩⟩
          exact uncrossed b (reference_cancel_mem _ id b bid) onBuy a (reference_cancel_mem _ id a ask) onSell

def itchExecutions (out : List Output) : List ItchMessage := (itchSequence out).filter fun m =>
    m.msgType = ascii 'E'

def itchPair (trade : Order × Order) : List ItchMessage :=
  let qty := tradeQty trade.1 trade.2
  [⟨ascii 'E', trade.2.instrumentId, trade.2.internalId, qty, trade.2.price, sideByte trade.2.side⟩,
    ⟨ascii 'E', trade.1.instrumentId, trade.1.internalId, qty, trade.2.price, sideByte trade.1.side⟩]

def executionReport (o : Order) (price qty : Nat) (flag : Char) : Nat × OutboundAck :=
  (o.workerId, ⟨⟨ascii 'E', encodeOrderToken o.clientOrderId, qty, price, ascii flag,
    List.replicate 8 0⟩, o.clientId⟩)

def ackPair (trade : Order × Order) : List (Nat × OutboundAck) :=
  let qty := tradeQty trade.1 trade.2
  [executionReport trade.1 trade.2.price qty 'R', executionReport trade.2 trade.2.price qty 'A']

def tradeOf : Event → Option (Order × Order)
  | .trade taker maker => some (taker, maker)
  | _ => none

theorem trades_projection {β : Type} (view : List Output → List β) (pair : Order × Order → List β)
    (empty : view [] = [])
    (append : ∀ first second, view (first ++ second) = view first ++ view second)
    (each : ∀ event : Event, view event.outputs = (tradeOf event).elim [] pair) (events : List Event) :
    view (events.flatMap Event.outputs) = (events.filterMap tradeOf).flatMap pair := by
  induction events with
  | nil => exact empty
  | cons event rest ih =>
      rw [List.flatMap_cons, append, ih, each event, List.filterMap_cons]
      cases tradeOf event with
      | none => simp
      | some trade => simp

theorem itch_executions_events (events : List Event) :
    itchExecutions (events.flatMap Event.outputs) = (events.filterMap tradeOf).flatMap itchPair := by
  refine trades_projection itchExecutions itchPair rfl (by simp [itchExecutions, itchSequence])
    (fun event => ?_) events
  cases event with
  | trade taker maker =>
      by_cases all : maker.quantity ≤ tradeQty taker maker <;>
        simp [itchExecutions, itchSequence, Event.outputs, itchOf, dropCopyOf, ackOf, itchPair, tradeOf, all]
  | reject o => rfl
  | rest o => rfl
  | filled o => rfl
  | cancel o => rfl

theorem ack_sequence_events (events : List Event) :
    ackSequence (events.flatMap Event.outputs) = (events.filterMap tradeOf).flatMap ackPair := by
  refine trades_projection ackSequence ackPair rfl (by simp [ackSequence]) (fun event => ?_) events
  cases event with
  | trade taker maker =>
      by_cases all : maker.quantity ≤ tradeQty taker maker <;>
        simp [ackSequence, Event.outputs, itchOf, dropCopyOf, ackOf, ackPair, executionReport, tradeOf, all]
  | reject o => rfl
  | rest o => rfl
  | filled o => rfl
  | cancel o => rfl

theorem level_orders_mem (book : Resting) (side : Side) (p : Nat) (r : Order)
    (member : r ∈ levelOrders book side p) :
    r ∈ book ∧ r.side = side := by
  obtain ⟨inside, here⟩ := List.mem_filter.mp member
  have here : r.side = side ∧ r.price = p := by simpa [onLevel] using here
  exact ⟨inside, here.1⟩

theorem matching_is_safe (ops : List BookOp) (st : BookState) (run : BookRun ops st) :
    (∀ p q, ∀ b ∈ restingAt st .buy p, ∀ a ∈ restingAt st .sell q, b.price < a.price) ∧
    ∃ trades : List (Order × Order),
      itchExecutions st.shared.out = trades.flatMap itchPair ∧
      ackSequence st.shared.out = trades.flatMap ackPair ∧
      ∀ trade ∈ trades, SafeTrade trade.1 trade.2 ∧ Submitted ops trade.1 ∧ Submitted ops trade.2 := by
  obtain ⟨rep, out⟩ := book_run_refines ops st run
  obtain ⟨uncrossed, _, safe⟩ := reference_run_safe ops
  refine ⟨fun p q b bid a ask => ?_, (referenceRun ops).2.filterMap tradeOf, ?_, ?_, fun trade member => ?_⟩
  · rw [resting_at_eq st _ _ _ rep] at bid ask
    obtain ⟨bidInside, onBuy⟩ := level_orders_mem _ _ _ b bid
    obtain ⟨askInside, onSell⟩ := level_orders_mem _ _ _ a ask
    exact uncrossed b bidInside onBuy a askInside onSell
  · rw [out, itch_executions_events]
  · rw [out, ack_sequence_events]
  · obtain ⟨event, inside, traded⟩ := List.mem_filterMap.mp member
    cases event with
    | trade taker maker => exact Option.some.inj traded ▸ safe _ inside
    | reject o => cases traded
    | rest o => cases traded
    | filled o => cases traded
    | cancel o => cases traded

-- A buy that takes a foreign ask and then meets an ask of its own client.
def selfTradeOps : List BookOp :=
  [.submit ⟨1, 11, 100, 10, 7, 3, 0, .sell⟩, .submit ⟨2, 12, 101, 5, 8, 3, 0, .sell⟩,
    .submit ⟨3, 13, 102, 12, 8, 3, 0, .buy⟩,
    .submit ⟨4, 14, 99, 1, 8, 3, 0, .buy⟩]

theorem self_trade_ops_safe :
    ∃ st, BookRun selfTradeOps st ∧ (itchExecutions st.shared.out).length = 2 ∧
    (restingAt st .buy 99).length = 1 ∧ (restingAt st .sell 101).length = 1 ∧
    ∀ p q, ∀ b ∈ restingAt st .buy p, ∀ a ∈ restingAt st .sell q, b.price < a.price := by
  obtain ⟨st, result⟩ := Option.isSome_iff_exists.mp
    (show (execute Admissible bookStep .init selfTradeOps).isSome = true by decide +kernel)
  have shape : (execute Admissible bookStep .init selfTradeOps).map (fun st =>
      ((itchExecutions st.shared.out).length, (restingAt st .buy 99).length,
        (restingAt st .sell 101).length)) = some (2, 1, 1) := by
    decide +kernel
  have run : BookRun selfTradeOps st := execute_run Admissible bookStep selfTradeOps .init st result
  rw [result] at shape
  simp only [Option.map_some, Option.some.injEq, Prod.mk.injEq] at shape
  exact ⟨st, run, shape.1, shape.2.1, shape.2.2, (matching_is_safe selfTradeOps st run).1⟩

end HftExchange
