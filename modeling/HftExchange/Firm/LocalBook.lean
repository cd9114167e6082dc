import HftExchange.Firm.BookSnapshots
import HftExchange.Engine.MarketData
import HftExchange.Book.Safety

set_option autoImplicit false

namespace HftExchange

open Base

def volume (book : Resting) : Totals := fun side p => ((levelOrders book side p).map Order.quantity).sum

theorem volume_cons (r : Order) (book : Resting) (side : Side) (p : Nat) :
    volume (r :: book) side p = (if r.side = side ∧ r.price = p then r.quantity else 0) + volume
      book side p := by
  by_cases here : r.side = side ∧ r.price = p
  · simp [volume, levelOrders, onLevel, here]
  · have off : onLevel side p r = false := by simpa [onLevel] using here
    simp [volume, levelOrders, off, here]

theorem volume_append (first second : Resting) (side : Side) (p : Nat) :
    volume (first ++ second) side p = volume first side p + volume second side p := by
  simp [volume, levelOrders]

theorem volume_rest (book : Resting) (n : Order) (side : Side) (p : Nat) :
    volume (book ++ [n]) side p = volume book side p + if n.side = side ∧
    n.price = p then n.quantity else 0 := by
  rw [volume_append, volume_cons]
  rfl

theorem volume_settle (book : Resting) (r : Order) (qty : Nat) (distinct : (ids book).Nodup)
    (inside : r ∈ book)
    (most : qty ≤ r.quantity) (side : Side) (p : Nat) :
    volume (settle book r.internalId qty) side p + (if r.side = side ∧
      r.price = p then qty else 0) = volume book side p := by
  induction book with
  | nil => cases inside
  | cons head tail ih =>
      obtain ⟨outside, distinct'⟩ :=
        List.nodup_cons.mp (by simpa [ids] using distinct : (head.internalId :: ids tail).Nodup)
      have step : settle (head :: tail) r.internalId qty =
          (takeQuantity r.internalId qty head).toList ++ settle tail r.internalId qty := by
        simp only [settle, List.filterMap_cons]
        split <;> simp_all
      rw [step, volume_append, volume_cons]
      rcases List.mem_cons.mp inside with rfl | later
      · rw [settle_absent tail _ qty outside, takeQuantity, if_pos rfl]
        by_cases all : r.quantity ≤ qty
        · have same : qty = r.quantity := by omega
          simp [volume, levelOrders, same, Nat.add_comm]
        · rw [if_neg all, Option.toList_some, volume_cons]
          by_cases here : r.side = side ∧ r.price = p
          · simp only [if_pos here, volume, levelOrders, List.filter_nil, List.map_nil, List.sum_nil]
            omega
          · simp only [if_neg here, volume, levelOrders, List.filter_nil, List.map_nil, List.sum_nil]
            omega
      · have apart : head.internalId ≠ r.internalId := fun same => outside (same ▸ List.mem_map_of_mem later)
        have rest := ih distinct' later
        rw [takeQuantity, if_neg apart, Option.toList_some, volume_cons]
        simp only [volume, levelOrders, List.filter_nil, List.map_nil, List.sum_nil] at rest ⊢
        omega

theorem volume_zero (book : Resting) (side : Side) (p : Nat)
    (empty : ∀ r ∈ book, r.side = side → r.price ≠ p) :
    volume book side p = 0 := by
  have none_ : levelOrders book side p = [] := List.filter_eq_nil_iff.mpr fun r inside here => by
    obtain ⟨onSide, atPrice⟩ : r.side = side ∧ r.price = p := by simpa [onLevel] using here
    exact empty r inside onSide atPrice
  simp [volume, none_]

-- The aggressor's own side has nothing at the price of a maker: the book
-- would have been crossed.
theorem taker_level_empty (book : Resting) (n r : Order) (best : bestOpposite n book = some r)
    (uncrossed : Uncrossed book) :
    volume book n.side r.price = 0 := by
  have inside := best_opposite_mem n r book best
  obtain ⟨compat, _, _⟩ := best_opposite_spec n r book best
  obtain ⟨opposite, _⟩ := (compatible_iff n r).mp compat
  refine volume_zero book n.side r.price fun s there onSide atPrice => ?_
  cases own : n.side with
  | buy =>
      have sells : r.side = .sell := by simpa [own, Side.opposite] using opposite
      have crossed := uncrossed s there (onSide.trans own) r inside sells
      omega
  | sell =>
      have buys : r.side = .buy := by simpa [own, Side.opposite] using opposite
      have crossed := uncrossed r inside buys s there (onSide.trans own)
      omega

structure Matchable (book : Resting) (n : Order) : Prop where
  distinct : (ids book).Nodup
  uncrossed : Uncrossed book
  positive : ∀ r ∈ book, 0 < r.quantity
  priced : ∀ r ∈ book, r.price < maxPrice
  own : n.price < maxPrice

theorem matchable_settle (book : Resting) (n r : Order) (qty left : Nat) (ready : Matchable book n)
    (inside : r ∈ book) :
    Matchable (settle book r.internalId qty) { n with quantity := left } where
  distinct := settle_distinct book r qty ready.distinct inside
  uncrossed := uncrossed_settle book r.internalId qty ready.uncrossed
  positive s there := by
    rcases (mem_settle_iff book r qty ready.distinct inside s).mp there with ⟨old, _⟩ | ⟨rfl, more⟩
    · exact ready.positive s old
    · exact Nat.sub_pos_of_lt more
  priced s there := by
    rcases (mem_settle_iff book r qty ready.distinct inside s).mp there with ⟨old, _⟩ | ⟨rfl, _⟩
    · exact ready.priced s old
    · exact ready.priced r inside
  own := ready.own

namespace BookBuilder

def receive (builder : BookBuilder) : List (ItchMessage × Nat × Nat) → Checked BookBuilder
  | [] => .ok builder
  | m :: rest => do (← builder.processTick (normalize m.1 m.2.1 m.2.2)).receive rest

theorem receive_append (builder : BookBuilder) (first second : List (ItchMessage × Nat × Nat)) :
    builder.receive (first ++ second) = builder.receive first >>= fun next => next.receive second := by
  induction first generalizing builder with
  | nil => rfl
  | cons m rest ih =>
      simp only [List.cons_append, receive]
      cases builder.processTick (normalize m.1 m.2.1 m.2.2) with
      | error fault => rfl
      | ok next => exact ih next

end BookBuilder

theorem tick_side_message (type : Char) (o : Order) (price qty t1 t2 : Nat) :
    tickSide (normalize (itchMessage type o price qty) t1 t2) = o.side := by
  cases side : o.side with
  | buy => simp [tickSide, normalize, itchMessage, side, sideByte]
  | sell =>
      have other : ascii 'S' ≠ ascii 'B' := by decide
      simp [tickSide, normalize, itchMessage, side, sideByte, other]

theorem receive_elsewhere (builder : BookBuilder) (feed : List (ItchMessage × Nat × Nat))
    (inst : Nat) (totals : Totals)
    (safe : BuilderSafe builder) (rep : InstRep builder inst totals)
    (located : ∀ m ∈ feed, m.1.stockLocate ≠ inst) :
    ∃ next, builder.receive feed = .ok next ∧ BuilderSafe next ∧ InstRep next inst totals := by
  induction feed generalizing builder with
  | nil => exact ⟨builder, rfl, safe, rep⟩
  | cons m rest ih =>
      obtain ⟨mid, step, safe', same⟩ := builder_tick_safe builder (normalize m.1 m.2.1 m.2.2) safe
      have rep' := inst_rep_other builder mid inst _ totals rep same (Ne.symm (located m (by simp)))
      obtain ⟨next, result, final⟩ := ih mid safe' rep' fun other member => located other
        (List.mem_cons_of_mem _ member)
      exact ⟨next, by simp [BookBuilder.receive, step, result], final⟩

theorem receive_own (builder : BookBuilder) (msg : ItchMessage) (t1 t2 inst : Nat) (totals : Totals)
    (safe : BuilderSafe builder)
    (rep : InstRep builder inst totals) (located : msg.stockLocate = inst) (known : inst < numInstruments)
    (good : GoodTick totals (normalize msg t1 t2)) :
    ∃ next, builder.receive [(msg, t1, t2)] = .ok next ∧ BuilderSafe next ∧
    InstRep next inst (totals.tick (normalize msg t1 t2)) := by
  subst located
  obtain ⟨next, step, safe', _⟩ := builder_tick_safe builder (normalize msg t1 t2) safe
  have rep' := inst_rep_tick builder next totals (normalize msg t1 t2) rep known good step
  exact ⟨next, by simp [BookBuilder.receive, step], safe', rep'⟩

section
variable (book : Resting) (n : Order) (t1 t2 : Nat)

theorem rest_tick :
    (volume book).tick (normalize (itchMessage 'A' n n.price n.quantity) t1 t2) =
    volume (book ++ [n]) := by
  have trade : (normalize (itchMessage 'A' n n.price n.quantity) t1 t2).isTrade = false :=
    decide_eq_false (show ascii 'A' ≠ ascii 'E' by decide)
  funext side p
  rw [totals_tick_side, tick_side_message, volume_rest, trade]
  by_cases own : side = n.side
  · subst own
    by_cases here : p = n.price
    · subst here
      simp [normalize, itchMessage]
    · simp [normalize, itchMessage, here, Ne.symm here]
  · simp [own, Ne.symm own]

theorem rest_good (live : 0 < n.quantity) (priced : n.price < maxPrice)
    (room : volume (book ++ [n]) n.side n.price < 2 ^ 32) :
    GoodTick (volume book) (normalize (itchMessage 'A' n n.price n.quantity) t1 t2) := by
  refine ⟨priced, live, fun _ => ?_⟩
  rw [tick_side_message]
  rw [volume_rest, if_pos ⟨rfl, rfl⟩] at room
  exact room

theorem execution_good (price qty : Nat) (priced : price < maxPrice) (some_ : 0 < qty) (totals : Totals) :
    GoodTick totals (normalize (itchMessage 'E' n price qty) t1 t2) :=
  ⟨priced, some_, fun add => absurd add (by simp [normalize, itchMessage])⟩

theorem maker_tick (r : Order) (qty : Nat) (distinct : (ids book).Nodup) (inside : r ∈ book)
    (most : qty ≤ r.quantity) :
    (volume book).tick (normalize (itchMessage 'E' r r.price qty) t1 t2) = volume
    (settle book r.internalId qty) := by
  have trade : (normalize (itchMessage 'E' r r.price qty) t1 t2).isTrade = true :=
    by simp [normalize, itchMessage]
  funext side p
  have balance := volume_settle book r qty distinct inside most side p
  rw [totals_tick_side, tick_side_message, trade]
  by_cases own : side = r.side
  · subst own
    by_cases here : p = r.price
    · subst here
      simp only [and_self, if_true] at balance
      simp only [normalize, itchMessage, if_true, Function.update_self]
      omega
    · rw [if_neg fun both => here both.2.symm] at balance
      simp only [normalize, itchMessage, if_true, Function.update_of_ne here]
      omega
  · rw [if_neg fun both => own both.1.symm] at balance
    simp only [if_neg own]
    omega

theorem taker_tick (price qty : Nat) (totals : Totals) (empty : totals n.side price = 0) :
    totals.tick (normalize (itchMessage 'E' n price qty) t1 t2) = totals := by
  have trade : (normalize (itchMessage 'E' n price qty) t1 t2).isTrade = true :=
    by simp [normalize, itchMessage]
  funext side p
  rw [totals_tick_side, tick_side_message, trade]
  by_cases own : side = n.side
  · subst own
    by_cases here : p = price
    · subst here
      simp [normalize, itchMessage, empty]
    · simp [normalize, itchMessage, here]
  · simp [own]

end

theorem trade_quantity_pos (n r : Order) (taker : 0 < n.quantity) (maker : 0 < r.quantity) :
    0 < tradeQty n r := by
  simp only [tradeQty]
  omega

theorem receive_trade (builder : BookBuilder) (inst : Nat) (book : Resting) (n r : Order)
    (m1 m2 t1 t2 : Nat) (safe : BuilderSafe builder)
    (rep : InstRep builder inst (volume book)) (ready : Matchable book n) (known : inst < numInstruments)
    (placed : ∀ r ∈ book, r.instrumentId = inst) (own : n.instrumentId = inst) (live : 0 < n.quantity)
    (best : bestOpposite n book = some r) :
    ∃ next, builder.receive [(itchMessage 'E' r r.price (tradeQty n r), m1, m2),
      (itchMessage 'E' n r.price (tradeQty n r), t1, t2)] =
        .ok next ∧ BuilderSafe next ∧
        InstRep next inst (volume (settle book r.internalId (tradeQty n r))) := by
  have inside := best_opposite_mem n r book best
  have positive := trade_quantity_pos n r live (ready.positive r inside)
  have most : tradeQty n r ≤ r.quantity := Nat.min_le_right _ _
  obtain ⟨made, makerStep, makerSafe, makerRep⟩ :=
    receive_own builder (itchMessage 'E' r r.price (tradeQty n r)) m1 m2 inst _ safe rep
    (placed r inside) known (execution_good r m1 m2 r.price _ (ready.priced r inside) positive _)
  rw [maker_tick book m1 m2 r _ ready.distinct inside most] at makerRep
  obtain ⟨taken, takerStep, takerSafe, takerRep⟩ :=
    receive_own made (itchMessage 'E' n r.price (tradeQty n r)) t1 t2 inst _ makerSafe
    makerRep own known (execution_good n t1 t2 r.price _ (ready.priced r inside) positive _)
  have empty : volume (settle book r.internalId (tradeQty n r)) n.side r.price = 0 := by
    have before := taker_level_empty book n r best ready.uncrossed
    have balance := volume_settle book r _ ready.distinct inside most n.side r.price
    omega
  rw [taker_tick n t1 t2 r.price _ _ empty] at takerRep
  refine ⟨taken, ?_, takerSafe, takerRep⟩
  have both := BookBuilder.receive_append builder [(itchMessage 'E' r r.price (tradeQty n r), m1, m2)]
    [(itchMessage 'E' n r.price (tradeQty n r), t1, t2)]
  rw [makerStep, checked_bind_ok, takerStep] at both
  exact both

theorem receive_trace (inst : Nat) (book final : Resting) (n : Order) (events : List Event)
    (trace : MatchTrace book n events final)
    (builder : BookBuilder) (feed : List (ItchMessage × Nat × Nat)) (safe : BuilderSafe builder)
    (rep : InstRep builder inst (volume book)) (ready : Matchable book n) (known : inst < numInstruments)
    (placed : ∀ r ∈ book, r.instrumentId = inst) (own : n.instrumentId = inst)
    (fits : ∀ side p, volume final side p < 2 ^ 32)
    (delivered : feed.map Prod.fst = itchSequence (events.flatMap Event.outputs)) :
    Uncrossed final ∧ ∃ next, builder.receive feed = .ok next ∧ BuilderSafe next ∧
    InstRep next inst (volume final) := by
  induction trace generalizing builder feed with
  | ended book next n event step =>
      cases step with
      | reject r live best same =>
          cases List.map_eq_nil_iff.mp delivered
          exact ⟨ready.uncrossed, builder, rfl, safe, rep⟩
      | filled spent =>
          cases List.map_eq_nil_iff.mp delivered
          exact ⟨ready.uncrossed, builder, rfl, safe, rep⟩
      | rest live absent =>
          rw [List.flatMap_singleton, itch_rest] at delivered
          obtain ⟨⟨msg, t1, t2⟩, rfl, same⟩ := List.map_eq_singleton_iff.mp delivered
          obtain rfl : msg = itchMessage 'A' n n.price n.quantity := same
          obtain ⟨next, result, safe', rep'⟩ := receive_own builder _ t1 t2 inst _ safe rep own known
            (rest_good book n t1 t2 live ready.own (fits n.side n.price))
          rw [rest_tick] at rep'
          exact ⟨uncrossed_rest book n ready.uncrossed absent, next, result, safe', rep'⟩
  | traded book next final n left event events step rest ih =>
      cases step with
      | trade r live best other =>
          have inside := best_opposite_mem n r book best
          rw [List.flatMap_cons, itch_append, itch_trade] at delivered
          obtain ⟨first, later, rfl, now_, then_⟩ := List.map_eq_append_iff.mp delivered
          obtain ⟨⟨_, m1, m2⟩, tail, rfl, rfl, rest_⟩ := List.map_eq_cons_iff.mp now_
          obtain ⟨⟨msg, t1, t2⟩, rfl, same⟩ := List.map_eq_singleton_iff.mp rest_
          obtain rfl : msg = itchMessage 'E' n r.price (tradeQty n r) := same
          obtain ⟨mid, both, midSafe, midRep⟩ :=
            receive_trade builder inst book n r m1 m2 t1 t2 safe rep ready known
            placed own live best
          obtain ⟨uncrossed, final_, result, finalRep⟩ := ih mid later midSafe midRep
            (matchable_settle book n r (tradeQty n r) _ ready inside) (fun s member => by
              obtain ⟨old, there, rfl | rfl⟩ := settle_origin book _ _ s member
              · exact placed s there
              · exact placed old there) own fits then_
          exact ⟨uncrossed, final_,
            by rw [BookBuilder.receive_append, both, checked_bind_ok, result], finalRep⟩

end HftExchange
