import HftExchange.Firm.BookBuilder
import HftExchange.Book.Reference

set_option autoImplicit false

namespace HftExchange

open Base

-- What both kinds of local book stand for: a total for each side and price.
abbrev Totals := Side → Nat → Nat

def tickSide (tick : NormalizedTick) : Side := if tick.isBid then .buy else .sell

def Totals.tick (totals : Totals) (tick : NormalizedTick) : Totals :=
  let side := tickSide tick
  let total := totals side tick.price
  Function.update totals side (Function.update (totals side) tick.price
    (if tick.isTrade then total - tick.quantity else total + tick.quantity))

def emptyBest : Side → Nat
  | .buy => 0
  | .sell => maxPriceLevels - 1

structure Top (side : Side) (total : Nat → Nat) (best : Nat) : Prop where
  first : ∀ p, total p ≠ 0 → ahead side p best = false
  shown : total best ≠ 0 ∨ best = emptyBest side

structure Shows (totals : Totals) (snap : BookSnapshot) : Prop where
  bid : Top .buy (totals .buy) snap.bestBid
  ask : Top .sell (totals .sell) snap.bestAsk
  bidQty : snap.bidQty = totals .buy snap.bestBid
  askQty : snap.askQty = totals .sell snap.bestAsk

def OnLadder (totals : Totals) : Prop := ∀ side p, totals side p ≠ 0 → p < maxPriceLevels

-- A tick the books are made for: it has a level and a quantity, and an add
-- does not overflow the total.
structure GoodTick (totals : Totals) (tick : NormalizedTick) : Prop where
  level : tick.price < maxPriceLevels
  quantity : 1 ≤ tick.quantity
  room : tick.isTrade = false → totals (tickSide tick) tick.price + tick.quantity < 2 ^ 32

theorem on_ladder_tick (totals : Totals) (tick : NormalizedTick) (inside : OnLadder totals)
    (good : GoodTick totals tick) :
    OnLadder (totals.tick tick) := by
  intro side p nonzero
  by_cases here : side = tickSide tick ∧ p = tick.price
  · exact here.2 ▸ good.level
  · refine inside side p ?_
    rw [Totals.tick] at nonzero
    by_cases same : side = tickSide tick
    · subst same
      rwa [Function.update_self, Function.update_of_ne fun equal => here ⟨rfl, equal⟩] at nonzero
    · rwa [Function.update_of_ne same] at nonzero

structure HotSide (side : Side) (levels : Nat → Nat) (best : Nat) (total : Nat → Nat) : Prop where
  levels : ∀ p, p < maxPriceLevels → levels p = total p
  inside : best < maxPriceLevels
  top : Top side total best

theorem add_at_side (side : Side) (levels : Nat → Nat) (best : Nat) (total : Nat → Nat) (price quantity : Nat)
    (rep : HotSide side levels best total) (bound : price < maxPriceLevels) (some_ : 1 ≤ quantity)
    (room : total price + quantity < 2 ^ 32) :
    ∃ next, HotBook.addAt levels price quantity = .ok next ∧
      HotSide side next (if ahead side price best then price else best)
      (Function.update total price (total price + quantity)) := by
  refine ⟨Function.update levels price ((levels price + quantity) % 2 ^ 32),
    by simp [HotBook.addAt, bound], ?_, ?_, ?_, ?_⟩
  · intro p inside
    by_cases same : p = price
    · subst same
      rw [Function.update_self, Function.update_self, rep.levels p inside, Nat.mod_eq_of_lt room]
    · rw [Function.update_of_ne same, Function.update_of_ne same, rep.levels p inside]
  · split
    · exact bound
    · exact rep.inside
  · intro p nonzero
    by_cases same : p = price
    · subst same
      cases better : ahead side p best with
      | false => simpa using better
      | true => cases side <;> simp [ahead]
    · rw [Function.update_of_ne same] at nonzero
      have before := rep.top.first p nonzero
      cases better : ahead side price best with
      | false => simpa [better] using before
      | true =>
          cases side <;> simp only [ahead, decide_eq_true_eq, decide_eq_false_iff_not, if_true]
            at before better ⊢ <;> omega
  · cases better : ahead side price best with
    | true => exact .inl (by simp; omega)
    | false =>
        simp only [Bool.false_eq_true, if_false]
        by_cases same : best = price
        · subst same
          exact .inl (by simp; omega)
        · rw [Function.update_of_ne same]
          exact rep.top.shown

theorem scan_down_ok (levels : Nat → Nat) (p : Nat) (bound : p < maxPriceLevels) :
    ∃ q, HotBook.scanDown levels p = .ok q ∧ q ≤ p ∧ (∀ r, q < r → r ≤ p → levels r = 0) ∧
    (levels q ≠ 0 ∨ q = 0) := by
  induction p with
  | zero => exact ⟨0, rfl, Nat.le_refl 0, fun r more less => by omega, .inr rfl⟩
  | succ p ih =>
      by_cases empty : levels (p + 1) = 0
      · obtain ⟨q, found, least, gap, stop⟩ := ih (by omega)
        refine ⟨q, by simp [HotBook.scanDown, bound, empty, found], by omega, fun r more less => ?_, stop⟩
        by_cases top : r = p + 1
        · exact top ▸ empty
        · exact gap r more (by omega)
      · exact ⟨p + 1, by simp [HotBook.scanDown, bound, empty], Nat.le_refl _, fun r more less =>
          by omega, .inl empty⟩

theorem scan_up_ok (levels : Nat → Nat) (left p : Nat) (bound : p + left = maxPriceLevels - 1) :
    ∃ q, HotBook.scanUp levels left p = .ok q ∧ p ≤ q ∧ q < maxPriceLevels ∧
    (∀ r, p ≤ r → r < q → levels r = 0) ∧
      (levels q ≠ 0 ∨ q = maxPriceLevels - 1) := by
  have size : 0 < maxPriceLevels := by decide
  induction left generalizing p with
  | zero => exact ⟨p, rfl, Nat.le_refl p, by omega, fun r more less => by omega, .inr (by omega)⟩
  | succ left ih =>
      have inside : p < maxPriceLevels := by omega
      by_cases empty : levels p = 0
      · obtain ⟨q, found, least, most, gap, stop⟩ := ih (p + 1) (by omega)
        refine ⟨q, by simp [HotBook.scanUp, inside, empty, found], by omega, most,
          fun r more less => ?_, stop⟩
        by_cases first : r = p
        · exact first ▸ empty
        · exact gap r (by omega) less
      · exact ⟨p, by simp [HotBook.scanUp, inside, empty], Nat.le_refl _, inside, fun r more less =>
          by omega, .inl empty⟩

theorem take_at_ok (levels : Nat → Nat) (price quantity : Nat) (bound : price < maxPriceLevels) :
    HotBook.takeAt levels price quantity = .ok (Function.update levels price (levels price - quantity)) := by
  have saturates : (if quantity ≤ levels price then levels price - quantity else 0) =
      levels price - quantity := by
    split <;> omega
  simp [HotBook.takeAt, bound, saturates]

theorem take_at_side (side : Side) (levels : Nat → Nat) (best : Nat) (total : Nat → Nat)
    (price quantity : Nat)
    (rep : HotSide side levels best total) :
    (∀ p, p < maxPriceLevels → Function.update levels price (levels price - quantity) p =
      Function.update total price (total price - quantity) p) ∧
    (∀ p, Function.update total price (total price - quantity) p ≠ 0 → ahead side p best = false) ∧
    (Function.update total price (total price - quantity) best ≠ 0 ∨ best = emptyBest side ∨
      best = price ∧ Function.update total price (total price - quantity) price = 0) := by
  refine ⟨fun p inside => ?_, fun p nonzero => ?_, ?_⟩
  · by_cases same : p = price
    · subst same
      rw [Function.update_self, Function.update_self, rep.levels p inside]
    · rw [Function.update_of_ne same, Function.update_of_ne same, rep.levels p inside]
  · refine rep.top.first p fun zero => nonzero ?_
    by_cases same : p = price
    · subst same
      rw [Function.update_self, zero, Nat.zero_sub]
    · rw [Function.update_of_ne same, zero]
  · by_cases same : best = price
    · subst same
      by_cases spent : total best - quantity = 0
      · exact .inr (.inr ⟨rfl, by rw [Function.update_self, spent]⟩)
      · exact .inl (by rwa [Function.update_self])
    · rw [Function.update_of_ne same]
      exact rep.top.shown.imp_right Or.inl

theorem take_bid (levels : Nat → Nat) (best : Nat) (total : Nat → Nat) (price quantity : Nat)
    (rep : HotSide .buy levels best total) (next : Nat → Nat)
    (taken : next = Function.update levels price (levels price - quantity))
    (bound : price < maxPriceLevels) (outside : ∀ p, total p ≠ 0 → p < maxPriceLevels) :
    if next price = 0 ∧ price = best then
      ∃ lower, HotBook.scanDown next best = .ok lower ∧
      HotSide .buy next lower (Function.update total price (total price - quantity))
    else HotSide .buy next best (Function.update total price (total price - quantity)) := by
  obtain ⟨same, first, shown⟩ := take_at_side .buy levels best total price quantity rep
  rw [← taken] at same
  have kept : ∀ p, Function.update total price (total price - quantity) p ≠ 0 → p < maxPriceLevels := by
    intro p nonzero
    by_cases here : p = price
    · exact here ▸ bound
    · rw [Function.update_of_ne here] at nonzero
      exact outside p nonzero
  split
  · obtain ⟨lower, found, least, gap, stop⟩ := scan_down_ok next best rep.inside
    have inside : lower < maxPriceLevels := Nat.lt_of_le_of_lt least rep.inside
    refine ⟨lower, found, same, inside, fun p nonzero => ?_, ?_⟩
    · have below := first p nonzero
      simp only [ahead, decide_eq_false_iff_not, Nat.not_lt] at below ⊢
      by_contra above
      exact nonzero ((same p (kept p nonzero)).symm.trans (gap p (Nat.lt_of_not_le above) below))
    · rw [← same lower inside]
      exact stop
  · rename_i unscanned
    refine ⟨same, rep.inside, first, ?_⟩
    rcases shown with nonzero | last | ⟨here, empty⟩
    · exact .inl nonzero
    · exact .inr last
    · exact absurd ⟨(same price bound).trans empty, here.symm⟩ unscanned

theorem take_ask (levels : Nat → Nat) (best : Nat) (total : Nat → Nat) (price quantity : Nat)
    (rep : HotSide .sell levels best total) (next : Nat → Nat)
    (taken : next = Function.update levels price (levels price - quantity))
    (bound : price < maxPriceLevels) (outside : ∀ p, total p ≠ 0 → p < maxPriceLevels) :
    if next price = 0 ∧ price = best then
      ∃ higher, HotBook.scanUp next (maxPriceLevels - 1 - best) best = .ok higher ∧
        HotSide .sell next higher (Function.update total price (total price - quantity))
    else HotSide .sell next best (Function.update total price (total price - quantity)) := by
  obtain ⟨same, first, shown⟩ := take_at_side .sell levels best total price quantity rep
  rw [← taken] at same
  have kept : ∀ p, Function.update total price (total price - quantity) p ≠ 0 → p < maxPriceLevels := by
    intro p nonzero
    by_cases here : p = price
    · exact here ▸ bound
    · rw [Function.update_of_ne here] at nonzero
      exact outside p nonzero
  split
  · obtain ⟨higher, found, least, inside, gap, stop⟩ :=
      scan_up_ok next (maxPriceLevels - 1 - best) best (by have := rep.inside; omega)
    refine ⟨higher, found, same, inside, fun p nonzero => ?_, ?_⟩
    · have above := first p nonzero
      simp only [ahead, decide_eq_false_iff_not, Nat.not_lt] at above ⊢
      by_contra below
      exact nonzero ((same p (kept p nonzero)).symm.trans (gap p above (Nat.lt_of_not_le below)))
    · rw [← same higher inside]
      exact stop
  · rename_i unscanned
    refine ⟨same, rep.inside, first, ?_⟩
    rcases shown with nonzero | last | ⟨here, empty⟩
    · exact .inl nonzero
    · exact .inr last
    · exact absurd ⟨(same price bound).trans empty, here.symm⟩ unscanned

structure HotRep (book : HotBook) (totals : Totals) : Prop where
  bids : HotSide .buy book.bids book.bestBid (totals .buy)
  asks : HotSide .sell book.asks book.bestAsk (totals .sell)

theorem totals_tick_side (totals : Totals) (tick : NormalizedTick) (side : Side) :
    totals.tick tick side = if side = tickSide tick then Function.update (totals side) tick.price
      (if tick.isTrade then totals side tick.price - tick.quantity
        else totals side tick.price + tick.quantity)
    else totals side := by
  by_cases same : side = tickSide tick
  · subst same
    simp [Totals.tick]
  · simp [Totals.tick, same]

section
variable (book : HotBook) (totals : Totals) (tick : NormalizedTick) (rep : HotRep book totals)
  (inside : OnLadder totals)
  (good : GoodTick totals tick)
include rep good

theorem hot_bid_add (bid : tick.isBid = true) (add : tick.isTrade = false) :
    ∃ bids best, book.processTick tick = .ok { book with bids := bids, bestBid := best } ∧
      HotSide .buy bids best
        (Function.update (totals .buy) tick.price (totals .buy tick.price + tick.quantity)) := by
  have room := good.room add
  rw [tickSide, if_pos bid] at room
  obtain ⟨bids, added, rep'⟩ := add_at_side .buy _ _ _ tick.price tick.quantity rep.bids good.level
    good.quantity room
  refine ⟨bids, _, ?_, rep'⟩
  simp [HotBook.processTick, Nat.not_le.mpr good.level, bid, add, added, ahead]

theorem hot_ask_add (ask : tick.isBid = false) (add : tick.isTrade = false) :
    ∃ asks best, book.processTick tick = .ok { book with asks := asks, bestAsk := best } ∧
      HotSide .sell asks best
        (Function.update (totals .sell) tick.price (totals .sell tick.price + tick.quantity)) := by
  have room := good.room add
  rw [tickSide, if_neg (by simp [ask])] at room
  obtain ⟨asks, added, rep'⟩ := add_at_side .sell _ _ _ tick.price tick.quantity rep.asks good.level
    good.quantity room
  refine ⟨asks, _, ?_, rep'⟩
  simp [HotBook.processTick, Nat.not_le.mpr good.level, ask, add, added, ahead]

include inside

theorem hot_bid_trade (bid : tick.isBid = true) (trade : tick.isTrade = true) :
    ∃ bids best, book.processTick tick = .ok { book with bids := bids, bestBid := best } ∧
      HotSide .buy bids best
        (Function.update (totals .buy) tick.price (totals .buy tick.price - tick.quantity)) := by
  have taken := take_at_ok book.bids tick.price tick.quantity good.level
  have result := take_bid _ _ _ tick.price tick.quantity rep.bids _ rfl good.level (inside .buy)
  generalize Function.update book.bids tick.price (book.bids tick.price - tick.quantity) =
    bids at taken result
  by_cases scan : bids tick.price = 0 ∧ tick.price = book.bestBid
  · rw [if_pos scan] at result
    obtain ⟨lower, found, rep'⟩ := result
    refine ⟨bids, lower, ?_, rep'⟩
    simp only [HotBook.processTick, if_neg (Nat.not_le.mpr good.level), bid, trade, if_true,
      Bool.not_true, Bool.false_eq_true, if_false,
      taken, checked_bind_ok, fetch_ok _ _ _ good.level, if_pos scan, found, checked_pure]
  · rw [if_neg scan] at result
    refine ⟨bids, book.bestBid, ?_, result⟩
    simp only [HotBook.processTick, if_neg (Nat.not_le.mpr good.level), bid, trade, if_true,
      Bool.not_true, Bool.false_eq_true, if_false,
      taken, checked_bind_ok, fetch_ok _ _ _ good.level, if_neg scan, checked_pure]

theorem hot_ask_trade (ask : tick.isBid = false) (trade : tick.isTrade = true) :
    ∃ asks best, book.processTick tick = .ok { book with asks := asks, bestAsk := best } ∧
      HotSide .sell asks best
        (Function.update (totals .sell) tick.price (totals .sell tick.price - tick.quantity)) := by
  have taken := take_at_ok book.asks tick.price tick.quantity good.level
  have result := take_ask _ _ _ tick.price tick.quantity rep.asks _ rfl good.level (inside .sell)
  generalize Function.update book.asks tick.price (book.asks tick.price - tick.quantity) =
    asks at taken result
  by_cases scan : asks tick.price = 0 ∧ tick.price = book.bestAsk
  · rw [if_pos scan] at result
    obtain ⟨higher, found, rep'⟩ := result
    refine ⟨asks, higher, ?_, rep'⟩
    simp only [HotBook.processTick, if_neg (Nat.not_le.mpr good.level), ask, trade, Bool.not_true,
      Bool.false_eq_true, if_false,
      taken, checked_bind_ok, fetch_ok _ _ _ good.level, if_pos scan, found, checked_pure]
  · rw [if_neg scan] at result
    refine ⟨asks, book.bestAsk, ?_, result⟩
    simp only [HotBook.processTick, if_neg (Nat.not_le.mpr good.level), ask, trade, Bool.not_true,
      Bool.false_eq_true, if_false,
      taken, checked_bind_ok, fetch_ok _ _ _ good.level, if_neg scan, checked_pure]

theorem hot_tick : ∃ next, book.processTick tick = .ok next ∧ HotRep next (totals.tick tick) := by
  have side := totals_tick_side totals tick
  cases bid : tick.isBid with
  | true =>
      have own : tickSide tick = .buy := by simp [tickSide, bid]
      rw [own] at side
      have other : totals.tick tick .sell = totals .sell := (side .sell).trans (if_neg (by decide))
      cases trade : tick.isTrade with
      | false =>
          obtain ⟨bids, best, result, rep'⟩ := hot_bid_add book totals tick rep good bid trade
          refine ⟨_, result, ?_, other ▸ rep.asks⟩
          rw [side, if_pos rfl, if_neg (by simp [trade])]
          exact rep'
      | true =>
          obtain ⟨bids, best, result, rep'⟩ := hot_bid_trade book totals tick rep inside good bid trade
          refine ⟨_, result, ?_, other ▸ rep.asks⟩
          rw [side, if_pos rfl, if_pos trade]
          exact rep'
  | false =>
      have own : tickSide tick = .sell := by simp [tickSide, bid]
      rw [own] at side
      have other : totals.tick tick .buy = totals .buy := (side .buy).trans (if_neg (by decide))
      cases trade : tick.isTrade with
      | false =>
          obtain ⟨asks, best, result, rep'⟩ := hot_ask_add book totals tick rep good bid trade
          refine ⟨_, result, other ▸ rep.bids, ?_⟩
          rw [side, if_pos rfl, if_neg (by simp [trade])]
          exact rep'
      | true =>
          obtain ⟨asks, best, result, rep'⟩ := hot_ask_trade book totals tick rep inside good bid trade
          refine ⟨_, result, other ▸ rep.bids, ?_⟩
          rw [side, if_pos rfl, if_pos trade]
          exact rep'

end

theorem hot_snapshot (book : HotBook) (totals : Totals) (rep : HotRep book totals) :
    ∃ snap, book.getSnapshot = .ok snap ∧ Shows totals snap := by
  refine ⟨⟨book.bestBid, book.bestAsk, book.bids book.bestBid, book.asks book.bestAsk⟩, ?_,
    rep.bids.top, rep.asks.top, ?_, ?_⟩
  · simp [HotBook.getSnapshot, rep.bids.inside, rep.asks.inside]
  · exact rep.bids.levels _ rep.bids.inside
  · exact rep.asks.levels _ rep.asks.inside

end HftExchange
