import HftExchange.Firm.BookSnapshots

set_option autoImplicit false

namespace HftExchange

open Base

def totalsAfter (ticks : List NormalizedTick) : Totals := ticks.foldl Totals.tick fun _ _ => 0

structure BestBid (total : Nat → Nat) (price quantity : Nat) : Prop where
  highest : (∃ p, total p ≠ 0) → IsGreatest {p | total p ≠ 0} price ∧ quantity = total price
  empty : (∀ p, total p = 0) → price = 0 ∧ quantity = 0

structure BestAsk (total : Nat → Nat) (price quantity : Nat) : Prop where
  lowest : (∃ p, total p ≠ 0) → IsLeast {p | total p ≠ 0} price ∧ quantity = total price
  empty : (∀ p, total p = 0) → price = maxPriceLevels - 1 ∧ quantity = 0

theorem top_bid (total : Nat → Nat) (best p : Nat) (top : Top .buy total best) (nonzero : total p ≠ 0) :
    IsGreatest {p | total p ≠ 0} best := by
  have above : best ∈ upperBounds {p | total p ≠ 0} := fun q some_ => by simpa [ahead] using top.first q some_
  refine ⟨?_, above⟩
  cases top.shown with
  | inl shown => exact shown
  | inr last =>
      have below : p ≤ best := above nonzero
      have same : p = best := by
        rw [emptyBest] at last
        omega
      exact same ▸ nonzero

theorem top_ask (total : Nat → Nat) (best p : Nat) (inside : ∀ p, total p ≠ 0 → p < maxPriceLevels)
    (top : Top .sell total best)
    (nonzero : total p ≠ 0) : IsLeast {p | total p ≠ 0} best := by
  have below : best ∈ lowerBounds {p | total p ≠ 0} := fun q some_ => by simpa [ahead] using top.first q some_
  refine ⟨?_, below⟩
  cases top.shown with
  | inl shown => exact shown
  | inr last =>
      have above : best ≤ p := below nonzero
      have bound := inside p nonzero
      have same : p = best := by
        rw [emptyBest] at last
        omega
      exact same ▸ nonzero

theorem top_empty (side : Side) (total : Nat → Nat) (best : Nat) (top : Top side total best)
    (nothing : ∀ p, total p = 0) :
    best = emptyBest side := top.shown.resolve_left fun shown => shown (nothing best)

theorem shows_best_bid (totals : Totals) (snap : BookSnapshot) (shows_ : Shows totals snap) :
    BestBid (totals .buy) snap.bestBid snap.bidQty := by
  refine ⟨fun ⟨p, nonzero⟩ => ⟨top_bid _ _ p shows_.bid nonzero, shows_.bidQty⟩, fun nothing => ?_⟩
  exact ⟨top_empty _ _ _ shows_.bid nothing, shows_.bidQty.trans (nothing _)⟩

theorem shows_best_ask (totals : Totals) (snap : BookSnapshot) (inside : OnLadder totals)
    (shows_ : Shows totals snap) :
    BestAsk (totals .sell) snap.bestAsk snap.askQty := by
  refine ⟨fun ⟨p, nonzero⟩ => ⟨top_ask _ _ p (inside .sell) shows_.ask nonzero, shows_.askQty⟩,
    fun nothing => ?_⟩
  exact ⟨top_empty _ _ _ shows_.ask nothing, shows_.askQty.trans (nothing _)⟩

theorem best_bid_unique (total : Nat → Nat) (p q m n : Nat) (one : BestBid total p m)
    (two : BestBid total q n) : p = q ∧ m = n := by
  by_cases nothing : ∀ r, total r = 0
  · obtain ⟨price, quantity⟩ := one.empty nothing
    obtain ⟨price', quantity'⟩ := two.empty nothing
    exact ⟨price.trans price'.symm, quantity.trans quantity'.symm⟩
  · obtain ⟨greatest, quantity⟩ := one.highest (not_forall.mp nothing)
    obtain ⟨greatest', quantity'⟩ := two.highest (not_forall.mp nothing)
    have same := greatest.unique greatest'
    exact ⟨same, by rw [quantity, quantity', same]⟩

theorem best_ask_unique (total : Nat → Nat) (p q m n : Nat) (one : BestAsk total p m)
    (two : BestAsk total q n) : p = q ∧ m = n := by
  by_cases nothing : ∀ r, total r = 0
  · obtain ⟨price, quantity⟩ := one.empty nothing
    obtain ⟨price', quantity'⟩ := two.empty nothing
    exact ⟨price.trans price'.symm, quantity.trans quantity'.symm⟩
  · obtain ⟨least, quantity⟩ := one.lowest (not_forall.mp nothing)
    obtain ⟨least', quantity'⟩ := two.lowest (not_forall.mp nothing)
    have same := least.unique least'
    exact ⟨same, by rw [quantity, quantity', same]⟩

theorem shows_unique (totals : Totals) (one two : BookSnapshot) (inside : OnLadder totals)
    (first : Shows totals one)
    (second : Shows totals two) : one = two := by
  obtain ⟨bid, bidQty⟩ := best_bid_unique _ _ _ _ _ (shows_best_bid totals one first)
    (shows_best_bid totals two second)
  obtain ⟨ask, askQty⟩ := best_ask_unique _ _ _ _ _ (shows_best_ask totals one inside first)
    (shows_best_ask totals two inside second)
  cases one
  cases two
  simp_all

structure BothRep (hot : HotBook) (cold : ColdBook) (totals : Totals) : Prop where
  hot : HotRep hot totals
  cold : ColdRep cold totals
  inside : OnLadder totals

theorem initial_both_rep : BothRep .init .init fun _ _ => 0 := by
  refine ⟨initial_hot_rep, ⟨fun p => ?_, fun p => ?_⟩, fun side p nonzero => absurd rfl nonzero⟩
  · simp [ColdBook.init]
  · simp [ColdBook.init]

theorem both_tick (hot : HotBook) (cold : ColdBook) (totals : Totals) (tick : NormalizedTick)
    (rep : BothRep hot cold totals)
    (good : GoodTick totals tick) :
    ∃ next, hot.processTick tick = .ok next ∧
    BothRep next (cold.processTick tick) (totals.tick tick) := by
  obtain ⟨next, result, hotRep⟩ := hot_tick hot totals tick rep.hot rep.inside good
  exact ⟨next, result, hotRep, cold_tick cold totals tick rep.cold good,
    on_ladder_tick totals tick rep.inside good⟩

theorem good_tick_room (totals : Totals) (tick : NormalizedTick)
    (level : tick.price < maxPriceLevels) (some_ : 1 ≤ tick.quantity)
    (room : ∀ side p, totals.tick tick side p < 2 ^ 32) : GoodTick totals tick := by
  refine ⟨level, some_, fun add => ?_⟩
  have bound := room (tickSide tick) tick.price
  rwa [totals_tick_side, if_pos rfl, Function.update_self, if_neg (by simp [add])] at bound

theorem both_ticks (hot : HotBook) (cold : ColdBook) (totals : Totals) (ticks : List NormalizedTick)
    (rep : BothRep hot cold totals)
    (made : ∀ tick ∈ ticks, tick.price < maxPriceLevels ∧ 1 ≤ tick.quantity)
    (room : ∀ front, front <+: ticks → ∀ side p, front.foldl Totals.tick totals side p < 2 ^ 32) :
    ∃ next, ticks.foldlM HotBook.processTick hot = .ok next ∧
      BothRep next (ticks.foldl ColdBook.processTick cold) (ticks.foldl Totals.tick totals) := by
  induction ticks generalizing hot cold totals with
  | nil => exact ⟨hot, rfl, rep⟩
  | cons tick rest ih =>
      obtain ⟨level, some_⟩ := made tick List.mem_cons_self
      have good := good_tick_room totals tick level some_ (room [tick] ⟨rest, rfl⟩)
      obtain ⟨middle, result, rep'⟩ := both_tick hot cold totals tick rep good
      obtain ⟨next, results, rep''⟩ := ih middle (cold.processTick tick) (totals.tick tick) rep'
        (fun tick member => made tick (List.mem_cons_of_mem _ member))
        (fun front before => room (tick :: front) (List.cons_prefix_cons.mpr ⟨rfl, before⟩))
      exact ⟨next, by rw [List.foldlM_cons, result, checked_bind_ok, results], rep''⟩

theorem both_snapshot (hot : HotBook) (cold : ColdBook) (totals : Totals) (rep : BothRep hot cold totals) :
    hot.getSnapshot = .ok cold.getSnapshot ∧ Shows totals cold.getSnapshot := by
  obtain ⟨snap, result, shown⟩ := hot_snapshot hot totals rep.hot
  have shown' := cold_snapshot cold totals rep.cold
  exact ⟨result.trans (congrArg Except.ok (shows_unique totals _ _ rep.inside shown shown')), shown'⟩

theorem hot_cold_agree (ticks : List NormalizedTick)
    (made : ∀ tick ∈ ticks, tick.price < maxPriceLevels ∧ 1 ≤ tick.quantity)
    (room : ∀ front, front <+: ticks → ∀ side p, totalsAfter front side p < 2 ^ 32) :
    ∀ front, front <+: ticks → ∃ hot snap, front.foldlM HotBook.processTick .init = .ok hot ∧
    hot.getSnapshot = .ok snap ∧
      (front.foldl ColdBook.processTick .init).getSnapshot = snap ∧
      BestBid (totalsAfter front .buy) snap.bestBid snap.bidQty ∧
      BestAsk (totalsAfter front .sell) snap.bestAsk snap.askQty := by
  intro front before
  obtain ⟨hot, result, rep⟩ := both_ticks .init .init _ front initial_both_rep
    (fun tick member => made tick (before.subset member))
      (fun earlier first => room earlier (first.trans before))
  obtain ⟨same, shown⟩ := both_snapshot hot _ _ rep
  exact ⟨hot, _, result, same, rfl, shows_best_bid _ _ shown, shows_best_ask _ _ rep.inside shown⟩

theorem totals_tick_le (totals : Totals) (tick : NormalizedTick) (side : Side) (p : Nat) :
    totals.tick tick side p ≤ totals side p + tick.quantity := by
  rw [totals_tick_side]
  by_cases own : side = tickSide tick
  · by_cases same : p = tick.price
    · subst same
      rw [if_pos own, Function.update_self]
      split <;> omega
    · rw [if_pos own, Function.update_of_ne same]
      omega
  · rw [if_neg own]
    omega

theorem totals_le_sum (totals : Totals) (ticks : List NormalizedTick) (side : Side) (p : Nat) :
    ticks.foldl Totals.tick totals side p ≤ totals side p + (ticks.map NormalizedTick.quantity).sum := by
  induction ticks generalizing totals with
  | nil => exact Nat.le_refl _
  | cons tick rest ih =>
      have one := totals_tick_le totals tick side p
      have more := ih (totals.tick tick)
      rw [List.foldl_cons, List.map_cons, List.sum_cons]
      omega

theorem small_ticks_room (ticks front : List NormalizedTick) (before : front <+: ticks)
    (side : Side) (p : Nat)
    (small : (ticks.map NormalizedTick.quantity).sum < 2 ^ 32) : totalsAfter front side p < 2 ^ 32 := by
  have bound := totals_le_sum (fun _ _ => 0) front side p
  have part : (front.map NormalizedTick.quantity).sum ≤ (ticks.map NormalizedTick.quantity).sum :=
    (before.map NormalizedTick.quantity).sublist.sum_le_sum fun _ _ => Nat.zero_le _
  rw [totalsAfter]
  omega

def sampleTicks : List NormalizedTick :=
  [⟨3, 0, 5, true, false, 0, 0⟩, ⟨3, 100000, 7, false, false, 0, 0⟩, ⟨3, 250, 2, true, true, 0, 0⟩,
    ⟨3, 100000, 9, false, true, 0, 0⟩]

theorem sample_books_agree :
    ∃ hot snap, sampleTicks.foldlM HotBook.processTick .init = .ok hot ∧
    hot.getSnapshot = .ok snap ∧
    (sampleTicks.foldl ColdBook.processTick .init).getSnapshot = snap ∧
    BestBid (totalsAfter sampleTicks .buy) snap.bestBid snap.bidQty ∧
    BestAsk (totalsAfter sampleTicks .sell) snap.bestAsk snap.askQty :=
  hot_cold_agree sampleTicks (by decide)
    (fun front before side p => small_ticks_room sampleTicks front before side p (by decide))
    sampleTicks (List.prefix_refl _)

end HftExchange
