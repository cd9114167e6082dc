import HftExchange.Firm.BookLadder

set_option autoImplicit false

namespace HftExchange

open Base

def ColdSide (levels : Dict Nat Nat) (total : Nat → Nat) : Prop :=
  ∀ p, levels.lookup p = if total p = 0 then none else some (total p)

structure ColdRep (book : ColdBook) (totals : Totals) : Prop where
  bids : ColdSide book.bids (totals .buy)
  asks : ColdSide book.asks (totals .sell)

theorem price_word (price : Nat) (bound : price < maxPriceLevels) : price % 2 ^ 32 = price := by
  have small : maxPriceLevels < 2 ^ 32 := by decide
  exact Nat.mod_eq_of_lt (Nat.lt_trans bound small)

theorem cold_add_side (levels : Dict Nat Nat) (total : Nat → Nat) (price quantity : Nat)
    (rep : ColdSide levels total)
    (bound : price < maxPriceLevels) (some_ : 1 ≤ quantity) (room : total price + quantity < 2 ^ 32) :
    ColdSide (ColdBook.addAt levels price quantity)
    (Function.update total price (total price + quantity)) := by
  have stored : (levels.lookup price).getD 0 = total price := by
    rw [rep price]
    split
    · rename_i empty
      exact empty.symm
    · rfl
  intro p
  rw [ColdBook.addAt, price_word price bound, stored, Nat.mod_eq_of_lt room]
  by_cases same : p = price
  · subst same
    have live : total p + quantity ≠ 0 := by omega
    rw [AList.lookup_insert, Function.update_self, if_neg live]
  · rw [AList.lookup_insert_ne same, Function.update_of_ne same, rep p]

theorem cold_take_side (levels : Dict Nat Nat) (total : Nat → Nat) (price quantity : Nat)
    (rep : ColdSide levels total)
    (bound : price < maxPriceLevels) :
    ColdSide (ColdBook.takeAt levels price quantity)
    (Function.update total price (total price - quantity)) := by
  have here := rep price
  rw [ColdBook.takeAt, price_word price bound, here]
  intro p
  by_cases empty : total price = 0
  · have unchanged : Function.update total price (total price - quantity) = total := by
      rw [empty, Nat.zero_sub, ← empty, Function.update_eq_self]
    rw [if_pos empty, unchanged]
    exact rep p
  · rw [if_neg empty]
    by_cases same : p = price
    · subst same
      rw [Function.update_self]
      by_cases more : quantity < total p
      · have live : total p - quantity ≠ 0 := by omega
        simp only [if_pos more, AList.lookup_insert, if_neg live]
      · have spent : total p - quantity = 0 := by omega
        simp only [if_neg more, AList.lookup_erase, if_pos spent]
    · rw [Function.update_of_ne same, ← rep p]
      by_cases more : quantity < total price
      · simp only [if_pos more, AList.lookup_insert_ne same]
      · simp only [if_neg more, AList.lookup_erase_ne same]

theorem cold_tick (book : ColdBook) (totals : Totals) (tick : NormalizedTick)
    (rep : ColdRep book totals) (good : GoodTick totals tick) :
    ColdRep (book.processTick tick) (totals.tick tick) := by
  have side := totals_tick_side totals tick
  have room := good.room
  cases bid : tick.isBid with
  | true =>
      have own : tickSide tick = .buy := by simp [tickSide, bid]
      rw [own] at side room
      have other : totals.tick tick .sell = totals .sell := (side .sell).trans (if_neg (by decide))
      cases trade : tick.isTrade with
      | false =>
          have result : book.processTick tick =
              { book with bids := ColdBook.addAt book.bids tick.price tick.quantity } := by
            simp [ColdBook.processTick, bid, trade]
          refine result ▸ ⟨?_, other ▸ rep.asks⟩
          rw [side, if_pos rfl, if_neg (by simp [trade])]
          exact cold_add_side _ _ _ _ rep.bids good.level good.quantity (room trade)
      | true =>
          have result : book.processTick tick =
              { book with bids := ColdBook.takeAt book.bids tick.price tick.quantity } := by
            simp [ColdBook.processTick, bid, trade]
          refine result ▸ ⟨?_, other ▸ rep.asks⟩
          rw [side, if_pos rfl, if_pos trade]
          exact cold_take_side _ _ _ _ rep.bids good.level
  | false =>
      have own : tickSide tick = .sell := by simp [tickSide, bid]
      rw [own] at side room
      have other : totals.tick tick .buy = totals .buy := (side .buy).trans (if_neg (by decide))
      cases trade : tick.isTrade with
      | false =>
          have result : book.processTick tick =
              { book with asks := ColdBook.addAt book.asks tick.price tick.quantity } := by
            simp [ColdBook.processTick, bid, trade]
          refine result ▸ ⟨other ▸ rep.bids, ?_⟩
          rw [side, if_pos rfl, if_neg (by simp [trade])]
          exact cold_add_side _ _ _ _ rep.asks good.level good.quantity (room trade)
      | true =>
          have result : book.processTick tick =
              { book with asks := ColdBook.takeAt book.asks tick.price tick.quantity } := by
            simp [ColdBook.processTick, bid, trade]
          refine result ▸ ⟨other ▸ rep.bids, ?_⟩
          rw [side, if_pos rfl, if_pos trade]
          exact cold_take_side _ _ _ _ rep.asks good.level

theorem cold_keys (levels : Dict Nat Nat) (total : Nat → Nat) (rep : ColdSide levels total) (p : Nat) :
    p ∈ levels.keys ↔ total p ≠ 0 := by
  rw [← AList.mem_keys, ← AList.lookup_isSome, rep p]
  split <;> simp_all

theorem cold_quantity (levels : Dict Nat Nat) (total : Nat → Nat) (rep : ColdSide levels total) (p : Nat) :
    (levels.lookup p).getD 0 = total p := by
  rw [rep p]
  split
  · rename_i empty
    exact empty.symm
  · rfl

theorem cold_top (side : Side) (levels : Dict Nat Nat) (total : Nat → Nat)
    (rep : ColdSide levels total) (begin_ : Option Nat)
    (empty : begin_ = none → levels.keys = []) (best : ∀ p, begin_ = some p → p ∈ levels.keys ∧
      ∀ q ∈ levels.keys, ahead side q p = false) :
    Top side total (begin_.getD (emptyBest side)) ∧ (begin_.bind levels.lookup).getD 0 = total
    (begin_.getD (emptyBest side)) := by
  cases shown : begin_ with
  | none =>
      have nothing : ∀ p, total p = 0 := fun p => by
        by_contra nonzero
        have member := (cold_keys levels total rep p).mpr nonzero
        simp [empty shown] at member
      exact ⟨⟨fun p nonzero => absurd (nothing p) nonzero, .inr rfl⟩, (nothing _).symm⟩
  | some p =>
      obtain ⟨member, first⟩ := best p shown
      refine ⟨⟨fun q nonzero => first q ((cold_keys levels total rep q).mpr nonzero),
        .inl ((cold_keys levels total rep p).mp member)⟩, ?_⟩
      exact cold_quantity levels total rep p

theorem cold_snapshot (book : ColdBook) (totals : Totals) (rep : ColdRep book totals) :
    Shows totals book.getSnapshot := by
  obtain ⟨bid, bidQty⟩ := cold_top .buy book.bids (totals .buy) rep.bids book.bids.keys.max?
      List.max?_eq_none_iff.mp fun p best => by
    obtain ⟨member, most⟩ := List.max?_eq_some_iff.mp best
    exact ⟨member, fun q inside => by simpa [ahead] using most q inside⟩
  obtain ⟨ask, askQty⟩ := cold_top .sell book.asks (totals .sell) rep.asks book.asks.keys.min?
      List.min?_eq_none_iff.mp fun p best => by
    obtain ⟨member, least⟩ := List.min?_eq_some_iff.mp best
    exact ⟨member, fun q inside => by simpa [ahead] using least q inside⟩
  exact ⟨bid, ask, bidQty, askQty⟩

def HotSafe (book : HotBook) : Prop := book.bestBid < maxPriceLevels ∧ book.bestAsk < maxPriceLevels

theorem hot_tick_safe (book : HotBook) (tick : NormalizedTick) (safe : HotSafe book) :
    ∃ next, book.processTick tick = .ok next ∧ HotSafe next := by
  by_cases outside : maxPriceLevels ≤ tick.price
  · exact ⟨book, by simp [HotBook.processTick, outside], safe⟩
  have level : tick.price < maxPriceLevels := Nat.lt_of_not_le outside
  have taken := fun levels => take_at_ok levels tick.price tick.quantity level
  have added : ∀ levels, HotBook.addAt levels tick.price tick.quantity =
      .ok (Function.update levels tick.price ((levels tick.price + tick.quantity) % 2 ^ 32)) :=
        fun levels => by
    simp [HotBook.addAt, level]
  cases bid : tick.isBid <;> cases trade : tick.isTrade <;>
    simp only [HotBook.processTick, if_neg outside, bid, trade, Bool.not_true, Bool.not_false,
      Bool.false_eq_true, if_false, if_true, added,
      taken, checked_bind_ok, fetch_ok _ _ _ level, checked_pure, Except.ok.injEq]
  · refine ⟨_, rfl, safe.1, ?_⟩
    dsimp only
    split
    · exact level
    · exact safe.2
  · split
    · obtain ⟨higher, found, _, inside, _⟩ := scan_up_ok
        (Function.update book.asks tick.price (book.asks tick.price - tick.quantity))
          (maxPriceLevels - 1 - book.bestAsk) book.bestAsk
        (by have := safe.2; omega)
      rw [found]
      exact ⟨_, rfl, safe.1, inside⟩
    · exact ⟨_, rfl, safe⟩
  · refine ⟨_, rfl, ?_, safe.2⟩
    dsimp only
    split
    · exact level
    · exact safe.1
  · split
    · obtain ⟨lower, found, least, _⟩ := scan_down_ok
        (Function.update book.bids tick.price (book.bids tick.price - tick.quantity)) book.bestBid safe.1
      rw [found]
      exact ⟨_, rfl, Nat.lt_of_le_of_lt least safe.1, safe.2⟩
    · exact ⟨_, rfl, safe⟩

def BuilderSafe (builder : BookBuilder) : Prop := ∀ inst, HotSafe (builder.hotBooks inst)

def SameElsewhere (before after : BookBuilder) (inst : Nat) : Prop :=
  (∀ other, other ≠ inst → other < hotInstruments → after.hotBooks other = before.hotBooks other) ∧
  ∀ other, other ≠ inst → hotInstruments ≤ other → after.coldBooks (other - hotInstruments) =
    before.coldBooks (other - hotInstruments)

theorem builder_tick_safe (builder : BookBuilder) (tick : NormalizedTick) (safe : BuilderSafe builder) :
    ∃ next, builder.processTick tick = .ok next ∧ BuilderSafe next ∧
    SameElsewhere builder next tick.instrumentId := by
  by_cases hot : tick.instrumentId < hotInstruments
  · obtain ⟨book, result, safe'⟩ := hot_tick_safe _ tick (safe tick.instrumentId)
    refine ⟨{ builder with hotBooks := Function.update builder.hotBooks tick.instrumentId book },
      ?_, fun inst => ?_, ?_, fun _ _ _ => rfl⟩
    · simp [BookBuilder.processTick, hot, result]
    · by_cases same : inst = tick.instrumentId
      · subst same
        simpa using safe'
      · simpa [same] using safe inst
    · exact fun other different _ => Function.update_of_ne different _ _
  by_cases known : tick.instrumentId < numInstruments
  · have index : tick.instrumentId - hotInstruments < numInstruments - hotInstruments := by omega
    refine ⟨{ builder with
      coldBooks := Function.update builder.coldBooks (tick.instrumentId - hotInstruments)
        ((builder.coldBooks (tick.instrumentId - hotInstruments)).processTick tick) }, ?_, safe,
          fun _ _ _ => rfl, ?_⟩
    · simp [BookBuilder.processTick, hot, known, index]
    · intro other different above
      have apart : other - hotInstruments ≠ tick.instrumentId - hotInstruments := by omega
      exact Function.update_of_ne apart _ _
  · exact ⟨builder, by simp [BookBuilder.processTick, hot, known], safe, fun _ _ _ => rfl, fun _ _ _ => rfl⟩

structure InstRep (builder : BookBuilder) (inst : Nat) (totals : Totals) : Prop where
  hot : inst < hotInstruments → HotRep (builder.hotBooks inst) totals
  cold : hotInstruments ≤ inst → ColdRep (builder.coldBooks (inst - hotInstruments)) totals
  inside : OnLadder totals

theorem inst_rep_other (before after : BookBuilder) (inst other : Nat) (totals : Totals)
    (rep : InstRep before inst totals)
    (same : SameElsewhere before after other) (different : inst ≠ other) : InstRep after inst totals := by
  refine ⟨fun hot => ?_, fun cold => ?_, rep.inside⟩
  · rw [same.1 inst different hot]
    exact rep.hot hot
  · rw [same.2 inst different cold]
    exact rep.cold cold

theorem inst_rep_tick (builder next : BookBuilder) (totals : Totals) (tick : NormalizedTick)
    (rep : InstRep builder tick.instrumentId totals) (known : tick.instrumentId < numInstruments)
    (good : GoodTick totals tick)
    (step : builder.processTick tick = .ok next) : InstRep next tick.instrumentId (totals.tick tick) := by
  have ladder := on_ladder_tick totals tick rep.inside good
  by_cases hot : tick.instrumentId < hotInstruments
  · obtain ⟨book, result, rep'⟩ := hot_tick _ _ tick (rep.hot hot) rep.inside good
    have updated : next =
        { builder with hotBooks := Function.update builder.hotBooks tick.instrumentId book } := by
      simpa [BookBuilder.processTick, hot, result] using step.symm
    subst updated
    refine ⟨fun _ => ?_, fun cold => absurd hot (Nat.not_lt.mpr cold), ladder⟩
    simpa using rep'
  · have index : tick.instrumentId - hotInstruments < numInstruments - hotInstruments := by omega
    have rep' := cold_tick _ _ tick (rep.cold (Nat.le_of_not_lt hot)) good
    have updated : next = { builder with
        coldBooks := Function.update builder.coldBooks (tick.instrumentId - hotInstruments)
          ((builder.coldBooks (tick.instrumentId - hotInstruments)).processTick tick) } := by
      simpa [BookBuilder.processTick, hot, known, index] using step.symm
    subst updated
    refine ⟨fun small => absurd small hot, fun _ => ?_, ladder⟩
    simpa using rep'

theorem inst_rep_snapshot (builder : BookBuilder) (inst : Nat) (totals : Totals)
    (rep : InstRep builder inst totals)
    (known : inst < numInstruments) : ∃ snap, builder.getSnapshot inst = .ok snap ∧ Shows totals snap := by
  by_cases hot : inst < hotInstruments
  · obtain ⟨snap, result, shows_⟩ := hot_snapshot _ _ (rep.hot hot)
    exact ⟨snap, by simp [BookBuilder.getSnapshot, hot, result], shows_⟩
  · have index : inst - hotInstruments < numInstruments - hotInstruments := by omega
    exact ⟨_, by simp [BookBuilder.getSnapshot, hot, index],
      cold_snapshot _ _ (rep.cold (Nat.le_of_not_lt hot))⟩

theorem initial_hot_rep : HotRep .init fun _ _ => 0 :=
  ⟨⟨fun _ _ => rfl, by decide, fun _ nonzero => absurd rfl nonzero, .inr rfl⟩,
    ⟨fun _ _ => rfl, by decide, fun _ nonzero => absurd rfl nonzero, .inr rfl⟩⟩

theorem initial_inst_rep (inst : Nat) : InstRep .init inst fun _ _ => 0 := by
  refine ⟨fun _ => initial_hot_rep, fun _ => ⟨fun p => ?_, fun p => ?_⟩, fun side p nonzero =>
    absurd rfl nonzero⟩
  · simp [BookBuilder.init, ColdBook.init]
  · simp [BookBuilder.init, ColdBook.init]

theorem initial_builder_safe : BuilderSafe .init :=
    fun _ => ⟨initial_hot_rep.bids.inside, initial_hot_rep.asks.inside⟩

end HftExchange
