import HftExchange.Firm.BookSnapshots
import HftExchange.Firm.TickPipeline

set_option autoImplicit false

namespace HftExchange

open Base

theorem builder_snapshot_safe (builder : BookBuilder) (inst : Nat) (safe : BuilderSafe builder)
    (known : inst < numInstruments) :
    ∃ snap, builder.getSnapshot inst = .ok snap := by
  by_cases hot : inst < hotInstruments
  · obtain ⟨bid, ask⟩ := safe inst
    exact ⟨_, by simp [BookBuilder.getSnapshot, hot, HotBook.getSnapshot, bid, ask]; rfl⟩
  · have index : inst - hotInstruments < numInstruments - hotInstruments := by omega
    exact ⟨_, by simp [BookBuilder.getSnapshot, hot, index]; rfl⟩

-- The books ignore a tick of an unknown instrument, but the snapshot does not.
theorem builder_snapshot_fault (builder : BookBuilder) (inst : Nat) (unknown : numInstruments ≤ inst) :
    builder.getSnapshot inst = .error .outOfBounds := by
  have above : ¬ inst < hotInstruments := by
    have more : hotInstruments ≤ numInstruments := by decide
    omega
  have index : ¬ inst - hotInstruments < numInstruments - hotInstruments := by
    have more : hotInstruments ≤ numInstruments := by decide
    omega
  rw [BookBuilder.getSnapshot, if_neg above, fetch, if_neg index]
  rfl

theorem requote_in_bounds (tick : NormalizedTick) (quoteSize : Nat) (isBuy : Bool) (desired : Nat)
    (prices : Nat → Nat) (counter : Nat)
    (known : tick.instrumentId < quotedInstruments) :
    ∃ actions after next, MarketMaker.requote tick quoteSize isBuy desired prices counter = .ok
    (actions, after, next) ∧
      ∀ a ∈ actions, a.instrumentId = tick.instrumentId := by
  simp only [MarketMaker.requote, fetch_ok _ _ _ known, store_ok _ _ _ _ known, checked_bind_ok, checked_pure]
  split
  · split
    · exact ⟨_, _, _, rfl, by simp [MarketMaker.action]⟩
    · exact ⟨_, _, _, rfl, by simp [MarketMaker.action]⟩
  · exact ⟨_, _, _, rfl, by simp⟩

section
variable {F : Type} (ops : FloatOps F) (around : Nat → Surroundings)

theorem maker_in_bounds (params : MakerParams F) (maker : MarketMaker) (input : Input F)
    (known : input.1.instrumentId < quotedInstruments) :
    ∃ actions next, maker.onTick ops params input = .ok (actions, next) ∧ ∀ a ∈ actions,
      a.instrumentId = input.1.instrumentId := by
  obtain ⟨tick, sig⟩ := input
  unfold MarketMaker.onTick
  dsimp only
  split
  · obtain ⟨bids, bidPrices, counter, first, own⟩ := requote_in_bounds tick params.quoteSize true
      (MarketMaker.desiredBid ops params sig)
      maker.currentBidPrice maker.localOrderCounter known
    obtain ⟨asks, askPrices, last, second, own'⟩ := requote_in_bounds tick params.quoteSize false
      (MarketMaker.desiredAsk ops params sig)
      maker.currentAskPrice counter known
    simp only [first, second, checked_bind_ok, checked_pure]
    refine ⟨_, _, rfl, fun a member => ?_⟩
    rcases List.mem_append.mp member with bid | ask
    · exact own a bid
    · exact own' a ask
  · exact ⟨_, _, rfl, by simp⟩

theorem taker_in_bounds (params : TakerParams F) (taker : Taker) (input : Input F) :
    ∃ actions next, taker.onTick ops params input = .ok (actions, next) ∧ ∀ a ∈ actions,
      a.instrumentId = input.1.instrumentId := by
  obtain ⟨tick, sig⟩ := input
  unfold Taker.onTick
  dsimp only
  split
  · split
    · exact ⟨_, _, rfl, by simp [MarketMaker.action]⟩
    · split
      · exact ⟨_, _, rfl, by simp [MarketMaker.action]⟩
      · exact ⟨_, _, rfl, by simp⟩
  · exact ⟨_, _, rfl, by simp⟩

theorem strategy_in_bounds (strategy : FirmStrategy F) (input : Input F)
    (known : input.1.instrumentId < quotedInstruments) :
    ∃ actions next, strategy.onTick ops input = .ok (actions, next) ∧ ∀ a ∈ actions,
      a.instrumentId = input.1.instrumentId := by
  cases strategy with
  | maker params state =>
      obtain ⟨actions, next, result, own⟩ := maker_in_bounds ops params state input known
      exact ⟨actions, .maker params next,
        by simp only [FirmStrategy.onTick, result, checked_bind_ok, checked_pure], own⟩
  | taker params state =>
      obtain ⟨actions, next, result, own⟩ := taker_in_bounds ops params state input
      exact ⟨actions, .taker params next,
        by simp only [FirmStrategy.onTick, result, checked_bind_ok, checked_pure], own⟩

theorem check_order_in_bounds (risk : RiskManager) (look : Surroundings) (a : NormalizedOrderAction)
    (known : a.instrumentId < positionInstruments) :
    ∃ safe next, risk.checkOrder look a = .ok (safe, next) := by
  simp only [RiskManager.checkOrder, fetch_ok _ _ _ known, checked_bind_ok, checked_pure]
  split_ifs <;> exact ⟨_, _, rfl⟩

theorem execute_in_bounds (p : TickPipeline F) (a : NormalizedOrderAction) :
    ∃ next, p.executeAction a = .ok next ∧ next.builder = p.builder := by
  unfold TickPipeline.executeAction
  split
  · rename_i tracked
    rw [store_ok _ _ _ _ tracked.2, checked_bind_ok]
    exact ⟨_, rfl, rfl⟩
  · exact ⟨_, rfl, rfl⟩

theorem submit_in_bounds (p : TickPipeline F) (a : NormalizedOrderAction)
    (known : a.instrumentId < positionInstruments) :
    ∃ next, p.submit around a = .ok next ∧ next.builder = p.builder := by
  obtain ⟨safe, risk, result⟩ := check_order_in_bounds p.risk (around p.looks) a known
  simp only [TickPipeline.submit, result, checked_bind_ok]
  split
  · exact execute_in_bounds _ a
  · exact ⟨_, rfl, rfl⟩

theorem submit_all_in_bounds (p : TickPipeline F) (actions : List NormalizedOrderAction)
    (known : ∀ a ∈ actions, a.instrumentId < positionInstruments) :
    ∃ next, actions.foldlM (TickPipeline.submit around) p = .ok next ∧ next.builder = p.builder := by
  induction actions generalizing p with
  | nil => exact ⟨p, rfl, rfl⟩
  | cons a rest ih =>
      obtain ⟨middle, result, same⟩ := submit_in_bounds around p a (known a List.mem_cons_self)
      obtain ⟨next, results, same'⟩ := ih middle fun b member => known b (List.mem_cons_of_mem _ member)
      exact ⟨next, by rw [List.foldlM_cons, result, checked_bind_ok, results], same'.trans same⟩

theorem tick_in_bounds (p : TickPipeline F) (tick : NormalizedTick) (safe : BuilderSafe p.builder)
    (known : tick.instrumentId < numInstruments) :
    ∃ next, p.onTick ops around tick = .ok next ∧ BuilderSafe next.builder := by
  obtain ⟨builder, built, safe', _⟩ := builder_tick_safe p.builder tick safe
  obtain ⟨snap, shown⟩ := builder_snapshot_safe builder tick.instrumentId safe' known
  obtain ⟨actions, strategy, decided, own⟩ := strategy_in_bounds ops p.strategy
    (tick, computeSignals ops snap) known
  obtain ⟨next, submitted, same⟩ := submit_all_in_bounds around
      { p with builder := builder, strategy := strategy } actions fun a member => by
    rw [own a member]
    exact known
  refine ⟨next, ?_, same ▸ safe'⟩
  simp only [TickPipeline.onTick, built, shown, decided, submitted, checked_bind_ok]

theorem tick_fault (p : TickPipeline F) (tick : NormalizedTick) (safe : BuilderSafe p.builder)
    (unknown : numInstruments ≤ tick.instrumentId) :
    p.onTick ops around tick = .error .outOfBounds := by
  obtain ⟨builder, built, _⟩ := builder_tick_safe p.builder tick safe
  simp only [TickPipeline.onTick, built, checked_bind_ok, builder_snapshot_fault builder _ unknown,
    checked_bind_error]

def stockLocateAt (buf : Bytes) (i : Nat) : Nat :=
    (ItchMessage.decode ((buf.drop (i * itchMessageSize)).take itchMessageSize)).stockLocate

theorem message_inside (buf : Bytes) (i : Nat) (member : i < buf.length / itchMessageSize) :
    i * itchMessageSize + itchMessageSize ≤ buf.length := by
  have whole := Nat.mul_le_of_le_div itchMessageSize (i + 1) buf.length member
  rwa [Nat.succ_mul] at whole

theorem message_in_bounds_iff (p : TickPipeline F) (buf : Bytes) (i : Nat) (safe : BuilderSafe p.builder)
    (member : i < buf.length / itchMessageSize) :
    (stockLocateAt buf i < numInstruments → ∃ next, p.onMessage ops around buf i = .ok next ∧
      BuilderSafe next.builder) ∧
      (¬ stockLocateAt buf i < numInstruments → ∃ fault, p.onMessage ops around buf i = .error fault) := by
  have read : readBytes buf (i * itchMessageSize) itchMessageSize = .ok
      ((buf.drop (i * itchMessageSize)).take itchMessageSize) :=
    if_pos (message_inside buf i member)
  simp only [TickPipeline.onMessage, read, checked_bind_ok]
  constructor
  · exact fun known => tick_in_bounds ops around { p with looks := p.looks + 1 } _ safe known
  · exact fun unknown =>
      ⟨_, tick_fault ops around { p with looks := p.looks + 1 } _ safe (Nat.le_of_not_lt unknown)⟩

def AllKnown (buf : Bytes) : Prop :=
  ∀ i ∈ List.range (buf.length / itchMessageSize), stockLocateAt buf i < numInstruments

instance (buf : Bytes) : Decidable (AllKnown buf) := inferInstanceAs (Decidable (∀ i ∈ List.range _, _))

theorem datagram_in_bounds_iff (p : TickPipeline F) (buf : Bytes) (safe : BuilderSafe p.builder) :
    (AllKnown buf → ∃ next, p.onDatagram ops around buf = .ok next ∧ BuilderSafe next.builder) ∧
      (¬ AllKnown buf → ∃ fault, p.onDatagram ops around buf = .error fault) :=
  checked_foldlM_iff (TickPipeline.onMessage ops around buf) (fun p => BuilderSafe p.builder)
    (fun i => stockLocateAt buf i < numInstruments)
    (List.range (buf.length / itchMessageSize))
    (fun p i member safe => (message_in_bounds_iff ops around p buf i safe (List.mem_range.mp member)).1)
    (fun p i member safe =>
      (message_in_bounds_iff ops around p buf i safe (List.mem_range.mp member)).2) p safe

theorem session_in_bounds_iff (strategy : FirmStrategy F) (datagrams : List Bytes) :
    (∃ p, datagrams.foldlM (TickPipeline.onDatagram ops around) (.init strategy) = .ok p) ↔
    ∀ buf ∈ datagrams, AllKnown buf := by
  obtain ⟨all, some_⟩ := checked_foldlM_iff (TickPipeline.onDatagram ops around)
    (fun p => BuilderSafe p.builder) AllKnown datagrams
    (fun p buf _ safe => (datagram_in_bounds_iff ops around p buf safe).1)
      (fun p buf _ safe => (datagram_in_bounds_iff ops around p buf safe).2)
    (.init strategy) initial_builder_safe
  constructor
  · rintro ⟨p, result⟩
    by_contra unknown
    obtain ⟨fault, error⟩ := some_ unknown
    cases result.symm.trans error
  · intro known
    obtain ⟨p, result, _⟩ := all known
    exact ⟨p, result⟩

end

def datagramFor (low high : Byte) : Bytes := ascii 'A' :: low :: high :: List.replicate 31 0

theorem unknown_instrument_fault :
    AllKnown (datagramFor 231 3) ∧ ¬ AllKnown (datagramFor 232 3) ∧
    ∀ (F : Type) (ops : FloatOps F) (around : Nat → Surroundings) (strategy : FirmStrategy F),
      (TickPipeline.init strategy).onDatagram ops around (datagramFor 232 3) = .error .outOfBounds := by
  refine ⟨by decide, by decide, fun F ops around strategy => ?_⟩
  have read : readBytes (datagramFor 232 3) (0 * itchMessageSize) itchMessageSize = .ok
    (datagramFor 232 3) := rfl
  have message : (TickPipeline.init strategy).onMessage ops around (datagramFor 232 3) 0 =
      .error .outOfBounds := by
    have unknown : numInstruments ≤ (ItchMessage.decode (datagramFor 232 3)).stockLocate := by decide
    simp only [TickPipeline.onMessage, read, checked_bind_ok]
    exact tick_fault ops around { TickPipeline.init strategy with looks := 1 } _ initial_builder_safe unknown
  have one : List.range ((datagramFor 232 3).length / itchMessageSize) = [0] := rfl
  rw [TickPipeline.onDatagram, one, List.foldlM_cons, message, checked_bind_error]

end HftExchange
