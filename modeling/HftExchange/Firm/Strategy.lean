import HftExchange.Base.Runs

set_option autoImplicit false

namespace HftExchange

open Base

structure NormalizedTick where
  instrumentId : Nat
  price : Nat
  quantity : Nat
  isBid : Bool
  isTrade : Bool
  t1ExchangeSend : Nat
  t2TradingRecv : Nat
deriving DecidableEq, Repr

structure NormalizedOrderAction where
  internalOrderId : Nat
  instrumentId : Nat
  price : Nat
  quantity : Nat
  isBuy : Bool
  isCancel : Bool
  t1ExchangeSend : Nat
  t2TradingRecv : Nat
  t3TradingEnq : Nat
deriving DecidableEq, Repr

-- The single-precision arithmetic of the machine. No result depends on how it
-- rounds, so it stays a parameter.
structure FloatOps (F : Type) where
  ofUInt32 : Nat → F
  half : F
  add : F → F → F
  sub : F → F → F
  div : F → F → F
  neg : F → F
  less : F → F → Bool
  toUInt32 : F → Nat

structure AlphaSignals (F : Type) where
  midPrice : F
  microPrice : F
  imbalance : F
  spread : Nat
  valid : Bool

abbrev Input (F : Type) := NormalizedTick × AlphaSignals F

def nextOrderId (counter : Nat) : Nat := (counter + 1) % 2 ^ 64

def quotedInstruments : Nat := 1000

structure MakerParams (F : Type) where
  spreadMargin : Nat
  imbalanceThreshold : F
  quoteSize : Nat

structure MarketMaker where
  currentBidPrice : Nat → Nat
  currentAskPrice : Nat → Nat
  localOrderCounter : Nat

namespace MarketMaker

def init : MarketMaker := ⟨fun _ => 0, fun _ => 0, 1⟩

section
variable {F : Type} (ops : FloatOps F) (params : MakerParams F)

def fairValue (sig : AlphaSignals F) : F :=
  if ops.less params.imbalanceThreshold sig.imbalance then ops.add sig.microPrice (ops.ofUInt32 1)
  else if ops.less sig.imbalance (ops.neg params.imbalanceThreshold)
    then ops.sub sig.microPrice (ops.ofUInt32 1)
  else sig.microPrice

def desiredBid (sig : AlphaSignals F) : Nat :=
  (ops.toUInt32 (fairValue ops params sig) + (2 ^ 32 - params.spreadMargin % 2 ^ 32)) % 2 ^ 32

def desiredAsk (sig : AlphaSignals F) : Nat :=
    (ops.toUInt32 (fairValue ops params sig) + params.spreadMargin + 1) % 2 ^ 32

end

def action (tick : NormalizedTick) (quoteSize : Nat) (isBuy isCancel : Bool) (id price : Nat) :
    NormalizedOrderAction :=
  { internalOrderId := id
    instrumentId := tick.instrumentId
    price := price
    quantity := quoteSize
    isBuy := isBuy
    isCancel := isCancel
    t1ExchangeSend := tick.t1ExchangeSend
    t2TradingRecv := tick.t2TradingRecv
    t3TradingEnq := 0 }

-- The update of one side's quote: both actions take their id from the counter.
def requote (tick : NormalizedTick) (quoteSize : Nat) (isBuy : Bool) (desired : Nat)
    (prices : Nat → Nat) (counter : Nat) :
    Checked (List NormalizedOrderAction × (Nat → Nat) × Nat) := do
  let current ← fetch quotedInstruments prices tick.instrumentId
  if desired ≠ current then
    let prices ← store quotedInstruments prices tick.instrumentId desired
    if current ≠ 0 then
      let cancel := action tick quoteSize isBuy true counter current
      let new := action tick quoteSize isBuy false (nextOrderId counter) desired
      pure ([cancel, new], prices, nextOrderId (nextOrderId counter))
    else pure ([action tick quoteSize isBuy false counter desired], prices, nextOrderId counter)
  else pure ([], prices, counter)

def onTick {F : Type} (ops : FloatOps F) (params : MakerParams F) (maker : MarketMaker) (input : Input F) :
    Checked (List NormalizedOrderAction × MarketMaker) :=
  let (tick, sig) := input
  if sig.valid then do
    let (bids, bidPrices, counter) ← requote tick params.quoteSize true
      (desiredBid ops params sig) maker.currentBidPrice
      maker.localOrderCounter
    let (asks, askPrices, counter) ← requote tick params.quoteSize false
      (desiredAsk ops params sig) maker.currentAskPrice counter
    pure (bids ++ asks, ⟨bidPrices, askPrices, counter⟩)
  else pure ([], maker)

end MarketMaker

structure TakerParams (F : Type) where
  threshold : F
  size : Nat

structure Taker where
  localOrderCounter : Nat

namespace Taker

def init : Taker := ⟨1⟩

def cross (tick : NormalizedTick) (size : Nat) (isBuy : Bool) (price : Nat) (taker : Taker) :
    List NormalizedOrderAction × Taker :=
  ([MarketMaker.action tick size isBuy false taker.localOrderCounter price],
    ⟨nextOrderId taker.localOrderCounter⟩)

def onTick {F : Type} (ops : FloatOps F) (params : TakerParams F) (taker : Taker) (input : Input F) :
    Checked (List NormalizedOrderAction × Taker) :=
  let (tick, sig) := input
  if sig.valid then
    let halfSpread := ops.div (ops.ofUInt32 sig.spread) (ops.ofUInt32 2)
    if ops.less params.threshold sig.imbalance then
      let bestAsk := ops.toUInt32 (ops.add (ops.add sig.midPrice halfSpread) ops.half)
      pure (cross tick params.size true bestAsk taker)
    else if ops.less sig.imbalance (ops.neg params.threshold) then
      let bestBid := ops.toUInt32 (ops.add (ops.sub sig.midPrice halfSpread) ops.half)
      pure (cross tick params.size false bestBid taker)
    else pure ([], taker)
  else pure ([], taker)

end Taker

section
variable {σ F : Type} (onTick : σ → Input F → Checked (List NormalizedOrderAction × σ))

def strategyStep (s : σ × List NormalizedOrderAction) (input : Input F) : Checked
    (σ × List NormalizedOrderAction) := do
  let (actions, next) ← onTick s.1 input
  pure (next, s.2 ++ actions)

def StrategyRun (start : σ) : List (Input F) → σ × List NormalizedOrderAction → Prop :=
  Run (start, []) (Guarded (fun _ _ => True) (strategyStep onTick))

end

def Numbered (counter : Nat) (actions : List NormalizedOrderAction) : Prop :=
  ∀ (i : Nat) (a : NormalizedOrderAction), actions[i]? = some a → a.internalOrderId = (counter + i) % 2 ^ 64

theorem numbered_append (counter : Nat) (first second : List NormalizedOrderAction)
    (one : Numbered counter first)
    (two : Numbered ((counter + first.length) % 2 ^ 64) second) : Numbered counter (first ++ second) := by
  intro i a found
  by_cases early : i < first.length
  · rw [List.getElem?_append_left early] at found
    exact one i a found
  · rw [List.getElem?_append_right (by omega)] at found
    rw [two _ a found, Nat.mod_add_mod]
    congr 1
    omega

structure Numbering {σ F : Type} (onTick : σ → Input F → Checked (List NormalizedOrderAction × σ))
    (start : σ) where
  counter : σ → Nat
  first : counter start = 1
  small : ∀ st input actions next, counter st < 2 ^ 64 → onTick st input = .ok (actions, next) →
    Numbered (counter st) actions ∧ counter next = (counter st + actions.length) % 2 ^ 64

theorem requote_numbered (tick : NormalizedTick) (quoteSize : Nat) (isBuy : Bool) (desired : Nat)
    (prices after : Nat → Nat)
    (counter next : Nat) (actions : List NormalizedOrderAction) (small : counter < 2 ^ 64)
    (result : MarketMaker.requote tick quoteSize isBuy desired prices counter = .ok (actions, after, next)) :
    Numbered counter actions ∧ next = (counter + actions.length) % 2 ^ 64 := by
  obtain ⟨current, _, result⟩ := (checked_bind_eq_ok _ _ _).mp result
  split at result
  · obtain ⟨_, _, result⟩ := (checked_bind_eq_ok _ _ _).mp result
    split at result
    · cases result
      refine ⟨fun i a found => ?_, by simp [nextOrderId, Nat.add_assoc]⟩
      match i with
      | 0 =>
          cases found
          exact (Nat.mod_eq_of_lt small).symm
      | 1 =>
          cases found
          rfl
    · cases result
      refine ⟨fun i a found => ?_, rfl⟩
      match i with
      | 0 =>
          cases found
          exact (Nat.mod_eq_of_lt small).symm
  · cases result
    exact ⟨fun i a found => by simp at found, (Nat.mod_eq_of_lt small).symm⟩

def makerNumbering {F : Type} (ops : FloatOps F) (params : MakerParams F) : Numbering
    (MarketMaker.onTick ops params) .init where
  counter := MarketMaker.localOrderCounter
  first := rfl
  small := by
    rintro maker ⟨tick, sig⟩ actions next small result
    unfold MarketMaker.onTick at result
    dsimp only at result
    split at result
    · obtain ⟨⟨bids, bidPrices, between⟩, first, result⟩ := (checked_bind_eq_ok _ _ _).mp result
      obtain ⟨⟨asks, askPrices, last⟩, second, result⟩ := (checked_bind_eq_ok _ _ _).mp result
      cases result
      obtain ⟨bidIds, rfl⟩ := requote_numbered _ _ _ _ _ _ _ _ _ small first
      obtain ⟨askIds, rfl⟩ := requote_numbered _ _ _ _ _ _ _ _ _ (Nat.mod_lt _ (by decide)) second
      refine ⟨numbered_append _ _ _ bidIds askIds, ?_⟩
      rw [List.length_append, Nat.mod_add_mod, Nat.add_assoc]
    · cases result
      exact ⟨fun i a found => by simp at found, (Nat.mod_eq_of_lt small).symm⟩

def takerNumbering {F : Type} (ops : FloatOps F) (params : TakerParams F) : Numbering
    (Taker.onTick ops params) .init where
  counter := Taker.localOrderCounter
  first := rfl
  small := by
    rintro taker ⟨tick, sig⟩ actions next small result
    have crossed : ∀ isBuy price, Except.ok (Taker.cross tick params.size isBuy price taker) =
        (.ok (actions, next) : Checked (List NormalizedOrderAction × Taker)) →
        Numbered taker.localOrderCounter actions ∧
          next.localOrderCounter = (taker.localOrderCounter + actions.length) % 2 ^ 64 := by
      intro isBuy price same
      cases same
      refine ⟨fun i a found => ?_, rfl⟩
      match i with
      | 0 =>
          cases found
          exact (Nat.mod_eq_of_lt small).symm
    have nothing : Except.ok ([], taker) =
      (.ok (actions, next) : Checked (List NormalizedOrderAction × Taker)) →
        Numbered taker.localOrderCounter actions ∧
          next.localOrderCounter = (taker.localOrderCounter + actions.length) % 2 ^ 64 := by
      intro same
      cases same
      exact ⟨fun i a found => by simp at found, (Nat.mod_eq_of_lt small).symm⟩
    unfold Taker.onTick at result
    dsimp only at result
    split at result
    · split at result
      · exact crossed _ _ result
      · split at result
        · exact crossed _ _ result
        · exact nothing result
    · exact nothing result

theorem strategy_run_numbered {σ F : Type}
    (onTick : σ → Input F → Checked (List NormalizedOrderAction × σ)) (start : σ)
    (numbering : Numbering onTick start) (inputs : List (Input F)) (s : σ × List NormalizedOrderAction)
    (run : StrategyRun onTick start inputs s) :
    Numbered 1 s.2 ∧ numbering.counter s.1 = (1 + s.2.length) % 2 ^ 64 := by
  refine run_invariant (fun s => Numbered 1 s.2 ∧ numbering.counter s.1 = (1 + s.2.length) % 2 ^ 64)
    ?_ ?_ inputs s run
  · exact ⟨fun i a found => by simp at found, numbering.first⟩
  · rintro ⟨st, history⟩ input ⟨next, longer⟩ ⟨ids, counter⟩ ⟨_, step⟩
    obtain ⟨⟨actions, after⟩, taken, result⟩ := (checked_bind_eq_ok _ _ _).mp step
    cases result
    obtain ⟨more, moved⟩ := numbering.small st input actions next
      (by rw [counter]; exact Nat.mod_lt _ (by decide)) taken
    rw [counter] at more moved
    refine ⟨numbered_append 1 history actions ids more, ?_⟩
    rw [moved, Nat.mod_add_mod, List.length_append, Nat.add_assoc]

end HftExchange
