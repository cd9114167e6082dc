import HftExchange.Firm.Signals

set_option autoImplicit false

namespace HftExchange

open Base

def trueImbalance (snap : BookSnapshot) : ℚ := ((snap.bidQty : ℚ) - snap.askQty) / (snap.bidQty + snap.askQty)

def trueMicroPrice (snap : BookSnapshot) : ℚ :=
  ((snap.bestBid : ℚ) * snap.askQty + snap.bestAsk * snap.bidQty) / (snap.bidQty + snap.askQty)

structure Market (snap : BookSnapshot) : Prop where
  bid : 0 < snap.bestBid
  spread : snap.bestBid < snap.bestAsk
  ask : snap.bestAsk < 100000
  bidWord : snap.bidQty < 2 ^ 32
  askWord : snap.askQty < 2 ^ 32
  some_ : ¬ (snap.bidQty = 0 ∧ snap.askQty = 0)

structure NoWrap (snap : BookSnapshot) : Prop where
  difference : snap.askQty ≤ snap.bidQty
  sum : snap.bidQty + snap.askQty < 2 ^ 32
  products : snap.bestBid * snap.askQty + snap.bestAsk * snap.bidQty < 2 ^ 32

-- Equal quantities whose sum and products wrap in the same proportion.
structure EvenLap (snap : BookSnapshot) : Prop where
  equal : snap.bidQty = snap.askQty
  large : 2 ^ 31 < snap.bidQty
  even : (snap.bestBid + snap.bestAsk) % 2 = 0
  products : (snap.bestBid + snap.bestAsk) * (snap.bidQty - 2 ^ 31) < 2 ^ 32

def ratio (n d : Nat) : Option ℚ := if d = 0 then none else some ((n : ℚ) / d)

section
variable (snap : BookSnapshot) (market : Market snap)
include market

theorem signals_valid :
    (computeSignals exactOps snap).valid = true ∧
    (computeSignals exactOps snap).spread = snap.bestAsk - snap.bestBid ∧
    (computeSignals exactOps snap).midPrice = some (((snap.bestBid : ℚ) + snap.bestAsk) / 2) := by
  obtain ⟨bid, spread, ask, bidWord, askWord, some_⟩ := market
  have traded : ¬ (snap.bestBid = 0 ∨ snap.bestAsk = 100000) := by omega
  have sum : (snap.bestBid + snap.bestAsk) % 2 ^ 32 = snap.bestBid + snap.bestAsk :=
    Nat.mod_eq_of_lt (by omega)
  simp only [computeSignals, if_neg traded, if_neg some_, sum]
  refine ⟨trivial, by omega, ?_⟩
  simp [exactOps]

theorem signals_value :
    (computeSignals exactOps snap).imbalance =
      ratio ((snap.bidQty + 2 ^ 32 - snap.askQty) % 2 ^ 32) ((snap.bidQty + snap.askQty) % 2 ^ 32) ∧
    (computeSignals exactOps snap).microPrice =
      ratio ((snap.bestBid * snap.askQty + snap.bestAsk * snap.bidQty) % 2 ^ 32)
      ((snap.bidQty + snap.askQty) % 2 ^ 32) := by
  obtain ⟨bid, spread, ask, bidWord, askWord, some_⟩ := market
  have traded : ¬ (snap.bestBid = 0 ∨ snap.bestAsk = 100000) := by omega
  simp only [computeSignals, if_neg traded, if_neg some_, exactOps, Option.pure_def,
    Option.bind_eq_bind, Option.bind_some, Nat.cast_eq_zero,
    ratio]
  exact ⟨trivial, trivial⟩

theorem true_imbalance_range : -1 ≤ trueImbalance snap ∧ trueImbalance snap ≤ 1 := by
  have bid : (0 : ℚ) ≤ snap.bidQty := Nat.cast_nonneg _
  have ask : (0 : ℚ) ≤ snap.askQty := Nat.cast_nonneg _
  have total : (0 : ℚ) < snap.bidQty + snap.askQty := by
    have positive : 0 < snap.bidQty + snap.askQty := by
      have := market.some_
      omega
    exact_mod_cast positive
  rw [trueImbalance, le_div_iff₀ total, div_le_iff₀ total]
  constructor <;> linarith

theorem true_micro_range : (snap.bestBid : ℚ) ≤ trueMicroPrice snap ∧ trueMicroPrice snap ≤ snap.bestAsk := by
  have bid : (0 : ℚ) ≤ snap.bidQty := Nat.cast_nonneg _
  have ask : (0 : ℚ) ≤ snap.askQty := Nat.cast_nonneg _
  have spread : (snap.bestBid : ℚ) ≤ snap.bestAsk := by exact_mod_cast Nat.le_of_lt market.spread
  have total : (0 : ℚ) < snap.bidQty + snap.askQty := by
    have positive : 0 < snap.bidQty + snap.askQty := by
      have := market.some_
      omega
    exact_mod_cast positive
  rw [trueMicroPrice, le_div_iff₀ total, div_le_iff₀ total]
  constructor
  · linarith [mul_le_mul_of_nonneg_right spread bid]
  · linarith [mul_le_mul_of_nonneg_right spread ask]

theorem signals_exact (fits : NoWrap snap ∨ EvenLap snap) :
    (computeSignals exactOps snap).imbalance = some (trueImbalance snap) ∧
    (computeSignals exactOps snap).microPrice = some (trueMicroPrice snap) := by
  obtain ⟨imbalance, micro⟩ := signals_value snap market
  rw [imbalance, micro]
  obtain ⟨_, _, _, bidWord, askWord, some_⟩ := market
  rcases fits with ⟨difference, sum, products⟩ | ⟨equal, large, even, products⟩
  · have total : (snap.bidQty + snap.askQty) % 2 ^ 32 = snap.bidQty + snap.askQty := Nat.mod_eq_of_lt sum
    have less : (snap.bidQty + 2 ^ 32 - snap.askQty) % 2 ^ 32 = snap.bidQty - snap.askQty := by omega
    rw [total, less, Nat.mod_eq_of_lt products, ratio, ratio, if_neg (by omega), if_neg (by omega),
      trueImbalance, trueMicroPrice]
    push_cast [Nat.cast_sub difference]
    exact ⟨rfl, rfl⟩
  · obtain ⟨half, twice⟩ : ∃ half, snap.bestBid + snap.bestAsk = 2 * half :=
      ⟨(snap.bestBid + snap.bestAsk) / 2, by omega⟩
    obtain ⟨extra, lap⟩ : ∃ extra, snap.bidQty = 2 ^ 31 + extra := ⟨snap.bidQty - 2 ^ 31, by omega⟩
    have positive : 0 < extra := by omega
    have total : (snap.bidQty + snap.askQty) % 2 ^ 32 = 2 * extra := by omega
    have less : (snap.bidQty + 2 ^ 32 - snap.askQty) % 2 ^ 32 = 0 := by omega
    have whole : snap.bestBid * snap.askQty + snap.bestAsk * snap.bidQty =
        2 * half * extra + half * 2 ^ 32 := by
      rw [← equal, ← Nat.add_mul, twice, lap]
      ring
    have part : (snap.bestBid * snap.askQty + snap.bestAsk * snap.bidQty) % 2 ^ 32 = 2 * half * extra := by
      rw [twice, show snap.bidQty - 2 ^ 31 = extra by omega] at products
      rw [whole, Nat.add_mul_mod_self_right, Nat.mod_eq_of_lt products]
    have quantity : (0 : ℚ) < snap.bidQty := by exact_mod_cast Nat.lt_trans (by decide) large
    have average : ((snap.bestBid : ℚ) + snap.bestAsk) = 2 * half := by exact_mod_cast twice
    have some' : (extra : ℚ) ≠ 0 := Nat.cast_ne_zero.mpr (Nat.ne_of_gt positive)
    rw [total, less, part, ratio, ratio, if_neg (by omega), if_neg (by omega), trueImbalance,
      trueMicroPrice, ← equal, ← add_mul, average]
    constructor
    · simp
    · congr 1
      push_cast
      rw [div_eq_div_iff (mul_ne_zero two_ne_zero some') (ne_of_gt (add_pos quantity quantity))]
      ring

theorem fits_of_exact (imbalance : (computeSignals exactOps snap).imbalance = some (trueImbalance snap))
    (micro : (computeSignals exactOps snap).microPrice = some (trueMicroPrice snap)) :
    NoWrap snap ∨ EvenLap snap := by
  obtain ⟨imbalance', micro'⟩ := signals_value snap market
  rw [imbalance', ratio] at imbalance
  rw [micro', ratio] at micro
  by_cases none_ : (snap.bidQty + snap.askQty) % 2 ^ 32 = 0
  · rw [if_pos none_] at imbalance
    cases imbalance
  rw [if_neg none_, Option.some.injEq] at imbalance micro
  obtain ⟨_, _, _, bidWord, askWord, some_⟩ := market
  have total : (0 : ℚ) < ((snap.bidQty + snap.askQty) % 2 ^ 32 : ℕ) :=
    Nat.cast_pos.mpr (Nat.pos_of_ne_zero none_)
  have quantity : (0 : ℚ) < (snap.bidQty : ℚ) + snap.askQty := by
    have positive : 0 < snap.bidQty + snap.askQty := by omega
    exact_mod_cast positive
  rw [trueImbalance, div_eq_div_iff (ne_of_gt total) (ne_of_gt quantity)] at imbalance
  rw [trueMicroPrice, div_eq_div_iff (ne_of_gt total) (ne_of_gt quantity)] at micro
  -- A heavier ask side makes the imbalance positive.
  have difference : snap.askQty ≤ snap.bidQty := by
    by_contra more
    have negative : (snap.bidQty : ℚ) - snap.askQty < 0 := by
      have less : (snap.bidQty : ℚ) < snap.askQty := by exact_mod_cast Nat.lt_of_not_le more
      linarith
    have left : (0 : ℚ) ≤ ((snap.bidQty + 2 ^ 32 - snap.askQty) % 2 ^ 32 :
      ℕ) * ((snap.bidQty : ℚ) + snap.askQty) := by positivity
    linarith [mul_neg_of_neg_of_pos negative total]
  have less : (snap.bidQty + 2 ^ 32 - snap.askQty) % 2 ^ 32 = snap.bidQty - snap.askQty := by omega
  by_cases sum : snap.bidQty + snap.askQty < 2 ^ 32
  · rw [Nat.mod_eq_of_lt sum] at micro
    have exact_ : (snap.bestBid * snap.askQty + snap.bestAsk * snap.bidQty) % 2 ^ 32 =
        snap.bestBid * snap.askQty + snap.bestAsk * snap.bidQty := by
      refine Nat.eq_of_mul_eq_mul_right (show 0 < snap.bidQty + snap.askQty by omega) ?_
      exact_mod_cast micro
    have bound := Nat.mod_lt (snap.bestBid * snap.askQty + snap.bestAsk * snap.bidQty)
      (show 2 ^ 32 > 0 by decide)
    exact .inl ⟨difference, sum, by omega⟩
  · have wrapped : (snap.bidQty + snap.askQty) % 2 ^ 32 = snap.bidQty + snap.askQty - 2 ^ 32 := by omega
    rw [less, wrapped] at imbalance
    rw [wrapped] at micro none_
    have balanced : (snap.bidQty - snap.askQty) * (snap.bidQty + snap.askQty) =
        (snap.bidQty - snap.askQty) * (snap.bidQty + snap.askQty - 2 ^ 32) := by
      rw [← Nat.cast_sub difference] at imbalance
      exact_mod_cast imbalance
    have equal : snap.bidQty = snap.askQty := by
      rcases Nat.eq_zero_or_pos (snap.bidQty - snap.askQty) with zero | positive
      · omega
      · have same := Nat.eq_of_mul_eq_mul_left positive balanced
        omega
    obtain ⟨extra, lap⟩ : ∃ extra, snap.bidQty = 2 ^ 31 + extra := ⟨snap.bidQty - 2 ^ 31, by omega⟩
    have positive : 0 < extra := by omega
    have whole : snap.bestBid * snap.askQty + snap.bestAsk * snap.bidQty =
        (snap.bestBid + snap.bestAsk) * snap.bidQty := by
      rw [← equal, Nat.add_mul]
    have part : (snap.bestBid + snap.bestAsk) * snap.bidQty % 2 ^ 32 =
        (snap.bestBid + snap.bestAsk) * extra := by
      have product : (snap.bestBid + snap.bestAsk) * snap.bidQty % 2 ^ 32 * (snap.bidQty + snap.askQty) =
          (snap.bestBid + snap.bestAsk) * snap.bidQty * (snap.bidQty + snap.askQty - 2 ^ 32) := by
        rw [← whole]
        exact_mod_cast micro
      rw [← equal, show snap.bidQty + snap.bidQty - 2 ^ 32 = 2 * extra by omega] at product
      refine Nat.eq_of_mul_eq_mul_right (show 0 < snap.bidQty + snap.bidQty by omega) (product.trans ?_)
      ring
    have bound := Nat.mod_lt ((snap.bestBid + snap.bestAsk) * snap.bidQty) (show 2 ^ 32 > 0 by decide)
    refine .inr ⟨equal, by omega, ?_, ?_⟩
    · -- Half a lap for each unit of the price sum has to be whole laps.
      have split : (snap.bestBid + snap.bestAsk) * snap.bidQty =
          (snap.bestBid + snap.bestAsk) * 2 ^ 31 + (snap.bestBid + snap.bestAsk) * extra :=
            by rw [lap, Nat.mul_add]
      generalize (snap.bestBid + snap.bestAsk) * extra = rest at part split
      generalize (snap.bestBid + snap.bestAsk) * snap.bidQty = all at part split
      omega
    · rw [show snap.bidQty - 2 ^ 31 = extra by omega, ← part]
      exact bound

end

structure SignalsSound (snap : BookSnapshot) (tick : NormalizedTick) (taker : Taker)
    (size : Nat) (threshold : ℚ)
    (margin quoteSize : Nat) (makerThreshold : ℚ) : Prop where
  imbalance : (computeSignals exactOps snap).imbalance = some (trueImbalance snap) ∧
    -1 ≤ trueImbalance snap ∧ trueImbalance snap ≤ 1
  microPrice : (computeSignals exactOps snap).microPrice = some (trueMicroPrice snap) ∧
    (snap.bestBid : ℚ) ≤ trueMicroPrice snap ∧ trueMicroPrice snap ≤ snap.bestAsk
  sells : trueImbalance snap < -threshold →
    taker.onTick exactOps ⟨some threshold, size⟩ (tick, computeSignals exactOps snap) = .ok
      (Taker.cross tick size false snap.bestBid taker)
  buys : threshold < trueImbalance snap →
    taker.onTick exactOps ⟨some threshold, size⟩ (tick, computeSignals exactOps snap) = .ok
      (Taker.cross tick size true snap.bestAsk taker)
  quotes : ∀ micro, (computeSignals exactOps snap).microPrice = some micro → (margin : ℚ) ≤ micro - 1 →
    ∃ fair, MarketMaker.fairValue exactOps ⟨margin, some makerThreshold, quoteSize⟩
      (computeSignals exactOps snap) = some fair ∧
      (MarketMaker.desiredBid exactOps ⟨margin, some makerThreshold, quoteSize⟩
        (computeSignals exactOps snap) : ℤ) = ⌊fair⌋ - margin ∧
      (MarketMaker.desiredAsk exactOps ⟨margin, some makerThreshold, quoteSize⟩
        (computeSignals exactOps snap) : ℤ) = ⌊fair⌋ + margin + 1 ∧
      MarketMaker.desiredBid exactOps ⟨margin, some makerThreshold, quoteSize⟩
        (computeSignals exactOps snap) <
        MarketMaker.desiredAsk exactOps ⟨margin, some makerThreshold, quoteSize⟩
          (computeSignals exactOps snap)

-- A price recovered from the middle and the spread is the price, and the half
-- that is added does not reach the next.
theorem touch_price (price : Nat) (word : price < 2 ^ 32) (q : ℚ) (same : q = price) :
    exactOps.toUInt32 (some (q + 1 / 2)) = price := by
  have floor : ⌊q + 1 / 2⌋ = price := by
    rw [Int.floor_eq_iff, same]
    push_cast
    constructor <;> linarith
  simp only [exactOps, floor, Int.toNat_natCast]
  exact Nat.mod_eq_of_lt word

section
variable (snap : BookSnapshot) (market : Market snap)
include market

theorem taker_prices :
    exactOps.toUInt32 (exactOps.add (exactOps.add (computeSignals exactOps snap).midPrice
      (exactOps.div (exactOps.ofUInt32 (computeSignals exactOps snap).spread)
        (exactOps.ofUInt32 2))) exactOps.half) = snap.bestAsk ∧
    exactOps.toUInt32 (exactOps.add (exactOps.sub (computeSignals exactOps snap).midPrice
      (exactOps.div (exactOps.ofUInt32 (computeSignals exactOps snap).spread)
        (exactOps.ofUInt32 2))) exactOps.half) = snap.bestBid := by
  obtain ⟨_, spread, mid⟩ := signals_valid snap market
  have less := Nat.le_of_lt market.spread
  have high := market.ask
  have half : exactOps.div (exactOps.ofUInt32 (computeSignals exactOps snap).spread) (exactOps.ofUInt32 2) =
      some (((snap.bestAsk : ℚ) - snap.bestBid) / 2) := by
    rw [spread]
    simp [exactOps, Nat.cast_sub less]
  rw [mid, half]
  constructor
  · exact touch_price snap.bestAsk (by omega) _ (by ring)
  · exact touch_price snap.bestBid (by omega) _ (by ring)

theorem taker_decides (tick : NormalizedTick) (taker : Taker) (size : Nat) (threshold imbalance : ℚ)
    (value : (computeSignals exactOps snap).imbalance = some imbalance) :
    taker.onTick exactOps ⟨some threshold, size⟩ (tick, computeSignals exactOps snap) =
      if threshold < imbalance then .ok (Taker.cross tick size true snap.bestAsk taker)
      else if imbalance < -threshold then .ok (Taker.cross tick size false snap.bestBid taker)
      else .ok ([], taker) := by
  obtain ⟨valid, _, _⟩ := signals_valid snap market
  obtain ⟨ask, bid⟩ := taker_prices snap market
  have above : exactOps.less (some threshold) (some imbalance) = decide (threshold < imbalance) := rfl
  have below : exactOps.less (some imbalance) (exactOps.neg (some threshold)) = decide
    (imbalance < -threshold) := rfl
  simp only [Taker.onTick, valid, if_true, ask, bid, value, above, below, decide_eq_true_eq, checked_pure]

theorem maker_quotes (margin quoteSize : Nat) (makerThreshold imbalance micro : ℚ)
    (value : (computeSignals exactOps snap).imbalance = some imbalance)
    (price : (computeSignals exactOps snap).microPrice = some micro)
    (inside : micro ≤ snap.bestAsk) (wide : (margin : ℚ) ≤ micro - 1) :
    ∃ fair, MarketMaker.fairValue exactOps ⟨margin, some makerThreshold, quoteSize⟩
    (computeSignals exactOps snap) = some fair ∧
      (MarketMaker.desiredBid exactOps ⟨margin, some makerThreshold, quoteSize⟩
        (computeSignals exactOps snap) : ℤ) = ⌊fair⌋ - margin ∧
      (MarketMaker.desiredAsk exactOps ⟨margin, some makerThreshold, quoteSize⟩
        (computeSignals exactOps snap) : ℤ) = ⌊fair⌋ + margin + 1 ∧
      MarketMaker.desiredBid exactOps ⟨margin, some makerThreshold, quoteSize⟩
      (computeSignals exactOps snap) <
        MarketMaker.desiredAsk exactOps ⟨margin, some makerThreshold, quoteSize⟩
        (computeSignals exactOps snap) := by
  have skewed : ∃ fair, MarketMaker.fairValue exactOps ⟨margin, some makerThreshold, quoteSize⟩
    (computeSignals exactOps snap) = some fair ∧
      micro - 1 ≤ fair ∧ fair ≤ micro + 1 := by
    unfold MarketMaker.fairValue
    rw [price, value]
    split
    · exact ⟨micro + 1, by simp [exactOps], by linarith, le_refl _⟩
    · split
      · exact ⟨micro - 1, by simp [exactOps], le_refl _, by linarith⟩
      · exact ⟨micro, rfl, by linarith, by linarith⟩
  obtain ⟨fair, result, low, high⟩ := skewed
  have least : (margin : ℤ) ≤ ⌊fair⌋ := Int.le_floor.mpr (by push_cast; linarith)
  have most : ⌊fair⌋ ≤ 100000 := by
    have bound : (snap.bestAsk : ℚ) ≤ 99999 := by exact_mod_cast Nat.le_of_lt_succ market.ask
    exact_mod_cast le_trans (Int.floor_le fair) (by linarith : fair ≤ 100000)
  have whole : exactOps.toUInt32 (some fair) = ⌊fair⌋.toNat := by
    simp only [exactOps]
    omega
  refine ⟨fair, result, ?_, ?_, ?_⟩
  · simp only [MarketMaker.desiredBid, result, whole]
    omega
  · simp only [MarketMaker.desiredAsk, result, whole]
    omega
  · simp only [MarketMaker.desiredBid, MarketMaker.desiredAsk, result, whole]
    omega

-- Nothing wraps, or all wraps evenly; and the threshold is not below the
-- imbalance on both sides of zero at once.
theorem signals_sound_iff (tick : NormalizedTick) (taker : Taker) (size : Nat) (threshold : ℚ)
    (margin quoteSize : Nat)
    (makerThreshold : ℚ) :
    SignalsSound snap tick taker size threshold margin quoteSize makerThreshold ↔
      (NoWrap snap ∨ EvenLap snap) ∧
      ¬ (threshold < trueImbalance snap ∧ trueImbalance snap < -threshold) := by
  constructor
  · intro sound
    refine ⟨fits_of_exact snap market sound.imbalance.1 sound.microPrice.1, fun both => ?_⟩
    have twice := (sound.buys both.1).symm.trans (sound.sells both.2)
    simp [Taker.cross, MarketMaker.action] at twice
  · rintro ⟨fits, once⟩
    obtain ⟨imbalance, micro⟩ := signals_exact snap market fits
    have range := true_micro_range snap market
    have decides := taker_decides snap market tick taker size threshold _ imbalance
    refine ⟨⟨imbalance, true_imbalance_range snap market⟩, ⟨micro, range⟩, fun low => ?_,
      fun high => ?_, fun price given wide => ?_⟩
    · rw [decides, if_neg fun high => once ⟨high, low⟩, if_pos low]
    · rw [decides, if_pos high]
    · cases micro.symm.trans given
      exact maker_quotes snap market margin quoteSize makerThreshold _ _ imbalance micro range.2 wide

end

theorem bid_pressure_sound :
    SignalsSound ⟨100, 102, 900, 100⟩ ⟨5, 100, 10, true, false, 0, 0⟩ .init
    100 (3 / 5) 2 100 (3 / 5) := by
  refine (signals_sound_iff ⟨100, 102, 900, 100⟩ ⟨by decide, by decide, by decide, by decide,
    by decide, by decide⟩ _ _ _ _ _ _ _).mpr
    ⟨.inl ⟨by decide, by decide, by decide⟩, ?_⟩
  norm_num [trueImbalance]

-- With the quantities exchanged the difference wraps, and the taker buys where
-- it should sell.
theorem ask_pressure_unsound :
    Market ⟨100, 102, 100, 900⟩ ∧ trueImbalance ⟨100, 102, 100, 900⟩ < -(3 / 5) ∧
    Taker.init.onTick exactOps ⟨some (3 / 5), 100⟩
    (⟨5, 100, 10, false, false, 0, 0⟩, computeSignals exactOps ⟨100, 102, 100, 900⟩) =
      .ok (Taker.cross ⟨5, 100, 10, false, false, 0, 0⟩ 100 true 102 .init) ∧
    ¬ SignalsSound ⟨100, 102, 100, 900⟩ ⟨5, 100, 10, false, false, 0, 0⟩ .init 100 (3 / 5) 2 100 (3 / 5) := by
  have market : Market ⟨100, 102, 100, 900⟩ :=
    ⟨by decide, by decide, by decide, by decide, by decide, by decide⟩
  refine ⟨market, by norm_num [trueImbalance], ?_, fun sound => ?_⟩
  · have value := (signals_value _ market).1
    rw [ratio, if_neg (by decide)] at value
    rw [taker_decides _ market _ _ _ _ _ value, if_pos (by norm_num)]
  · rcases fits_of_exact _ market sound.imbalance.1 sound.microPrice.1 with fits | fits
    · exact absurd fits.difference (by decide)
    · exact absurd fits.equal (by decide)

end HftExchange
