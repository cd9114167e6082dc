import HftExchange.Firm.Strategy

set_option autoImplicit false

namespace HftExchange

open Base

-- The number that the connector writes into the token field of a message.
def orderTokenOf (tokenBase : Nat) (a : NormalizedOrderAction) : Nat :=
    (tokenBase + a.internalOrderId) % 2 ^ 64

def quotes (inst : Nat) (isBuy : Bool) (a : NormalizedOrderAction) : Bool :=
  !a.isCancel && decide (a.instrumentId = inst) && decide (a.isBuy = isBuy)

def latestQuote (inst : Nat) (isBuy : Bool) (history : List NormalizedOrderAction) :
    Option NormalizedOrderAction :=
  (history.filter (quotes inst isBuy)).getLast?

def outstanding (history : List NormalizedOrderAction) : List NormalizedOrderAction :=
  history.foldl (fun sent a =>
    if a.isCancel then sent.filter (fun o => o.internalOrderId ≠ a.internalOrderId)
    else sent ++ [a]) []

-- Every cancel names, by its id and by its token, the last quote of its side.
def CancelsOwnQuote (tokenBase : Nat) (history : List NormalizedOrderAction) : Prop :=
  ∀ before cancel after, history = before ++ cancel :: after → cancel.isCancel = true →
    ∃ quote, latestQuote cancel.instrumentId cancel.isBuy before = some quote ∧
      cancel.internalOrderId = quote.internalOrderId ∧
        orderTokenOf tokenBase cancel = orderTokenOf tokenBase quote

def OneQuoteEach (history : List NormalizedOrderAction) : Prop :=
  ∀ before after, history = before ++ after → ∀ inst isBuy,
    ((outstanding before).filter (quotes inst isBuy)).length ≤ 1

def MarketMaker.price (maker : MarketMaker) (isBuy : Bool) : Nat → Nat :=
  if isBuy then maker.currentBidPrice else maker.currentAskPrice

section
variable {F : Type} (ops : FloatOps F) (params : MakerParams F)

def MarketMaker.desired (isBuy : Bool) (sig : AlphaSignals F) : Nat :=
  if isBuy then desiredBid ops params sig else desiredAsk ops params sig

def makerStep : MarketMaker × List NormalizedOrderAction → Input F →
    Checked (MarketMaker × List NormalizedOrderAction) :=
  strategyStep (MarketMaker.onTick ops params)

-- A valid signal is for an instrument that has its entry in the two arrays of
-- prices, and asks for no quote to be replaced.
def Unmoved (s : MarketMaker × List NormalizedOrderAction) (input : Input F) : Prop :=
  input.2.valid = true → input.1.instrumentId < quotedInstruments ∧
    ∀ isBuy, s.1.price isBuy input.1.instrumentId ≠ 0 →
    MarketMaker.desired ops params isBuy input.2 = s.1.price isBuy input.1.instrumentId

def MakerRun : List (Input F) → MarketMaker × List NormalizedOrderAction → Prop :=
    StrategyRun (MarketMaker.onTick ops params) .init

def SteadyRun : List (Input F) → MarketMaker × List NormalizedOrderAction → Prop :=
  Run (.init, []) (Guarded (Unmoved ops params) (makerStep ops params))

def SteadyInputs (inputs : List (Input F)) : Prop :=
  ∀ before input after s, inputs = before ++ input :: after → MakerRun ops params before s →
    Unmoved ops params s input

def QuotesInOrder (tokenBase : Nat) (inputs : List (Input F)) : Prop :=
  ∃ s, MakerRun ops params inputs s ∧ CancelsOwnQuote tokenBase s.2 ∧ OneQuoteEach s.2

end

inductive Requoted (tick : NormalizedTick) (isBuy : Bool) (desired : Nat) (prices : Nat → Nat) :
    List NormalizedOrderAction → (Nat → Nat) → Prop where
  | kept (same : desired = prices tick.instrumentId) : Requoted tick isBuy desired prices [] prices
  | first (new : NormalizedOrderAction) (none : prices tick.instrumentId = 0) (wanted : desired ≠ 0)
      (quote : new.isCancel = false ∧ new.instrumentId = tick.instrumentId ∧ new.isBuy = isBuy) :
      Requoted tick isBuy desired prices [new] (Function.update prices tick.instrumentId desired)
  | replaced (cancel new : NormalizedOrderAction) (some : prices tick.instrumentId ≠ 0)
      (moved : desired ≠ prices tick.instrumentId)
      (cancels : cancel.isCancel = true) :
      Requoted tick isBuy desired prices [cancel, new] (Function.update prices tick.instrumentId desired)

theorem requote_cases (tick : NormalizedTick) (quoteSize : Nat) (isBuy : Bool) (desired : Nat)
    (prices after : Nat → Nat)
    (counter next : Nat) (actions : List NormalizedOrderAction)
    (result : MarketMaker.requote tick quoteSize isBuy desired prices counter = .ok (actions, after, next)) :
    Requoted tick isBuy desired prices actions after := by
  unfold MarketMaker.requote at result
  by_cases bound : tick.instrumentId < quotedInstruments
  · simp only [fetch_ok _ _ _ bound, store_ok _ _ _ _ bound, checked_bind_ok] at result
    split at result
    · rename_i moved
      split at result
      · rename_i some
        cases result
        exact .replaced _ _ some moved rfl
      · rename_i none
        have zero : prices tick.instrumentId = 0 := not_not.mp none
        cases result
        exact .first _ zero (by rwa [zero] at moved) ⟨rfl, rfl, rfl⟩
    · rename_i same
      cases result
      exact .kept (not_not.mp same)
  · simp [fetch, bound] at result

theorem requote_total (tick : NormalizedTick) (quoteSize : Nat) (isBuy : Bool) (desired : Nat)
    (prices : Nat → Nat) (counter : Nat)
    (bound : tick.instrumentId < quotedInstruments) :
    ∃ result, MarketMaker.requote tick quoteSize isBuy desired prices counter = .ok result := by
  unfold MarketMaker.requote
  simp only [fetch_ok _ _ _ bound, store_ok _ _ _ _ bound, checked_bind_ok]
  split
  · split
    · exact ⟨_, rfl⟩
    · exact ⟨_, rfl⟩
  · exact ⟨_, rfl⟩

theorem requote_bound (tick : NormalizedTick) (quoteSize : Nat) (isBuy : Bool) (desired : Nat)
    (prices : Nat → Nat) (counter : Nat)
    (result : List NormalizedOrderAction × (Nat → Nat) × Nat)
    (done : MarketMaker.requote tick quoteSize isBuy desired prices counter = .ok result) :
    tick.instrumentId < quotedInstruments := by
  by_contra outside
  simp [MarketMaker.requote, fetch, outside] at done

theorem requote_few (tick : NormalizedTick) (quoteSize : Nat) (isBuy : Bool) (desired : Nat)
    (prices after : Nat → Nat) (counter next : Nat)
    (actions : List NormalizedOrderAction)
    (result : MarketMaker.requote tick quoteSize isBuy desired prices counter =
      .ok (actions, after, next)) : actions.length ≤ 2 := by
  cases requote_cases _ _ _ _ _ _ _ _ _ result with
  | kept => exact Nat.zero_le 2
  | first => exact Nat.le_succ 1
  | replaced => exact Nat.le_refl 2

section
variable {F : Type} (ops : FloatOps F) (params : MakerParams F)

theorem on_tick_total (maker : MarketMaker) (input : Input F) (bound : input.2.valid = true →
    input.1.instrumentId < quotedInstruments) :
    ∃ result, MarketMaker.onTick ops params maker input = .ok result := by
  unfold MarketMaker.onTick
  dsimp only
  split
  · rename_i valid
    obtain ⟨⟨bids, bidPrices, counter⟩, first⟩ := requote_total input.1 params.quoteSize true
      (MarketMaker.desiredBid ops params input.2) maker.currentBidPrice maker.localOrderCounter (bound valid)
    obtain ⟨⟨asks, askPrices, last⟩, second⟩ := requote_total input.1 params.quoteSize false
      (MarketMaker.desiredAsk ops params input.2) maker.currentAskPrice counter (bound valid)
    exact ⟨_, by rw [first, checked_bind_ok, second, checked_bind_ok]; rfl⟩
  · exact ⟨_, rfl⟩

theorem on_tick_bounds (maker next : MarketMaker) (input : Input F) (actions : List NormalizedOrderAction)
    (result : MarketMaker.onTick ops params maker input = .ok (actions, next)) :
    (input.2.valid = true → input.1.instrumentId < quotedInstruments) ∧ actions.length ≤ 4 := by
  unfold MarketMaker.onTick at result
  dsimp only at result
  split at result
  · obtain ⟨⟨bids, bidPrices, between⟩, first, result⟩ := (checked_bind_eq_ok _ _ _).mp result
    obtain ⟨⟨asks, askPrices, last⟩, second, result⟩ := (checked_bind_eq_ok _ _ _).mp result
    have bid := requote_few _ _ _ _ _ _ _ _ _ first
    have ask := requote_few _ _ _ _ _ _ _ _ _ second
    cases result
    refine ⟨fun _ => requote_bound _ _ _ _ _ _ _ first, ?_⟩
    simp only [List.length_append]
    omega
  · rename_i invalid
    cases result
    exact ⟨fun valid => absurd valid invalid, Nat.zero_le 4⟩

theorem maker_run_length (inputs : List (Input F)) (s : MarketMaker × List NormalizedOrderAction)
    (run : MakerRun ops params inputs s) :
    s.2.length ≤ 4 * inputs.length := by
  induction run with
  | start => exact Nat.le_refl 0
  | snoc inputs input state next _ step ih =>
      obtain ⟨⟨actions, after⟩, taken, result⟩ := (checked_bind_eq_ok _ _ _).mp step.2
      cases result
      have few := (on_tick_bounds ops params state.1 after input actions taken).2
      rw [List.length_append, List.length_append, List.length_singleton]
      omega

theorem on_tick_cases (maker next : MarketMaker) (input : Input F) (actions : List NormalizedOrderAction)
    (result : MarketMaker.onTick ops params maker input = .ok (actions, next)) :
    (input.2.valid = false ∧ actions = [] ∧ next = maker) ∨
      input.2.valid = true ∧ ∃ updates : Bool → List NormalizedOrderAction,
        actions = updates true ++ updates false ∧
        ∀ isBuy, Requoted input.1 isBuy (MarketMaker.desired ops params isBuy input.2)
        (maker.price isBuy) (updates isBuy) (next.price isBuy) := by
  obtain ⟨tick, sig⟩ := input
  unfold MarketMaker.onTick at result
  dsimp only at result
  split at result
  · rename_i valid
    obtain ⟨⟨bids, bidPrices, between⟩, first, result⟩ := (checked_bind_eq_ok _ _ _).mp result
    obtain ⟨⟨asks, askPrices, last⟩, second, result⟩ := (checked_bind_eq_ok _ _ _).mp result
    cases result
    refine .inr ⟨valid, fun isBuy => if isBuy then bids else asks, rfl, fun isBuy => ?_⟩
    cases isBuy with
    | true => exact requote_cases _ _ _ _ _ _ _ _ _ first
    | false => exact requote_cases _ _ _ _ _ _ _ _ _ second
  · rename_i invalid
    cases result
    exact .inl ⟨Bool.eq_false_iff.mpr invalid, rfl, rfl⟩

structure Settled (s : MarketMaker × List NormalizedOrderAction) : Prop where
  noCancel : ∀ a ∈ s.2, a.isCancel = false
  one : ∀ inst isBuy, (s.2.filter (quotes inst isBuy)).length = if s.1.price isBuy inst = 0 then 0 else 1

theorem first_filter (tick : NormalizedTick) (isBuy : Bool) (desired : Nat) (prices after : Nat → Nat)
    (actions : List NormalizedOrderAction) (update : Requoted tick isBuy desired prices actions after)
    (unmoved : prices tick.instrumentId ≠ 0 → desired = prices tick.instrumentId) (inst : Nat) (side : Bool) :
    (∀ a ∈ actions, a.isCancel = false) ∧
    (actions.filter (quotes inst side)).length + (if prices inst = 0 then 0 else 1) =
      if side = isBuy then (if after inst = 0 then 0 else 1) else (if prices inst = 0 then 0 else 1) := by
  cases update with
  | kept same => simp
  | first new none wanted quote =>
      obtain ⟨notCancel, own, sameSide⟩ := quote
      refine ⟨by simpa using notCancel, ?_⟩
      by_cases sides : side = isBuy
      · by_cases here : inst = tick.instrumentId
        · subst here
          simp [quotes, notCancel, own, sameSide, sides, none, wanted]
        · simp [quotes, own, sides, here, Ne.symm here]
      · simp [quotes, sameSide, sides, Ne.symm sides]
  | replaced cancel new some moved cancels => exact absurd (unmoved some) moved

theorem settled_step (s : MarketMaker × List NormalizedOrderAction) (input : Input F)
    (next : MarketMaker × List NormalizedOrderAction)
    (settled : Settled s) (unmoved : Unmoved ops params s input)
    (step : makerStep ops params s input = .ok next) : Settled next := by
  obtain ⟨⟨actions, after⟩, taken, result⟩ := (checked_bind_eq_ok _ _ _).mp step
  cases result
  rcases on_tick_cases ops params s.1 after input actions taken
    with ⟨_, rfl, rfl⟩ | ⟨valid, updates, rfl, each⟩
  · simpa using settled
  · have quiet := (unmoved valid).2
    refine ⟨fun a member => ?_, fun inst isBuy => ?_⟩
    · rcases List.mem_append.mp member with before | fresh
      · exact settled.noCancel a before
      · rcases List.mem_append.mp fresh with bid | ask
        · exact (first_filter _ _ _ _ _ _ (each true) (quiet true) 0 true).1 a bid
        · exact (first_filter _ _ _ _ _ _ (each false) (quiet false) 0 true).1 a ask
    · have before := settled.one inst isBuy
      have bid := (first_filter _ _ _ _ _ _ (each true) (quiet true) inst isBuy).2
      have ask := (first_filter _ _ _ _ _ _ (each false) (quiet false) inst isBuy).2
      simp only [List.filter_append, List.length_append]
      cases isBuy with
      | true =>
          simp only [if_true, Bool.true_eq_false, if_false] at bid ask before ⊢
          omega
      | false =>
          simp only [if_true, Bool.false_eq_true, if_false] at bid ask before ⊢
          omega

theorem steady_run_settled (inputs : List (Input F)) (s : MarketMaker × List NormalizedOrderAction)
    (run : SteadyRun ops params inputs s) : Settled s := by
  refine run_invariant Settled ⟨by simp, fun inst isBuy => by cases isBuy <;> rfl⟩ ?_ inputs s run
  rintro state input next settled ⟨unmoved, step⟩
  exact settled_step ops params state input next settled unmoved step

end

theorem outstanding_no_cancel (history : List NormalizedOrderAction)
    (none : ∀ a ∈ history, a.isCancel = false) :
    outstanding history = history := by
  have all : ∀ sent : List NormalizedOrderAction, history.foldl
      (fun sent a => if a.isCancel then sent.filter (fun o => o.internalOrderId ≠ a.internalOrderId)
        else sent ++ [a]) sent = sent ++ history := by
    induction history with
    | nil => simp
    | cons a rest ih =>
        intro sent
        rw [List.foldl_cons, none a List.mem_cons_self, if_neg (by simp), ih fun b member =>
          none b (List.mem_cons_of_mem _ member)]
        simp
  exact all []

theorem settled_quotes (tokenBase : Nat) (s : MarketMaker × List NormalizedOrderAction)
    (settled : Settled s) :
    CancelsOwnQuote tokenBase s.2 ∧ OneQuoteEach s.2 := by
  refine ⟨fun before cancel after split isCancel => ?_, fun before after split inst isBuy => ?_⟩
  · have none := settled.noCancel cancel (by rw [split]; simp)
    rw [none] at isCancel
    cases isCancel
  · rw [outstanding_no_cancel before fun a member =>
      settled.noCancel a (by rw [split]; exact List.mem_append_left _ member)]
    have one := settled.one inst isBuy
    rw [split, List.filter_append, List.length_append] at one
    split at one <;> omega

theorem cancel_id_fresh (tokenBase : Nat) (history : List NormalizedOrderAction) (ids : Numbered 1 history)
    (short : history.length < 2 ^ 64) (own : CancelsOwnQuote tokenBase history) :
    ∀ a ∈ history, a.isCancel = false := by
  intro a member
  obtain ⟨before, after, split⟩ := List.append_of_mem member
  by_contra cancels
  obtain ⟨quote, latest, same, _⟩ := own before a after split (by simpa using cancels)
  have inside : quote ∈ before := List.mem_of_mem_filter (List.mem_of_getLast? latest)
  obtain ⟨j, found⟩ := List.mem_iff_getElem?.mp inside
  obtain ⟨early, _⟩ := List.getElem?_eq_some_iff.mp found
  have length : before.length < history.length := by
    rw [split, List.length_append, List.length_cons]
    omega
  have cancelId := ids before.length a (by rw [split]; simp)
  have quoteId := ids j quote (by rw [split, List.getElem?_append_left early, found])
  rw [← same, cancelId] at quoteId
  omega

section
variable {F : Type} (ops : FloatOps F) (params : MakerParams F)

theorem steady_maker_run (inputs : List (Input F)) (s : MarketMaker × List NormalizedOrderAction)
    (run : SteadyRun ops params inputs s) :
    MakerRun ops params inputs s := run_mono inputs s run fun _ _ _ _ guarded => ⟨trivial, guarded.2⟩

theorem steady_inputs_run (inputs : List (Input F)) (steady : SteadyInputs ops params inputs) :
    ∃ s, SteadyRun ops params inputs s := by
  induction inputs using List.reverseRecOn with
  | nil => exact ⟨_, .start⟩
  | append_singleton inputs input ih =>
      obtain ⟨s, run⟩ := ih fun before other after s split => steady before other
        (after ++ [input]) s (by rw [split]; simp)
      have unmoved := steady inputs input [] s rfl (steady_maker_run ops params inputs s run)
      obtain ⟨⟨actions, next⟩, taken⟩ := on_tick_total ops params s.1 input fun valid => (unmoved valid).1
      exact ⟨_, .snoc inputs input s _ run ⟨unmoved, by rw [makerStep, strategyStep, taken]; rfl⟩⟩

theorem steady_run_inputs (inputs : List (Input F)) (s : MarketMaker × List NormalizedOrderAction)
    (run : SteadyRun ops params inputs s) :
    SteadyInputs ops params inputs := by
  intro before input after t split early
  induction run generalizing after with
  | start => simp at split
  | snoc inputs last state next previous step ih =>
      rcases List.eq_nil_or_concat after with rfl | ⟨rest, final, rfl⟩
      · obtain ⟨rfl, same⟩ := List.append_inj' split rfl
        cases same
        cases guarded_run_unique _ _ _ _ _ _ _ previous early
        exact step.1
      · refine ih rest ?_
        rw [List.concat_eq_append, ← List.cons_append, ← List.append_assoc] at split
        exact (List.append_inj' split rfl).1

theorem no_cancel_steady (inputs : List (Input F)) (s : MarketMaker × List NormalizedOrderAction)
    (run : MakerRun ops params inputs s)
    (none : ∀ a ∈ s.2, a.isCancel = false) : SteadyRun ops params inputs s := by
  induction run with
  | start => exact .start
  | snoc inputs input state next previous step ih =>
      obtain ⟨⟨actions, after⟩, taken, result⟩ := (checked_bind_eq_ok _ _ _).mp step.2
      cases result
      refine .snoc inputs input state _
        (ih fun a member => none a (List.mem_append_left _ member)) ⟨?_, step.2⟩
      intro valid
      refine ⟨(on_tick_bounds ops params state.1 after input actions taken).1 valid, fun isBuy quoted => ?_⟩
      rcases on_tick_cases ops params state.1 after input actions taken
        with ⟨invalid, _⟩ | ⟨_, updates, rfl, each⟩
      · rw [valid] at invalid
        cases invalid
      · have all : ∀ a ∈ updates isBuy, a.isCancel = false := by
          intro a member
          refine none a (List.mem_append_right _ ?_)
          cases isBuy with
          | true => exact List.mem_append_left _ member
          | false => exact List.mem_append_right _ member
        have update := each isBuy
        generalize updates isBuy = list at update all
        generalize after.price isBuy = prices at update
        cases update with
        | kept same => exact same
        | first new zero => exact absurd zero quoted
        | replaced cancel new some moved cancels =>
            rw [all cancel List.mem_cons_self] at cancels
            cases cancels

end

-- Every cancel takes its id from the counter of new orders, so it names no order
-- at all. The quotes are in order exactly as long as no signal moves one.
theorem quotes_in_order_iff_unmoved {F : Type} (ops : FloatOps F) (params : MakerParams F)
    (tokenBase : Nat) (inputs : List (Input F)) :
    (SteadyInputs ops params inputs → QuotesInOrder ops params tokenBase inputs) ∧
      (4 * inputs.length < 2 ^ 64 → QuotesInOrder ops params tokenBase inputs →
        SteadyInputs ops params inputs) := by
  refine ⟨fun steady => ?_, fun short ordered => ?_⟩
  · obtain ⟨s, run⟩ := steady_inputs_run ops params inputs steady
    exact ⟨s, steady_maker_run ops params inputs s run,
      settled_quotes tokenBase s (steady_run_settled ops params inputs s run)⟩
  · obtain ⟨s, run, own, _⟩ := ordered
    have ids := (strategy_run_numbered _ _ (makerNumbering ops params) inputs s run).1
    have few := maker_run_length ops params inputs s run
    have none := cancel_id_fresh tokenBase s.2 ids (by omega) own
    exact steady_run_inputs ops params inputs s (no_cancel_steady ops params inputs s run none)

-- Whole numbers, on which single precision is exact.
def wholeOps : FloatOps Int where
  ofUInt32 n := n
  half := 0
  add := (· + ·)
  sub := (· - ·)
  div := (· / ·)
  neg := (- ·)
  less a b := a < b
  toUInt32 a := a.toNat

def makerDefaults : MakerParams Int := ⟨2, 1, 100⟩

def signalAt (price : Int) : Input Int := (⟨7, 0, 0, true, false, 0, 0⟩, ⟨price, price, 0, 2, true⟩)

instance (s : MarketMaker × List NormalizedOrderAction) (input : Input Int) : Decidable
    (Unmoved wholeOps makerDefaults s input) :=
  inferInstanceAs (Decidable (_ → _ ∧ ∀ _ : Bool, _ → _))

def steadySignals : List (Input Int) :=
  [signalAt 100, (⟨8, 0, 0, true, false, 0, 0⟩, ⟨50, 50, 0, 2, true⟩),
    (⟨1000, 0, 0, true, false, 0, 0⟩, ⟨0, 0, 0, 0, false⟩), signalAt 100]

theorem steady_signal_in_order :
    QuotesInOrder wholeOps makerDefaults 0 steadySignals ∧
    SteadyInputs wholeOps makerDefaults steadySignals := by
  have runs : (execute (Unmoved wholeOps makerDefaults) (makerStep wholeOps makerDefaults) (.init,
      []) steadySignals).isSome = true := by
    decide
  obtain ⟨s, result⟩ := Option.isSome_iff_exists.mp runs
  have steady := steady_run_inputs wholeOps makerDefaults _ s (execute_run _ _ _ _ s result)
  exact ⟨(quotes_in_order_iff_unmoved wholeOps makerDefaults 0 steadySignals).1 steady, steady⟩

-- The signal moves from 100 to 110: the bid with id 1 is replaced, but the
-- cancel carries the id 3.
theorem moved_quote_not_canceled :
    ¬ ∀ (inputs : List (Input Int)) (s : MarketMaker × List NormalizedOrderAction),
    MakerRun wholeOps makerDefaults inputs s → CancelsOwnQuote 0 s.2 ∧ OneQuoteEach s.2 := by
  intro always
  let bid (id price : Nat) (isCancel : Bool) : NormalizedOrderAction :=
    ⟨id, 7, price, 100, true, isCancel, 0, 0, 0⟩
  let ask (id price : Nat) (isCancel : Bool) : NormalizedOrderAction :=
    ⟨id, 7, price, 100, false, isCancel, 0, 0, 0⟩
  have runs : (execute (fun _ _ => True)
    (strategyStep (MarketMaker.onTick wholeOps makerDefaults)) (.init, [])
      [signalAt 100, signalAt 110]).map (·.2) =
      some [bid 1 98 false, ask 2 103 false, bid 3 98 true, bid 4 108 false, ask 5 103 true,
        ask 6 113 false] := by decide
  obtain ⟨s, result, history⟩ := Option.map_eq_some_iff.mp runs
  obtain ⟨own, _⟩ := always _ s (execute_run _ _ _ _ s result)
  obtain ⟨quote, latest, same, _⟩ := own [bid 1 98 false, ask 2 103 false] (bid 3 98 true)
    [bid 4 108 false, ask 5 103 true, ask 6 113 false] history rfl
  cases latest
  exact absurd same (by decide)

end HftExchange
