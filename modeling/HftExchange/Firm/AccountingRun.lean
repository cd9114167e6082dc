import HftExchange.Firm.Accounting

set_option autoImplicit false

namespace HftExchange

open Base

section
variable (s : ExecutionEngine) (tracked : TrackerRep s) (accounted : Accounted s)

theorem since_begun (stage : Nat) (r : FillReport) (member : r ∈ s.since stage) : r ∈ s.begun := by
  rw [ExecutionEngine.since] at member
  rw [ExecutionEngine.begun]
  split at member
  · exact member
  · exact List.mem_append_left _ (by simpa using member)

include tracked

theorem counted_bound : s.counted.length ≤ maxLiveOrders := by
  have all := few_orders s.orders tracked.distinct fun o inside => (tracked.small o inside).1
  refine Nat.le_trans ?_ all
  unfold ExecutionEngine.counted ExecutionEngine.orders SendPc.order
  cases s.send <;> simp

theorem begun_bound : s.begun.length < 2 ^ 64 := by
  have dispatched : ∀ o ∈ s.dispatched, o ∈ s.orders := fun o inside => List.mem_append_left _ inside
  have reports := reports_bounded s.dispatched s.begun tracked.known
  have shares : (s.dispatched.map fun o => filledQty s.begun o.internalOrderId).sum ≤
      s.dispatched.length * 2 ^ 32 := by
    refine (List.sum_le_card_nsmul _ (2 ^ 32) fun n member => ?_).trans (by simp)
    obtain ⟨o, inside, rfl⟩ := List.mem_map.mp member
    exact Nat.le_trans (tracked.bounded o (dispatched o inside))
      (Nat.le_of_lt (tracked.small o (dispatched o inside)).2)
  have orders : s.dispatched.length ≤ maxLiveOrders := by
    have all := few_orders s.orders tracked.distinct fun o inside => (tracked.small o inside).1
    rw [ExecutionEngine.orders, List.length_append] at all
    omega
  have product := Nat.mul_le_mul_right (2 ^ 32) orders
  have room : maxLiveOrders * 2 ^ 32 < 2 ^ 64 := by decide
  omega

theorem signed_extend (a : NormalizedOrderAction) (stage : Nat)
    (value : List NormalizedOrderAction → FillReport → Int)
    (local_ : ∀ first second r, orderOfReport first r = orderOfReport second r →
      value first r = value second r) :
    ((s.since stage).map (value (s.dispatched ++ [a]))).sum =
    ((s.since stage).map (value s.dispatched)).sum := by
  congr 1
  refine List.map_congr_left fun r member => local_ _ _ r ?_
  exact order_of_report_append s.dispatched [a] r (tracked.known r (since_begun s stage r member)).2

theorem execute_tracked (a : NormalizedOrderAction) (allowed : FirmAllowed s (.executeAction a)) :
    TrackerRep (s.executeAction a) := by
  obtain ⟨idle, notCancel, small, quantity, fresh⟩ := allowed
  have orders : s.orders = s.dispatched := by simp [ExecutionEngine.orders, idle, SendPc.order]
  have none := fresh_reports s tracked a fresh
  have noneSince : ∀ r ∈ s.since 4, r.orderId ≠ a.internalOrderId := fun r member =>
    none r (since_begun s 4 r member)
  simp only [ExecutionEngine.executeAction, idle, notCancel, small, and_self, if_true]
  constructor
  · simp only [ExecutionEngine.orders, SendPc.order, Option.toList_some, List.map_append,
      List.map_cons, List.map_nil]
    refine List.nodup_append.mpr ⟨orders ▸ tracked.distinct, List.nodup_singleton _, ?_⟩
    rintro id member _ last rfl
    obtain ⟨o, inside, same⟩ := List.mem_map.mp member
    exact fresh o inside (same.trans (List.mem_singleton.mp last))
  · intro o inside
    rcases List.mem_append.mp inside with before | last
    · exact tracked.small o (orders ▸ before)
    · cases List.mem_singleton.mp last
      exact ⟨small, quantity⟩
  · exact tracked.known
  · intro o inside
    rcases List.mem_append.mp inside with before | last
    · exact tracked.bounded o (orders ▸ before)
    · cases List.mem_singleton.mp last
      exact Nat.le_trans (Nat.le_of_eq (filled_none s.begun _ none)) (Nat.zero_le _)
  · intro o inside
    rcases List.mem_append.mp inside with before | last
    · exact (Function.update_of_ne (fresh o before) _ _).trans (tracked.slots o (orders ▸ before))
    · cases List.mem_singleton.mp last
      have slot : (⟨a.instrumentId, a.isBuy, a.quantity, true⟩ : TrackedOrder) = ⟨a.instrumentId, a.isBuy,
          a.quantity - filledQty (s.since 4) a.internalOrderId, !fullyFilled (s.since 4) a⟩ := by
        rw [filled_none (s.since 4) _ noneSince, fully_filled_none (s.since 4) a noneSince]
        rfl
      exact (Function.update_self ..).trans slot
  · exact tracked.closing

theorem report_accepted (r : FillReport) (allowed : FirmAllowed s (.report r)) :
    s.onExecutionReport r = { s with fill := .accepted r } := by
  obtain ⟨idle, positive, o, inside, same, room⟩ := allowed
  have ordered : o ∈ s.orders := List.mem_append_left _ inside
  have since : s.since 4 = s.delivered := by simp [ExecutionEngine.since, idle, FillPc.current]
  have active : (s.orderTracker r.orderId).isActive = true := by
    rw [← same, tracked.slots o ordered, since, not_full s.delivered o (by rw [same]; omega)]
    rfl
  simp only [ExecutionEngine.onExecutionReport, idle]
  rw [if_pos ⟨same ▸ (tracked.small o ordered).1, active⟩]

include accounted

theorem send_accounted : TrackerRep s.sendStep ∧ Accounted s.sendStep := by
  unfold ExecutionEngine.sendStep
  cases state : s.send with
  | idle => exact ⟨tracked, accounted⟩
  | tracked a =>
      have orders : s.orders = s.dispatched ++ [a] := by simp [ExecutionEngine.orders, state, SendPc.order]
      have distinct := tracked.distinct
      rw [orders] at distinct
      refine ⟨⟨?_, ?_, tracked.known, ?_, ?_, tracked.closing⟩, accounted.unknown, ?_,
        accounted.ordersAcked, accounted.positions,
        accounted.realizedPnl⟩
      · exact distinct
      · exact fun o inside => tracked.small o (orders ▸ inside)
      · exact fun o inside => tracked.bounded o (orders ▸ inside)
      · exact fun o inside => tracked.slots o (orders ▸ inside)
      · rw [List.map_append] at distinct
        have fresh : ∀ r ∈ s.delivered, r.orderId ≠ a.internalOrderId := by
          intro r member same
          obtain ⟨_, o, inside, id⟩ := tracked.known r (List.mem_append_left _ member)
          exact (List.nodup_append.mp distinct).2.2 _ (List.mem_map_of_mem inside) _ (by simp) (id.trans same)
        have before := accounted.inFlight
        have bound := counted_bound s tracked
        have few := List.length_filter_le (fun o => !fullyFilled s.delivered o) s.counted
        have counted : s.counted = s.dispatched := by simp [ExecutionEngine.counted, state]
        rw [counted] at before few bound
        have room : maxLiveOrders + 1 < 2 ^ 64 := by decide
        simp only [ExecutionEngine.counted, List.filter_append, List.length_append, List.filter_singleton,
          fully_filled_none s.delivered a fresh, Bool.not_false]
        rw [Nat.mod_eq_of_lt (by omega), before]
        rfl
  | counted a =>
      have orders : s.orders = s.dispatched ++ [a] := by simp [ExecutionEngine.orders, state, SendPc.order]
      have same : s.counted = s.dispatched ++ [a] := by simp [ExecutionEngine.counted, state]
      have distinct := tracked.distinct
      have flight := accounted.inFlight
      rw [orders] at distinct
      rw [same] at flight
      have grown : ∀ o ∈ s.dispatched, o ∈ s.dispatched ++ [a] := fun o inside =>
        List.mem_append_left _ inside
      refine ⟨⟨?_, ?_, fun r member => ?_, ?_, ?_, fun r closed => ?_⟩, accounted.unknown, ?_,
        accounted.ordersAcked, fun inst => ?_, ?_⟩
      · simpa [ExecutionEngine.orders, SendPc.order] using distinct
      · exact fun o inside => tracked.small o
          (orders ▸ by simpa [ExecutionEngine.orders, SendPc.order] using inside)
      · obtain ⟨positive, o, inside, id⟩ := tracked.known r member
        exact ⟨positive, o, grown o inside, id⟩
      · exact fun o inside => tracked.bounded o
          (orders ▸ by simpa [ExecutionEngine.orders, SendPc.order] using inside)
      · exact fun o inside => tracked.slots o
          (orders ▸ by simpa [ExecutionEngine.orders, SendPc.order] using inside)
      · obtain ⟨o, inside, id, full⟩ := tracked.closing r closed
        exact ⟨o, grown o inside, id, full⟩
      · simpa [ExecutionEngine.counted] using flight
      · refine (accounted.positions inst).trans ?_
        exact congrArg _ (signed_extend s tracked a 1 (fun orders => signedOn orders inst)
          (fun first second r equal => by simp only [signedOn, equal])).symm
      · refine accounted.realizedPnl.trans ?_
        exact congrArg _ (signed_extend s tracked a 2 cashFlow (fun first second r equal =>
          by simp only [cashFlow, equal])).symm

theorem report_accounted (r : FillReport) (allowed : FirmAllowed s (.report r)) :
    TrackerRep (s.onExecutionReport r) ∧ Accounted (s.onExecutionReport r) := by
  rw [report_accepted s tracked r allowed]
  obtain ⟨idle, positive, o, inside, same, room⟩ := allowed
  have ordered : o ∈ s.orders := List.mem_append_left _ inside
  have since : ∀ stage, s.since stage = s.delivered := fun stage => by
    simp [ExecutionEngine.since, idle, FillPc.current]
  have begun : s.begun = s.delivered := by simp [ExecutionEngine.begun, idle, FillPc.current]
  have later : ∀ stage, 0 < stage → ({ s with fill := .accepted r } : ExecutionEngine).since stage =
      s.delivered := fun stage high => by
    simp [ExecutionEngine.since, FillPc.stage, Nat.ne_of_gt high]
  refine ⟨⟨tracked.distinct, tracked.small, fun q member => ?_, fun q member => ?_, fun q member =>
    ?_, fun q closed => by cases closed⟩,
    accounted.unknown, accounted.inFlight, ?_, fun inst => ?_, ?_⟩
  · rcases List.mem_append.mp member with before | last
    · exact tracked.known q (List.mem_append_left _ before)
    · cases List.mem_singleton.mp last
      exact ⟨positive, o, inside, same⟩
  · have before := tracked.bounded q member
    rw [begun] at before
    rw [ExecutionEngine.begun, show (FillPc.accepted r).current = some r from rfl,
      Option.toList_some, filled_snoc]
    split
    · rename_i here
      have equal := List.inj_on_of_nodup_map tracked.distinct member ordered (here.symm.trans same.symm)
      rw [equal, same]
      exact room
    · exact before
  · rw [later 4 (by decide), ← since 4]
    exact tracked.slots q member
  · rw [later 3 (by decide), ← since 3]
    exact accounted.ordersAcked
  · rw [later 1 (by decide), ← since 1]
    exact accounted.positions inst
  · rw [later 2 (by decide), ← since 2]
    exact accounted.realizedPnl

end

theorem signed32_eq (isBuy : Bool) (qty : Nat) :
    ExecutionEngine.signed32 isBuy qty = BitVec.ofInt 32 (if isBuy then (qty : Int) else -(qty : Int)) := by
  cases isBuy with
  | true => exact (BitVec.ofInt_natCast 32 qty).symm
  | false =>
      rw [ExecutionEngine.signed32, if_neg (by decide), if_neg (by decide), BitVec.ofInt_neg,
        BitVec.ofInt_natCast]

theorem notional_eq (isBuy : Bool) (qty price : Nat) :
    ExecutionEngine.notional isBuy qty price = BitVec.ofInt 64
    (if isBuy then -((price : Int) * qty) else (price : Int) * qty) := by
  have product : BitVec.ofInt 64 ((price : Int) * qty) = BitVec.ofNat 64 price * BitVec.ofNat 64 qty := by
    rw [BitVec.ofInt_mul, BitVec.ofInt_natCast, BitVec.ofInt_natCast]
  cases isBuy with
  | true => rw [ExecutionEngine.notional, if_pos rfl, if_pos rfl, BitVec.ofInt_neg, product]
  | false => rw [ExecutionEngine.notional, if_neg (by decide), if_neg (by decide), product]

theorem tracker_same (s next : ExecutionEngine) (tracked : TrackerRep s) (orders : next.orders = s.orders)
    (dispatched : next.dispatched = s.dispatched) (tracker : next.orderTracker = s.orderTracker)
    (begun : next.begun = s.begun)
    (since : next.since 4 = s.since 4) (notClosed : ∀ r, next.fill ≠ .closed r) : TrackerRep next := by
  refine ⟨by rw [orders]; exact tracked.distinct, by rw [orders]; exact tracked.small, ?_, ?_, ?_,
    fun r closed => absurd closed (notClosed r)⟩
  · rw [begun, dispatched]
    exact tracked.known
  · rw [begun, orders]
    exact tracked.bounded
  · rw [orders, tracker, since]
    exact tracked.slots

theorem finish_since (s : ExecutionEngine) (r : FillReport) (stage : Nat) :
    (s.finish r).since stage = s.delivered ++ [r] := by
  rw [ExecutionEngine.since, show (s.finish r).fill.current.toList = [] from rfl, ite_self, List.append_nil]
  rfl

theorem finish_begun (s : ExecutionEngine) (r : FillReport) : (s.finish r).begun = s.delivered ++
    [r] := List.append_nil _

theorem counted_listed (s : ExecutionEngine) (o : NormalizedOrderAction) (member : o ∈ s.counted) :
    o ∈ s.orders := by
  rw [ExecutionEngine.counted] at member
  rw [ExecutionEngine.orders]
  cases state : s.send with
  | idle =>
      rw [state] at member
      exact member
  | tracked a =>
      rw [state] at member
      exact List.mem_append_left _ (by simpa using member)
  | counted a =>
      rw [state] at member
      exact member

section
variable (s : ExecutionEngine) (tracked : TrackerRep s) (accounted : Accounted s) (r : FillReport)

include tracked

theorem current_slot (current : s.fill.current = some r) :
    ∃ o ∈ s.dispatched, o.internalOrderId = r.orderId ∧
    orderOfReport s.dispatched r = some o ∧ s.orderTracker r.orderId =
      ⟨o.instrumentId, o.isBuy, o.quantity - filledQty (s.since 4) r.orderId,
        !fullyFilled (s.since 4) o⟩ := by
  obtain ⟨o, inside, same, _⟩ := current_order s tracked r current
  have distinct : (s.dispatched.map NormalizedOrderAction.internalOrderId).Nodup :=
    List.Nodup.of_append_left (by simpa [ExecutionEngine.orders] using tracked.distinct)
  refine ⟨o, inside, same, order_of_report_mem s.dispatched distinct o inside r same, ?_⟩
  rw [← same]
  exact tracked.slots o (List.mem_append_left _ inside)

include accounted

theorem position_accounted (state : s.fill = .accepted r) (next : ExecutionEngine)
    (step : s.fillStep = .ok next) :
    TrackerRep next ∧ Accounted next := by
  obtain ⟨o, _, _, found, slot⟩ := current_slot s tracked r (by rw [state]; rfl)
  simp only [ExecutionEngine.fillStep, state, slot] at step
  obtain ⟨position, read, step⟩ := (checked_bind_eq_ok _ _ _).mp step
  obtain ⟨positions, written, step⟩ := (checked_bind_eq_ok _ _ _).mp step
  cases step
  have known : o.instrumentId < positionInstruments := by
    by_contra far
    simp [fetch, far] at read
  rw [fetch_ok _ _ _ known] at read
  rw [store_ok _ _ _ _ known] at written
  cases read
  cases written
  have before : ∀ stage, 0 < stage → s.since stage = s.delivered := fun stage high => by
    simp [ExecutionEngine.since, state, FillPc.stage, Nat.ne_of_gt high]
  refine ⟨tracker_same s _ tracked rfl rfl rfl (by simp [ExecutionEngine.begun, state, FillPc.current])
      (by rw [before 4 (by decide)]; simp [ExecutionEngine.since, FillPc.stage]) (by simp),
    accounted.unknown, accounted.inFlight, ?_, fun inst => ?_, ?_⟩
  · have old := accounted.ordersAcked
    rw [before 3 (by decide)] at old
    simpa [ExecutionEngine.since, FillPc.stage] using old
  · have old := accounted.positions inst
    rw [before 1 (by decide)] at old
    have now : ({ s with
        currentPositions := Function.update s.currentPositions o.instrumentId
          (s.currentPositions o.instrumentId + ExecutionEngine.signed32 o.isBuy r.filledQty),
        fill := .positioned r } : ExecutionEngine).since 1 = s.delivered ++ [r] := by
      simp [ExecutionEngine.since, FillPc.stage, FillPc.current]
    rw [now, List.map_append, List.sum_append, BitVec.ofInt_add, ← old]
    by_cases here : inst = o.instrumentId
    · subst here
      simp [signedOn, found, signed32_eq]
    · simp [signedOn, found, here, Ne.symm here]
  · have old := accounted.realizedPnl
    rw [before 2 (by decide)] at old
    simpa [ExecutionEngine.since, FillPc.stage] using old

theorem value_accounted (state : s.fill = .positioned r) (next : ExecutionEngine)
    (step : s.fillStep = .ok next) :
    TrackerRep next ∧ Accounted next := by
  obtain ⟨o, _, _, found, slot⟩ := current_slot s tracked r (by rw [state]; rfl)
  simp only [ExecutionEngine.fillStep, state, slot] at step
  cases step
  refine ⟨tracker_same s _ tracked rfl rfl rfl (by simp [ExecutionEngine.begun, state, FillPc.current])
      (by simp [ExecutionEngine.since, state, FillPc.stage]) (by simp),
    accounted.unknown, accounted.inFlight, ?_, fun inst => ?_, ?_⟩
  · have old := accounted.ordersAcked
    simpa [ExecutionEngine.since, state, FillPc.stage] using old
  · have old := accounted.positions inst
    simpa [ExecutionEngine.since, state, FillPc.stage, FillPc.current] using old
  · have old := accounted.realizedPnl
    have before : s.since 2 = s.delivered := by simp [ExecutionEngine.since, state, FillPc.stage]
    rw [before] at old
    have now : ({ s with
        realizedPnl := s.realizedPnl + ExecutionEngine.notional o.isBuy r.filledQty r.price,
        fill := .valued r } :
        ExecutionEngine).since 2 = s.delivered ++ [r] :=
          by simp [ExecutionEngine.since, FillPc.stage, FillPc.current]
    rw [now, List.map_append, List.sum_append, BitVec.ofInt_add, ← old]
    simp [cashFlow, found, notional_eq]

theorem ack_accounted (state : s.fill = .valued r) (next : ExecutionEngine) (step : s.fillStep = .ok next) :
    TrackerRep next ∧ Accounted next := by
  simp only [ExecutionEngine.fillStep, state] at step
  cases step
  have begun : s.begun = s.delivered ++ [r] := by simp [ExecutionEngine.begun, state, FillPc.current]
  have room := begun_bound s tracked
  rw [begun, List.length_append, List.length_singleton] at room
  refine ⟨tracker_same s _ tracked rfl rfl rfl (by simp [ExecutionEngine.begun, state, FillPc.current])
      (by simp [ExecutionEngine.since, state, FillPc.stage]) (by simp),
    accounted.unknown, accounted.inFlight, ?_, fun inst => ?_, ?_⟩
  · have old := accounted.ordersAcked
    have before : s.since 3 = s.delivered := by simp [ExecutionEngine.since, state, FillPc.stage]
    rw [before] at old
    have now : ({ s with ordersAcked := (s.ordersAcked + 1) % 2 ^ 64, fill := .acked r } :
        ExecutionEngine).since 3 = s.delivered ++ [r] := by
      simp [ExecutionEngine.since, FillPc.stage, FillPc.current]
    rw [now, List.length_append, List.length_singleton, ← old]
    exact Nat.mod_eq_of_lt (by omega)
  · have old := accounted.positions inst
    simpa [ExecutionEngine.since, state, FillPc.stage, FillPc.current] using old
  · have old := accounted.realizedPnl
    simpa [ExecutionEngine.since, state, FillPc.stage, FillPc.current] using old

theorem close_accounted (state : s.fill = .acked r) (next : ExecutionEngine) (step : s.fillStep = .ok next) :
    TrackerRep next ∧ Accounted next := by
  obtain ⟨o, inside, same, positive, room⟩ := current_order s tracked r (by rw [state]; rfl)
  have ordered : o ∈ s.orders := List.mem_append_left _ inside
  have since : s.since 4 = s.delivered := by simp [ExecutionEngine.since, state, FillPc.stage]
  have begun : s.begun = s.delivered ++ [r] := by simp [ExecutionEngine.begun, state, FillPc.current]
  have slots := tracked.slots
  rw [since] at slots
  have slot := slots o ordered
  have unique : ∀ q ∈ s.orders, q.internalOrderId = r.orderId → q = o := fun q member id =>
    List.inj_on_of_nodup_map tracked.distinct member ordered (id.trans same.symm)
  have other : ∀ q ∈ s.orders, q.internalOrderId ≠ r.orderId → s.orderTracker q.internalOrderId =
    ⟨q.instrumentId, q.isBuy,
      q.quantity - filledQty (s.delivered ++ [r]) q.internalOrderId,
        !fullyFilled (s.delivered ++ [r]) q⟩ := by
    intro q member different
    rw [filled_snoc, if_neg (Ne.symm different), Nat.add_zero,
      fully_filled_snoc_other s.delivered r q (Ne.symm different)]
    exact slots q member
  have filled : filledQty (s.delivered ++ [r]) o.internalOrderId =
      filledQty s.delivered o.internalOrderId + r.filledQty := by
    rw [filled_snoc, if_pos same.symm]
  simp only [ExecutionEngine.fillStep, state] at step
  rw [← same, slot] at step
  dsimp only at step
  split at step
  · rename_i full
    cases step
    have done : o.quantity = filledQty s.delivered o.internalOrderId + r.filledQty := by omega
    have closed : fullyFilled (s.delivered ++ [r]) o = true := by
      rw [fully_filled_snoc _ _ _ same.symm]
      exact decide_eq_true (Nat.le_of_eq done)
    refine ⟨⟨tracked.distinct, tracked.small, ?_, ?_, fun q member => ?_, ?_⟩, accounted.unknown,
      accounted.inFlight, ?_, fun inst => ?_, ?_⟩
    · exact fun q member => tracked.known q (by rw [begun]; exact member)
    · have bounded := tracked.bounded
      rw [begun] at bounded
      exact bounded
    · by_cases here : q.internalOrderId = r.orderId
      · cases unique q member here
        refine (Function.update_self ..).trans ?_
        rw [show ({ s with orderTracker := _, fill := .closed r } : ExecutionEngine).since 4 =
          s.delivered ++ [r] from rfl, filled, closed,
          ← done, Nat.sub_self]
        rfl
      · exact (Function.update_of_ne (by rw [same]; exact here) _ _).trans (other q member here)
    · rintro q closed'
      cases closed'
      exact ⟨o, inside, same, closed⟩
    · simpa [ExecutionEngine.since, state, FillPc.stage, FillPc.current] using accounted.ordersAcked
    · simpa [ExecutionEngine.since, state, FillPc.stage, FillPc.current] using accounted.positions inst
    · simpa [ExecutionEngine.since, state, FillPc.stage, FillPc.current] using accounted.realizedPnl
  · rename_i partial_
    cases step
    have still : fullyFilled (s.delivered ++ [r]) o = false := not_full _ o (by rw [filled]; omega)
    have before : fullyFilled s.delivered o = false := not_full _ o (by omega)
    refine ⟨⟨tracked.distinct, tracked.small, ?_, ?_, fun q member => ?_, fun q closed =>
      by cases closed⟩, accounted.unknown, ?_, ?_,
      fun inst => ?_, ?_⟩
    · intro q member
      rw [finish_begun] at member
      exact tracked.known q (by rw [begun]; exact member)
    · have bounded := tracked.bounded
      rw [begun] at bounded
      intro q member
      rw [finish_begun]
      exact bounded q member
    · rw [finish_since]
      by_cases here : q.internalOrderId = r.orderId
      · cases unique q member here
        refine (Function.update_self ..).trans ?_
        dsimp only
        rw [filled, still, before, Nat.sub_sub]
      · exact (Function.update_of_ne (by rw [same]; exact here) _ _).trans (other q member here)
    · refine accounted.inFlight.trans (congrArg List.length (List.filter_congr fun q member => ?_))
      have listed := counted_listed s q member
      by_cases here : q.internalOrderId = r.orderId
      · cases unique q listed here
        exact congrArg not (before.trans still.symm)
      · rw [← fully_filled_snoc_other s.delivered r q (Ne.symm here)]
        rfl
    · rw [finish_since]
      simpa [ExecutionEngine.since, ExecutionEngine.finish, state, FillPc.stage, FillPc.current]
        using accounted.ordersAcked
    · rw [finish_since]
      simpa [ExecutionEngine.since, ExecutionEngine.finish, state, FillPc.stage, FillPc.current]
        using accounted.positions inst
    · rw [finish_since]
      simpa [ExecutionEngine.since, ExecutionEngine.finish, state, FillPc.stage, FillPc.current]
        using accounted.realizedPnl

theorem release_accounted (state : s.fill = .closed r) (next : ExecutionEngine)
    (step : s.fillStep = .ok next) :
    TrackerRep next ∧ Accounted next ∧ 0 < s.inFlight := by
  obtain ⟨o, inside, same, positive, room⟩ := current_order s tracked r (by rw [state]; rfl)
  obtain ⟨q, inside', same', full⟩ := tracked.closing r state
  have ordered : o ∈ s.orders := List.mem_append_left _ inside
  cases List.inj_on_of_nodup_map tracked.distinct (List.mem_append_left _ inside') ordered
    (same'.trans same.symm)
  have since : ∀ stage ≤ 4, s.since stage = s.delivered ++ [r] := fun stage high => by
    simp [ExecutionEngine.since, state, FillPc.stage, FillPc.current, high]
  have begun : s.begun = s.delivered ++ [r] := by simp [ExecutionEngine.begun, state, FillPc.current]
  have distinct : (s.counted.map NormalizedOrderAction.internalOrderId).Nodup := by
    have all := tracked.distinct
    unfold ExecutionEngine.orders at all
    unfold ExecutionEngine.counted
    cases sending : s.send with
    | idle => simpa [sending, SendPc.order] using all
    | tracked a => simpa [sending] using (List.Nodup.of_append_left (by simpa using all))
    | counted a => simpa [sending, SendPc.order] using all
  have opened : (!fullyFilled s.delivered o) = true := by
    rw [not_full s.delivered o (by omega)]
    rfl
  have one := close_one s.counted (fun o => !fullyFilled s.delivered o)
    (fun o => !fullyFilled (s.delivered ++ [r]) o) o distinct
    (List.mem_append_left _ inside) opened (by rw [full]; rfl) fun p _ different => by
      rw [fully_filled_snoc_other s.delivered r p fun equal => different (equal.symm.trans same.symm)]
  have before := accounted.inFlight
  have bound := counted_bound s tracked
  have few := List.length_filter_le (fun o => !fullyFilled s.delivered o) s.counted
  have live : 0 < s.inFlight := by omega
  have word : maxLiveOrders < 2 ^ 64 := by decide
  have minus : (s.inFlight + (2 ^ 64 - 1)) % 2 ^ 64 = s.inFlight - 1 := by omega
  rw [ExecutionEngine.fillStep, state, minus] at step
  cases step
  refine ⟨⟨tracked.distinct, tracked.small, ?_, ?_, ?_, fun q closed => by cases closed⟩,
    ⟨accounted.unknown, ?_, ?_, fun inst => ?_, ?_⟩, live⟩
  · intro p member
    rw [finish_begun] at member
    exact tracked.known p (by rw [begun]; exact member)
  · have bounded := tracked.bounded
    rw [begun] at bounded
    intro p member
    rw [finish_begun]
    exact bounded p member
  · have slots := tracked.slots
    rw [since 4 (Nat.le_refl 4)] at slots
    intro p member
    rw [finish_since]
    exact slots p member
  · have now : (s.counted.filter fun o => !fullyFilled (s.delivered ++ [r]) o).length =
      s.inFlight - 1 := by omega
    exact now.symm
  · rw [finish_since]
    exact (since 3 (by decide)) ▸ accounted.ordersAcked
  · rw [finish_since]
    exact (since 1 (by decide)) ▸ accounted.positions inst
  · rw [finish_since]
    exact (since 2 (by decide)) ▸ accounted.realizedPnl

theorem fill_accounted (next : ExecutionEngine) (step : s.fillStep = .ok next) :
    TrackerRep next ∧ Accounted next := by
  cases state : s.fill with
  | idle =>
      rw [ExecutionEngine.fillStep, state] at step
      cases step
      exact ⟨tracked, accounted⟩
  | accepted r => exact position_accounted s tracked accounted r state next step
  | positioned r => exact value_accounted s tracked accounted r state next step
  | valued r => exact ack_accounted s tracked accounted r state next step
  | acked r => exact close_accounted s tracked accounted r state next step
  | closed r =>
      obtain ⟨tracked', accounted', _⟩ := release_accounted s tracked accounted r state next step
      exact ⟨tracked', accounted'⟩

end

theorem firm_step_accounted (s next : ExecutionEngine) (label : FirmLabel) (tracked : TrackerRep s)
    (accounted : Accounted s)
    (allowed : FirmAllowed s label) (step : firmStep s label = .ok next) :
    TrackerRep next ∧ Accounted next := by
  cases label with
  | executeAction a =>
      cases step
      refine ⟨execute_tracked s tracked a allowed, ?_⟩
      obtain ⟨idle, notCancel, small, _⟩ := allowed
      simp only [ExecutionEngine.executeAction, idle, notCancel, small, and_self, if_true]
      refine ⟨accounted.unknown, ?_, accounted.ordersAcked, accounted.positions, accounted.realizedPnl⟩
      have flight := accounted.inFlight
      rwa [ExecutionEngine.counted, idle] at flight
  | sendStep =>
      cases step
      exact send_accounted s tracked accounted
  | report r =>
      cases step
      exact report_accounted s tracked accounted r allowed
  | fillStep => exact fill_accounted s tracked accounted next step

theorem accounting_run (labels : List FirmLabel) (s : ExecutionEngine)
    (run : AccountingRun labels s) : TrackerRep s ∧ Accounted s := by
  refine run_invariant (fun s => TrackerRep s ∧ Accounted s) ⟨?_, ?_⟩ ?_ labels s run
  · exact ⟨List.nodup_nil, by simp [ExecutionEngine.orders, ExecutionEngine.init, SendPc.order], by
      simp [ExecutionEngine.begun, ExecutionEngine.init, FillPc.current], by
      simp [ExecutionEngine.orders, ExecutionEngine.init, SendPc.order], by
      simp [ExecutionEngine.orders, ExecutionEngine.init, SendPc.order], fun r closed => by cases closed⟩
  · exact ⟨rfl, rfl, rfl, fun _ => rfl, rfl⟩
  · rintro state label next ⟨tracked, accounted⟩ ⟨allowed, step⟩
    exact firm_step_accounted state next label tracked accounted allowed step

theorem fill_step_keeps (s next : ExecutionEngine) (step : s.fillStep = .ok next) :
    next.begun = s.begun ∧ next.dispatched = s.dispatched ∧ next.send = s.send := by
  cases state : s.fill with
  | idle =>
      simp only [ExecutionEngine.fillStep, state] at step
      cases step
      exact ⟨rfl, rfl, rfl⟩
  | accepted r =>
      simp only [ExecutionEngine.fillStep, state] at step
      obtain ⟨position, _, step⟩ := (checked_bind_eq_ok _ _ _).mp step
      obtain ⟨positions, _, step⟩ := (checked_bind_eq_ok _ _ _).mp step
      cases step
      exact ⟨by simp [ExecutionEngine.begun, state, FillPc.current], rfl, rfl⟩
  | positioned r | valued r =>
      simp only [ExecutionEngine.fillStep, state] at step
      cases step
      exact ⟨by simp [ExecutionEngine.begun, state, FillPc.current], rfl, rfl⟩
  | acked r =>
      simp only [ExecutionEngine.fillStep, state] at step
      split at step
      · cases step
        exact ⟨by simp [ExecutionEngine.begun, state, FillPc.current], rfl, rfl⟩
      · cases step
        exact ⟨by simp [ExecutionEngine.begun, ExecutionEngine.finish, state, FillPc.current], rfl, rfl⟩
  | closed r =>
      have released : ∀ flight, (({ s with inFlight := flight } : ExecutionEngine).finish r).begun = s.begun ∧
          (({ s with inFlight := flight } : ExecutionEngine).finish r).dispatched = s.dispatched ∧
            (({ s with inFlight := flight } : ExecutionEngine).finish r).send = s.send := by
        intro flight
        exact ⟨by simp [ExecutionEngine.begun, ExecutionEngine.finish, state, FillPc.current], rfl, rfl⟩
      rw [ExecutionEngine.fillStep, state] at step
      rw [← Except.ok.inj step]
      exact released _

theorem accepted_order (s : ExecutionEngine) (tracked : TrackerRep s) (r : FillReport)
    (state : s.fill = .accepted r) :
    ∃ o ∈ s.dispatched, o.internalOrderId = r.orderId ∧ (s.orderTracker r.orderId).instrumentId =
      o.instrumentId := by
  obtain ⟨o, inside, same, _⟩ := current_order s tracked r (by rw [state]; rfl)
  exact ⟨o, inside, same, by rw [← same, tracked.slots o (List.mem_append_left _ inside)]⟩

theorem fill_step_defined (s : ExecutionEngine) (tracked : TrackerRep s)
    (known : ∀ r, s.fill = .accepted r → ∀ o ∈ s.dispatched, o.internalOrderId = r.orderId →
      o.instrumentId < positionInstruments) :
    ∃ next, s.fillStep = .ok next := by
  cases state : s.fill with
  | accepted r =>
      obtain ⟨o, inside, same, instrument⟩ := accepted_order s tracked r state
      have bound := known r state o inside same
      rw [← instrument] at bound
      simp only [ExecutionEngine.fillStep, state, fetch_ok _ _ _ bound,
        store_ok _ _ _ _ bound, checked_bind_ok]
      exact ⟨_, rfl⟩
  | acked r =>
      simp only [ExecutionEngine.fillStep, state]
      split <;> exact ⟨_, rfl⟩
  | idle | positioned r | valued r | closed r => exact ⟨_, by rw [ExecutionEngine.fillStep, state]; rfl⟩

end HftExchange
