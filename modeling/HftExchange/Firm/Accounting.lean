import HftExchange.Firm.ExecutionEngine

set_option autoImplicit false

namespace HftExchange

open Base

def fullyFilled (reports : List FillReport) (o : NormalizedOrderAction) : Bool :=
  reports.any (·.orderId = o.internalOrderId) && decide (o.quantity ≤ filledQty reports o.internalOrderId)

def orderOfReport (orders : List NormalizedOrderAction) (r : FillReport) : Option NormalizedOrderAction :=
  orders.find? (fun o => o.internalOrderId = r.orderId)

def signedOn (orders : List NormalizedOrderAction) (inst : Nat) (r : FillReport) : Int :=
  match orderOfReport orders r with
  | some o => if o.instrumentId = inst
      then (if o.isBuy then (r.filledQty : Int) else -(r.filledQty : Int)) else 0
  | none => 0

def cashFlow (orders : List NormalizedOrderAction) (r : FillReport) : Int :=
  match orderOfReport orders r with
  | some o => if o.isBuy then -((r.price : Int) * r.filledQty) else (r.price : Int) * r.filledQty
  | none => 0

def FillPc.stage : FillPc → Nat
  | .idle => 0
  | .accepted _ => 0
  | .positioned _ => 1
  | .valued _ => 2
  | .acked _ => 3
  | .closed _ => 4

namespace ExecutionEngine

-- The reports that have got as far as a stage. Between two calls these are the
-- delivered ones for every stage.
def since (s : ExecutionEngine) (stage : Nat) : List FillReport :=
  s.delivered ++ (if stage ≤ s.fill.stage then s.fill.current.toList else [])

def begun (s : ExecutionEngine) : List FillReport := s.delivered ++ s.fill.current.toList

-- The orders that in_flight_ has been raised for. Between two calls these are
-- the dispatched ones.
def counted (s : ExecutionEngine) : List NormalizedOrderAction :=
  s.dispatched ++ match s.send with
    | .counted a => [a]
    | _ => []

end ExecutionEngine

section
variable (reports : List FillReport) (r : FillReport) (id : Nat) (o : NormalizedOrderAction)

theorem filled_snoc :
    filledQty (reports ++ [r]) id = filledQty reports id + if r.orderId = id
    then r.filledQty else 0 := by
  rw [filledQty, filledQty, List.filter_append, List.map_append, List.sum_append, List.filter_singleton]
  by_cases here : r.orderId = id <;> simp [here]

theorem filled_none (none : ∀ r ∈ reports, r.orderId ≠ id) : filledQty reports id = 0 := by
  have empty : reports.filter (·.orderId = id) = [] := List.filter_eq_nil_iff.mpr fun r member => by
    simpa using none r member
  rw [filledQty, empty]
  rfl

theorem fully_filled_none (none : ∀ r ∈ reports, r.orderId ≠ o.internalOrderId) :
    fullyFilled reports o = false := by
  have absent : reports.any (·.orderId = o.internalOrderId) = false := by simpa using none
  rw [fullyFilled, absent, Bool.false_and]

theorem fully_filled_snoc_other (other : r.orderId ≠ o.internalOrderId) :
    fullyFilled (reports ++ [r]) o = fullyFilled reports o := by
  simp [fullyFilled, filled_snoc, other]

theorem fully_filled_snoc (same : r.orderId = o.internalOrderId) :
    fullyFilled (reports ++ [r]) o = decide
    (o.quantity ≤ filledQty reports o.internalOrderId + r.filledQty) := by
  simp [fullyFilled, filled_snoc, same]

theorem not_full (open_ : filledQty reports o.internalOrderId < o.quantity) :
    fullyFilled reports o = false := by
  have short : decide (o.quantity ≤ filledQty reports o.internalOrderId) = false := decide_eq_false (by omega)
  rw [fullyFilled, short, Bool.and_false]

end

theorem reports_bounded (orders : List NormalizedOrderAction) (reports : List FillReport)
    (known : ∀ r ∈ reports, 1 ≤ r.filledQty ∧ ∃ o ∈ orders, o.internalOrderId = r.orderId) :
    reports.length ≤ (orders.map fun o => filledQty reports o.internalOrderId).sum := by
  induction reports using List.reverseRecOn with
  | nil => exact Nat.zero_le _
  | append_singleton reports r ih =>
      have before := ih fun q member => known q (List.mem_append_left _ member)
      obtain ⟨positive, o, inside, same⟩ := known r (by simp)
      simp only [filled_snoc, List.sum_map_add, List.length_append, List.length_singleton]
      have own : (if r.orderId = o.internalOrderId then r.filledQty else 0) ≤
          (orders.map fun o => if r.orderId = o.internalOrderId then r.filledQty else 0).sum :=
        List.single_le_sum (fun _ _ => Nat.zero_le _) _ (List.mem_map_of_mem inside)
      rw [if_pos same.symm] at own
      omega

theorem close_one (orders : List NormalizedOrderAction) (before after : NormalizedOrderAction →
    Bool) (o : NormalizedOrderAction)
    (distinct : (orders.map NormalizedOrderAction.internalOrderId).Nodup) (inside : o ∈ orders)
    (wasOpen : before o = true)
    (isClosed : after o = false) (others : ∀ q ∈ orders, q.internalOrderId ≠ o.internalOrderId →
      after q = before q) :
    (orders.filter before).length = (orders.filter after).length + 1 := by
  induction orders with
  | nil => cases inside
  | cons q rest ih =>
      rw [List.map_cons, List.nodup_cons] at distinct
      rcases List.mem_cons.mp inside with rfl | later
      · have same : rest.filter after = rest.filter before := List.filter_congr fun q member =>
          others q (List.mem_cons_of_mem _ member) fun equal => distinct.1
            (equal ▸ List.mem_map_of_mem member)
        rw [List.filter_cons, List.filter_cons, wasOpen, isClosed, same]
        rfl
      · have step := ih distinct.2 later fun p member => others p (List.mem_cons_of_mem _ member)
        have kept := others q List.mem_cons_self fun equal => distinct.1 (equal ▸ List.mem_map_of_mem later)
        rw [List.filter_cons, List.filter_cons, kept]
        split
        · rw [List.length_cons, List.length_cons, step]
        · exact step

section
variable (orders : List NormalizedOrderAction)
  (distinct : (orders.map NormalizedOrderAction.internalOrderId).Nodup)

include distinct

theorem order_of_report_mem (o : NormalizedOrderAction) (inside : o ∈ orders) (r : FillReport)
    (same : o.internalOrderId = r.orderId) :
    orderOfReport orders r = some o := by
  cases found : orderOfReport orders r with
  | none =>
      have absent := List.find?_eq_none.mp found o inside
      simp [same] at absent
  | some q =>
      have id : q.internalOrderId = r.orderId := by simpa using List.find?_some found
      have equal := List.inj_on_of_nodup_map distinct (List.mem_of_find?_eq_some found) inside
        (id.trans same.symm)
      rw [equal]

theorem few_orders (small : ∀ o ∈ orders, o.internalOrderId < maxLiveOrders) :
    orders.length ≤ maxLiveOrders := by
  have card := List.toFinset_card_of_nodup distinct
  rw [List.length_map] at card
  rw [← card, ← Finset.card_range maxLiveOrders]
  refine Finset.card_le_card fun id member => ?_
  obtain ⟨o, inside, rfl⟩ := List.mem_map.mp (List.mem_toFinset.mp member)
  exact Finset.mem_range.mpr (small o inside)

end

theorem order_of_report_append (orders more : List NormalizedOrderAction) (r : FillReport)
    (known : ∃ o ∈ orders, o.internalOrderId = r.orderId) :
    orderOfReport (orders ++ more) r = orderOfReport orders r := by
  obtain ⟨o, inside, same⟩ := known
  cases found : orderOfReport orders r with
  | none =>
      have absent := List.find?_eq_none.mp found o inside
      simp [same] at absent
  | some q => rw [orderOfReport, List.find?_append, show orders.find? _ = some q from found, Option.some_or]

structure TrackerRep (s : ExecutionEngine) : Prop where
  distinct : (s.orders.map NormalizedOrderAction.internalOrderId).Nodup
  small : ∀ o ∈ s.orders, o.internalOrderId < maxLiveOrders ∧ o.quantity < 2 ^ 32
  known : ∀ r ∈ s.begun, 1 ≤ r.filledQty ∧ ∃ o ∈ s.dispatched, o.internalOrderId = r.orderId
  bounded : ∀ o ∈ s.orders, filledQty s.begun o.internalOrderId ≤ o.quantity
  slots : ∀ o ∈ s.orders, s.orderTracker o.internalOrderId =
    ⟨o.instrumentId, o.isBuy, o.quantity - filledQty (s.since 4) o.internalOrderId,
      !fullyFilled (s.since 4) o⟩
  closing : ∀ r, s.fill = .closed r → ∃ o ∈ s.dispatched, o.internalOrderId = r.orderId ∧
    fullyFilled (s.delivered ++ [r]) o = true

structure Accounted (s : ExecutionEngine) : Prop where
  unknown : s.unknown = []
  inFlight : s.inFlight = (s.counted.filter (fun o => !fullyFilled s.delivered o)).length
  ordersAcked : s.ordersAcked = (s.since 3).length
  positions : ∀ inst, s.currentPositions inst = BitVec.ofInt 32
    ((s.since 1).map (signedOn s.dispatched inst)).sum
  realizedPnl : s.realizedPnl = BitVec.ofInt 64 ((s.since 2).map (cashFlow s.dispatched)).sum

section
variable (s : ExecutionEngine) (tracked : TrackerRep s)

include tracked

theorem fresh_reports (a : NormalizedOrderAction)
    (fresh : ∀ o ∈ s.dispatched, o.internalOrderId ≠ a.internalOrderId) :
    ∀ r ∈ s.begun, r.orderId ≠ a.internalOrderId := by
  intro r member same
  obtain ⟨_, o, inside, id⟩ := tracked.known r member
  exact fresh o inside (id.trans same)

theorem current_order (r : FillReport) (current : s.fill.current = some r) :
    ∃ o ∈ s.dispatched, o.internalOrderId = r.orderId ∧ 1 ≤ r.filledQty ∧
      filledQty s.delivered o.internalOrderId + r.filledQty ≤ o.quantity := by
  have member : r ∈ s.begun := by simp [ExecutionEngine.begun, current]
  obtain ⟨positive, o, inside, same⟩ := tracked.known r member
  refine ⟨o, inside, same, positive, ?_⟩
  have bound := tracked.bounded o (List.mem_append_left _ inside)
  rw [ExecutionEngine.begun, current, Option.toList_some, filled_snoc, if_pos same.symm] at bound
  exact bound

end

end HftExchange
