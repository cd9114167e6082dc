import HftExchange.Engine.RunEvents

set_option autoImplicit false

namespace HftExchange

open Base

-- The arguments of a call of send_ack.
structure Execution where
  order : Order
  price : Nat
  shares : Nat
  liquidity : Char
deriving DecidableEq, Repr

def Execution.ack (x : Execution) : OutboundAck := (executionReport x.order x.price x.shares x.liquidity).2

def tradeExecutions (trade : Order × Order) : List Execution :=
  let qty := tradeQty trade.1 trade.2
  [⟨trade.1, trade.2.price, qty, 'R'⟩, ⟨trade.2, trade.2.price, qty, 'A'⟩]

def executionsIn (trades : List (Order × Order)) : List Execution := trades.flatMap tradeExecutions

def ackReports (shard : Shard) : List OutboundAck := (ackSequence shard.shared.out).map Prod.snd

theorem executed_executions (mine : Order → Bool) (events : List Event) :
    executedIn mine events = ((executionsIn (events.filterMap tradeOf)).map fun x =>
      countIf mine x.order x.shares).sum := by
  induction events with
  | nil => rfl
  | cons event rest ih =>
      rw [executedIn] at ih
      rw [executedIn, List.map_cons, List.sum_cons, ih]
      cases event with
      | trade taker maker =>
          have first : executionsIn ((Event.trade taker maker :: rest).filterMap tradeOf) =
              tradeExecutions (taker, maker) ++ executionsIn (rest.filterMap tradeOf) := rfl
          rw [first, List.map_append, List.sum_append]
          simp [tradeExecutions, Event.executed]
      | reject o | rest o | filled o | cancel o =>
          rw [List.filterMap_cons_none rfl, Event.executed, Nat.zero_add]

section
variable {Kind : Order → Prop} {ops : List ShardOp} {shard : Shard} {books : Nat → Resting}
  {events : List Event}

theorem ack_reports_executions (account : RunAccount Kind ops shard books events) :
    ackReports shard = (executionsIn (events.filterMap tradeOf)).map Execution.ack := by
  rw [ackReports, account.out, ack_sequence_events, executionsIn, List.map_flatMap, List.map_flatMap]
  rfl

theorem execution_known (account : RunAccount Kind ops shard books events) (x : Execution)
    (member : x ∈ executionsIn (events.filterMap tradeOf)) : Kind x.order ∧ 0 < x.shares := by
  obtain ⟨trade, traded, side⟩ := List.mem_flatMap.mp member
  obtain ⟨event, inside, same⟩ := List.mem_filterMap.mp traded
  have live := account.live event inside trade same
  have orders := account.orders event inside
  cases event with
  | trade taker maker =>
      cases same
      simp only [tradeExecutions, List.mem_cons, List.not_mem_nil, or_false] at side
      rcases side with rfl | rfl
      · exact ⟨orders taker (by simp [Event.orders]), live⟩
      · exact ⟨orders maker (by simp [Event.orders]), live⟩
  | reject o | rest o | filled o | cancel o => cases same

theorem executed_submitted (account : RunAccount Kind ops shard books events) (mine : Order → Bool)
    (fixed : Fixed mine) :
    ((executionsIn (events.filterMap tradeOf)).map fun x => countIf mine x.order x.shares).sum ≤
      submittedIn mine ops := by
  rw [← executed_executions, account.conserved mine fixed, Nat.add_assoc]
  exact Nat.le_add_right _ _

end

end HftExchange
