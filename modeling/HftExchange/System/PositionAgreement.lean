import HftExchange.System.LoopInvariant

set_option autoImplicit false

namespace HftExchange

open Base

def ownExecutions (client : Nat) (trades : Nat → List (Order × Order)) : List Execution :=
  ((List.range numShards).flatMap fun s => executionsIn (trades s)).filter fun x => x.order.clientId = client

def Execution.sharesGained (inst : Nat) (x : Execution) : Int :=
  if x.order.instrumentId = inst then (if x.order.side = .buy then (x.shares : Int)
    else -(x.shares : Int)) else 0

def Execution.cashGained (x : Execution) : Int :=
  if x.order.side = .buy then -((x.price : Int) * x.shares) else (x.price : Int) * x.shares

def netShares (inst : Nat) (executions : List Execution) : Int :=
    (executions.map (Execution.sharesGained inst)).sum

def netCash (executions : List Execution) : Int := (executions.map Execution.cashGained).sum

structure FirmAgrees (firm : ExecutionEngine) (executions : List Execution) : Prop where
  positions : ∀ inst, firm.currentPositions inst = BitVec.ofInt 32 (netShares inst executions)
  realizedPnl : firm.realizedPnl = BitVec.ofInt 64 (netCash executions)

theorem firm_agrees_perm (firm : ExecutionEngine) (first second : List Execution)
    (same : first.Perm second) (agrees : FirmAgrees firm first) :
    FirmAgrees firm second where
  positions inst := by rw [agrees.positions inst, netShares, netShares, (same.map _).sum_eq]
  realizedPnl := by rw [agrees.realizedPnl, netCash, netCash, (same.map _).sum_eq]

section
variable (link : FirmLink) (memory : Nat → Byte) (loop : TradingLoop) (inv : LoopInv link memory loop)

theorem own_executions_coe (events : Nat → List Event) :
    (ownExecutions link.client (fun s => (events s).filterMap tradeOf) : Multiset Execution) =
      (allExecutions events).filter fun x => x.order.clientId = link.client := by
  rw [ownExecutions, ← Multiset.filter_coe]
  exact congrArg _ (measure_flatMap (fun l : List Execution => (l : Multiset Execution)) rfl
    (fun first second => (Multiset.coe_add first second).symm) _ _)

theorem own_reports_count (books : Nat → Nat → Resting) (events : Nat → List Event)
    (accounts : LoopAccounts link loop books events) :
    loop.ownReports link = (ownExecutions link.client fun s => (events s).filterMap tradeOf).length := by
  have reports : ((List.range numShards).flatMap fun s => ackReports (loop.shards s)) =
      ((List.range numShards).flatMap fun s => executionsIn ((events s).filterMap tradeOf)).map
        Execution.ack := by
    rw [List.map_flatMap, List.flatMap_def, List.flatMap_def]
    exact congrArg List.flatten
      (List.map_congr_left fun s inside =>
      ack_reports_executions (accounts.each s (List.mem_range.mp inside)))
  rw [TradingLoop.ownReports, reports, List.countP_map, ownExecutions, ← List.countP_eq_length_filter]
  rfl

include inv

theorem begun_executions (books : Nat → Nat → Resting) (events : Nat → List Event)
    (accounts : LoopAccounts link loop books events) :
    ∃ handled missing : List Execution,
    (ownExecutions link.client fun s => (events s).filterMap tradeOf).Perm (handled ++ missing) ∧
      loop.firm.begun.Perm (handled.map (Execution.fill link.tokenBase)) := by
  obtain ⟨parts, less, mine, same⟩ := backed_parts link loop books events accounts loop.due inv.backed
  have begun : (loop.firm.begun : Multiset FillReport) ≤ parts.map (Execution.fill link.tokenBase) := by
    rw [← same]
    exact Multiset.coe_le.mpr (List.sublist_append_left _ _).subperm
  obtain ⟨own, inside, reports⟩ := le_map_parts _ _ _ begun
  have all : own ≤ (allExecutions events).filter fun x => x.order.clientId = link.client :=
    Multiset.le_filter.mpr ⟨inside.trans less, fun x member => mine x (Multiset.mem_of_le inside member)⟩
  rw [← own_executions_coe] at all
  obtain ⟨rest, split⟩ := Multiset.le_iff_exists_add.mp all
  refine ⟨own.toList, rest.toList, ?_, ?_⟩
  · rw [← Multiset.coe_eq_coe, ← Multiset.coe_add, Multiset.coe_toList, Multiset.coe_toList]
    exact split
  · rw [← Multiset.coe_eq_coe, ← Multiset.map_coe, Multiset.coe_toList]
    exact reports.symm

theorem report_value (books : Nat → Nat → Resting) (events : Nat → List Event)
    (accounts : LoopAccounts link loop books events) (x : Execution)
    (own : x ∈ ownExecutions link.client fun s => (events s).filterMap tradeOf) :
    (∀ inst, signedOn loop.firm.dispatched inst (x.fill link.tokenBase) = x.sharesGained inst) ∧
      cashFlow loop.firm.dispatched (x.fill link.tokenBase) = x.cashGained := by
  have member : x ∈ (allExecutions events).filter fun x => x.order.clientId = link.client :=
    own_executions_coe link events ▸ own
  obtain ⟨inside, mine⟩ := Multiset.mem_filter.mp member
  obtain ⟨a, sent, token, instrument, side⟩ := (all_known link loop books events accounts x inside).1.2.2 mine
  have distinct : (loop.firm.dispatched.map NormalizedOrderAction.internalOrderId).Nodup :=
    List.Nodup.of_append_left
      (by simpa [ExecutionEngine.orders] using (firm_tracked link memory loop inv).1.distinct)
  have found : orderOfReport loop.firm.dispatched (x.fill link.tokenBase) = some a :=
    order_of_report_mem _ distinct a sent _ (by rw [Execution.fill, token, Nat.add_sub_cancel_left])
  refine ⟨fun inst => ?_, ?_⟩
  · rw [signedOn, found]
    cases buy : a.isBuy <;> simp [Execution.sharesGained, Execution.fill, instrument, side, buy]
  · rw [cashFlow, found]
    cases buy : a.isBuy <;> simp [Execution.cashGained, Execution.fill, side, buy]

theorem idle_agrees (books : Nat → Nat → Resting) (events : Nat → List Event)
    (accounts : LoopAccounts link loop books events)
    (handled : List Execution) (own : ∀ x ∈ handled, x ∈ ownExecutions link.client fun s =>
      (events s).filterMap tradeOf)
    (begun : loop.firm.begun.Perm (handled.map (Execution.fill link.tokenBase)))
    (idle : loop.firm.fill = .idle) : FirmAgrees loop.firm handled := by
  obtain ⟨_, accounted⟩ := firm_tracked link memory loop inv
  have since : ∀ stage, loop.firm.since stage = loop.firm.begun := fun stage => by
    rw [ExecutionEngine.since, ExecutionEngine.begun, idle, show FillPc.idle.current.toList = []
      from rfl, ite_self]
  have value := fun x inside => report_value link memory loop inv books events accounts x (own x inside)
  refine ⟨fun inst => ?_, ?_⟩
  · rw [accounted.positions inst, since, (begun.map _).sum_eq, List.map_map, netShares]
    exact congrArg _ (congrArg List.sum (List.map_congr_left fun x inside => (value x inside).1 inst))
  · rw [accounted.realizedPnl, since, (begun.map _).sum_eq, List.map_map, netCash]
    exact congrArg _ (congrArg List.sum (List.map_congr_left fun x inside => (value x inside).2))

end

-- The loop of engines, gateway and firm, under any interleaving. The firm's
-- threads are used as its accounting needs it: every report it gets is for an
-- order it sent, and no order is filled beyond its quantity. Position and PnL
-- are those of the trades of the engines, as far as their reports have come,
-- and once all have come they are the client's net shares and cash exactly.
theorem positions_follow_executions (link : FirmLink) (memory : Nat → Byte)
    (labels : List LoopLabel) (loop : TradingLoop)
    (run : LoopRun link memory labels loop) :
    (∃ firmLabels, AccountingRun firmLabels loop.firm) ∧ ∃ trades : Nat → List (Order × Order),
    (∀ s, s < numShards → MatchesPaired (loop.shards s).shared.out (trades s) ∧
        ackSequence (loop.shards s).shared.out = (trades s).flatMap ackPair) ∧
      ∃ handled missing, (ownExecutions link.client trades).Perm (handled ++ missing) ∧
        loop.firm.begun.Perm (handled.map (Execution.fill link.tokenBase)) ∧
        (loop.firm.fill = .idle → FirmAgrees loop.firm handled) ∧
        (loop.firm.fill = .idle → loop.firm.delivered.length = loop.ownReports link →
          FirmAgrees loop.firm (ownExecutions link.client trades)) := by
  have inv := loop_run_inv link memory labels loop run
  obtain ⟨books, events, accounts⟩ := loop_accounts link memory loop inv
  obtain ⟨handled, missing, split, begun⟩ := begun_executions link memory loop inv books events accounts
  have own : ∀ x ∈ handled, x ∈ ownExecutions link.client fun s => (events s).filterMap tradeOf :=
    fun x inside => split.symm.subset (List.mem_append_left _ inside)
  have agrees := idle_agrees link memory loop inv books events accounts handled own begun
  refine ⟨inv.accounting, fun s => (events s).filterMap tradeOf, fun s known => ?_, handled,
    missing, split, begun, agrees,
    fun idle all => ?_⟩
  · have account := accounts.each s known
    rw [account.out]
    exact ⟨matches_paired (events s) account.opposite, ack_sequence_events (events s)⟩
  · have count : loop.firm.begun = loop.firm.delivered := by
      rw [ExecutionEngine.begun, idle]
      exact List.append_nil _
    have lengths := split.length_eq
    have reports := begun.length_eq
    rw [count, List.length_map] at reports
    rw [own_reports_count link loop books events accounts] at all
    rw [List.length_append, ← reports, ← all] at lengths
    have none_ : missing = [] := List.eq_nil_of_length_eq_zero (by omega)
    rw [none_, List.append_nil] at split
    exact firm_agrees_perm loop.firm _ _ split.symm (agrees idle)

theorem sold_positions_agree :
    ∃ loop, LoopRun soldLink (fun _ => 0) soldLoop loop ∧ loop.firm.currentPositions 0 = -10 ∧
    loop.firm.realizedPnl = 1000 ∧ ∃ trades, FirmAgrees loop.firm (ownExecutions 2 trades) := by
  obtain ⟨loop, result⟩ := Option.isSome_iff_exists.mp
    (show (execute (TradingLoop.Allowed soldLink) (TradingLoop.step soldLink fun _ => 0) .init
      soldLoop).isSome = true by decide +kernel)
  have ends : (execute (TradingLoop.Allowed soldLink) (TradingLoop.step soldLink fun _ => 0)
    .init soldLoop).map
      (fun loop => (loop.firm.fill, loop.firm.delivered.length, loop.ownReports soldLink,
        loop.firm.currentPositions 0, loop.firm.realizedPnl)) =
      some (.idle, 1, 1, -10, 1000) := by decide +kernel
  rw [result] at ends
  obtain ⟨idle, delivered, reports, position, pnl⟩ : loop.firm.fill = .idle ∧
    loop.firm.delivered.length = 1 ∧ loop.ownReports soldLink = 1 ∧
      loop.firm.currentPositions 0 = -10 ∧ loop.firm.realizedPnl = 1000 := by simpa using ends
  have run : LoopRun soldLink (fun _ => 0) soldLoop loop := execute_run _ _ soldLoop _ loop result
  obtain ⟨_, trades, _, _, _, _, _, _, all⟩ := positions_follow_executions soldLink
    (fun _ => 0) soldLoop loop run
  exact ⟨loop, run, position, pnl, trades, all idle (delivered.trans reports.symm)⟩

end HftExchange
