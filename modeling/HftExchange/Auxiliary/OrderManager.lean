import HftExchange.Auxiliary.AuditReaders
import HftExchange.Engine.FieldRanges
import HftExchange.Engine.Streams

set_option autoImplicit false

namespace HftExchange

open Base

structure ShardCounters where
  ordersIn : Nat
  fills : Nat
  cancels : Nat
  rejects : Nat
deriving DecidableEq, Repr

def fetchAdd (counter : Nat) : Nat := (counter + 1) % 2 ^ 64

def ShardCounters.count (c : ShardCounters) : OrderState → ShardCounters
  | .new => { c with ordersIn := fetchAdd c.ordersIn }
  | .filled | .partialFill => { c with fills := fetchAdd c.fills }
  | .canceled => { c with cancels := fetchAdd c.cancels }
  | .rejected => { c with rejects := fetchAdd c.rejects }

-- The members of the OrderManager that its drop copies go into. A window is
-- what has been counted since the metrics were last printed.
structure MetricsWindow where
  newOrders : Nat
  trades : Nat
  rejects : Nat
deriving DecidableEq, Repr

structure OrderManager where
  logged : List OrderLogEntry
  window : MetricsWindow
  printed : List MetricsWindow
  shards : Nat → ShardCounters

namespace OrderManager

def init : OrderManager := ⟨[], ⟨0, 0, 0⟩, [], fun _ => ⟨0, 0, 0, 0⟩⟩

def countWindow (w : MetricsWindow) : OrderState → MetricsWindow
  | .new => { w with newOrders := fetchAdd w.newOrders }
  | .filled | .partialFill => { w with trades := fetchAdd w.trades }
  | .rejected => { w with rejects := fetchAdd w.rejects }
  | .canceled => w

def consume (om : OrderManager) (tsc : Nat) (m : DropCopyMessage) : OrderManager :=
  let shard := m.instrumentId % numShards
  { om with
    logged := if om.logged.length < maxLogEntries then om.logged ++ [⟨tsc, m⟩] else om.logged
    window := countWindow om.window m.state
    shards := Function.update om.shards shard ((om.shards shard).count m.state) }

-- A second has passed. A window in which nothing happened is not printed.
def printMetrics (om : OrderManager) : OrderManager :=
  if 0 < om.window.newOrders ∨ 0 < om.window.trades ∨ 0 < om.window.rejects then
    { om with printed := om.printed ++ [om.window], window := ⟨0, 0, 0⟩ }
  else om

end OrderManager

inductive ManagerOp where
  | consume (tsc : Nat) (m : DropCopyMessage)
  | second
deriving DecidableEq, Repr

def managerStep (om : OrderManager) : ManagerOp → OrderManager
  | .consume tsc m => om.consume tsc m
  | .second => om.printMetrics

def consumed (ops : List ManagerOp) : List OrderLogEntry :=
  ops.filterMap fun
    | .consume tsc m => some ⟨tsc, m⟩
    | .second => none

def recordsIn (kind : OrderState → Bool) (shard : Nat) (records : List DropCopyMessage) : Nat :=
  records.countP fun m => kind m.state && m.instrumentId % numShards = shard

def ofKind (kind : OrderState → Bool) (records : List DropCopyMessage) : Nat :=
    records.countP fun m => kind m.state

def isNew (state : OrderState) : Bool := state = .new
def isCanceled (state : OrderState) : Bool := state = .canceled
def isRejected (state : OrderState) : Bool := state = .rejected

def printedTotal (member : MetricsWindow → Nat) (om : OrderManager) : Nat :=
    (om.printed.map member).sum + member om.window

structure Counted (om : OrderManager) (records : List DropCopyMessage) : Prop where
  ordersIn : ∀ shard, (om.shards shard).ordersIn = recordsIn isNew shard records
  fills : ∀ shard, (om.shards shard).fills = recordsIn isFill shard records
  cancels : ∀ shard, (om.shards shard).cancels = recordsIn isCanceled shard records
  rejects : ∀ shard, (om.shards shard).rejects = recordsIn isRejected shard records
  newOrders : printedTotal MetricsWindow.newOrders om = ofKind isNew records
  trades : printedTotal MetricsWindow.trades om = ofKind isFill records
  refusals : printedTotal MetricsWindow.rejects om = ofKind isRejected records

theorem records_in_snoc (kind : OrderState → Bool) (shard : Nat) (records : List DropCopyMessage)
    (m : DropCopyMessage) :
    recordsIn kind shard (records ++ [m]) =
      recordsIn kind shard records + if kind m.state && m.instrumentId % numShards = shard then 1 else 0 := by
  rw [recordsIn, List.countP_append, List.countP_singleton, recordsIn]

theorem of_kind_snoc (kind : OrderState → Bool) (records : List DropCopyMessage) (m : DropCopyMessage) :
    ofKind kind (records ++ [m]) = ofKind kind records + if kind m.state then 1 else 0 := by
  rw [ofKind, List.countP_append, List.countP_singleton, ofKind]

theorem fetch_add_small (counter : Nat) (small : counter + 1 < 2 ^ 64) : fetchAdd counter =
    counter + 1 := Nat.mod_eq_of_lt small

theorem records_in_le (kind : OrderState → Bool) (shard : Nat) (records : List DropCopyMessage) :
    recordsIn kind shard records ≤ records.length := List.countP_le_length

theorem counter_step (counter : ShardCounters → Nat) (kind : OrderState → Bool)
    (counts : ∀ c state, counter (c.count state) = if kind state then fetchAdd (counter c) else counter c)
    (om : OrderManager) (records : List DropCopyMessage) (tsc : Nat) (m : DropCopyMessage)
    (room : records.length + 1 < 2 ^ 64)
    (before : ∀ shard, counter (om.shards shard) = recordsIn kind shard records) (shard : Nat) :
    counter ((om.consume tsc m).shards shard) = recordsIn kind shard (records ++ [m]) := by
  have small := records_in_le kind shard records
  rw [records_in_snoc, OrderManager.consume]
  by_cases here : m.instrumentId % numShards = shard
  · subst here
    simp only [Function.update_self, counts, before]
    by_cases told : kind m.state
    · rw [if_pos told, fetch_add_small _ (by omega)]
      simp [told]
    · rw [if_neg told]
      simp [told]
  · simp only [Function.update_of_ne (Ne.symm here), before]
    simp [here]

theorem printed_le (member : MetricsWindow → Nat) (om : OrderManager) : member om.window ≤
    printedTotal member om := Nat.le_add_left _ _

theorem window_step (member : MetricsWindow → Nat) (kind : OrderState → Bool)
    (counts : ∀ w state, member (OrderManager.countWindow w state) = if kind state
      then fetchAdd (member w) else member w)
    (om : OrderManager) (records : List DropCopyMessage) (tsc : Nat) (m : DropCopyMessage)
    (room : records.length + 1 < 2 ^ 64)
    (before : printedTotal member om = ofKind kind records) :
    printedTotal member (om.consume tsc m) = ofKind kind (records ++ [m]) := by
  have small : ofKind kind records ≤ records.length := List.countP_le_length
  have part := printed_le member om
  rw [of_kind_snoc, ← before]
  simp only [printedTotal, OrderManager.consume, counts] at part before ⊢
  by_cases told : kind m.state
  · rw [if_pos told, if_pos told, fetch_add_small _ (by omega), Nat.add_assoc]
  · rw [if_neg told, if_neg told]
    rfl

theorem consume_counted (om : OrderManager) (records : List DropCopyMessage) (tsc : Nat) (m : DropCopyMessage)
    (room : records.length + 1 < 2 ^ 64) (counted : Counted om records) :
    Counted (om.consume tsc m) (records ++ [m]) := by
  refine ⟨?_, ?_, ?_, ?_, ?_, ?_, ?_⟩
  · exact counter_step _ isNew (fun c state => by cases state <;> rfl) om records tsc m room counted.ordersIn
  · exact counter_step _ isFill (fun c state => by cases state <;> rfl) om records tsc m room counted.fills
  · exact counter_step _ isCanceled (fun c state => by cases state <;> rfl) om records tsc m
      room counted.cancels
  · exact counter_step _ isRejected (fun c state => by cases state <;> rfl) om records tsc m
      room counted.rejects
  · exact window_step _ isNew (fun w state => by cases state <;> rfl) om records tsc m room counted.newOrders
  · exact window_step _ isFill (fun w state => by cases state <;> rfl) om records tsc m room counted.trades
  · exact window_step _ isRejected (fun w state => by cases state <;> rfl) om records tsc m
      room counted.refusals

theorem print_counted (om : OrderManager) (records : List DropCopyMessage) (counted : Counted om records) :
    Counted om.printMetrics records := by
  rw [OrderManager.printMetrics]
  by_cases some_ : 0 < om.window.newOrders ∨ 0 < om.window.trades ∨ 0 < om.window.rejects
  · rw [if_pos some_]
    obtain ⟨ordersIn, fills, cancels, rejects, newOrders, trades, refusals⟩ := counted
    refine ⟨ordersIn, fills, cancels, rejects, ?_, ?_, ?_⟩
    · simpa [printedTotal] using newOrders
    · simpa [printedTotal] using trades
    · simpa [printedTotal] using refusals
  · rw [if_neg some_]
    exact counted

theorem manager_counted (ops : List ManagerOp) (room : (consumed ops).length < 2 ^ 64) :
    Counted (ops.foldl managerStep .init) ((consumed ops).map OrderLogEntry.msg) ∧
      (ops.foldl managerStep .init).logged = (consumed ops).take maxLogEntries := by
  induction ops using List.reverseRecOn with
  | nil => exact ⟨⟨fun _ => rfl, fun _ => rfl, fun _ => rfl, fun _ => rfl, rfl, rfl, rfl⟩, rfl⟩
  | append_singleton ops op ih =>
      rw [List.foldl_append, List.foldl_cons, List.foldl_nil]
      cases op with
      | second =>
          have same : consumed (ops ++ [.second]) = consumed ops := by simp [consumed]
          rw [same] at room ⊢
          obtain ⟨counted, logged⟩ := ih room
          refine ⟨print_counted _ _ counted, ?_⟩
          rw [managerStep, OrderManager.printMetrics]
          split <;> exact logged
      | consume tsc m =>
          have more : consumed (ops ++ [.consume tsc m]) = consumed ops ++ [⟨tsc, m⟩] := by simp [consumed]
          rw [more, List.length_append, List.length_singleton] at room
          obtain ⟨counted, logged⟩ := ih (by omega)
          rw [more, List.map_append]
          refine ⟨consume_counted _ _ tsc m (by simpa using room) counted, ?_⟩
          rw [managerStep, OrderManager.consume]
          simp only [logged, List.length_take]
          by_cases full : (consumed ops).length < maxLogEntries
          · rw [if_pos (by omega), List.take_of_length_le full.le,
              List.take_of_length_le (by simpa using full)]
          · rw [if_neg (by omega), List.take_append_of_le_length (by omega)]

end HftExchange
