import HftExchange.Auxiliary.Counters
import HftExchange.Firm.LocalBookRun

set_option autoImplicit false

namespace HftExchange

open Base

def onSide (inst : Nat) (side : Side) (o : Order) : Bool := o.instrumentId = inst && o.side = side

def recordedOn (kind : OrderState → Bool) (inst : Nat) (side : Side) (records : List DropCopyMessage) : Nat :=
  (records.map fun m => if kind m.state && m.instrumentId = inst && m.side = side then m.quantity else 0).sum

section
variable (kind : OrderState → Bool) (inst : Nat) (side : Side)

theorem recorded_append (first second : List DropCopyMessage) :
    recordedOn kind inst side (first ++ second) = recordedOn kind inst side first + recordedOn kind
      inst side second := by
  rw [recordedOn, List.map_append, List.sum_append]
  rfl

theorem recorded_perm (first second : List DropCopyMessage) (same : first.Perm second) :
    recordedOn kind inst side first = recordedOn kind inst side second := (same.map _).sum_eq

theorem recorded_none (records : List DropCopyMessage)
    (none_ : ∀ m ∈ records, kind m.state = false ∨ m.instrumentId ≠ inst) :
    recordedOn kind inst side records = 0 := by
  refine List.sum_eq_zero fun value member => ?_
  obtain ⟨m, there, rfl⟩ := List.mem_map.mp member
  rcases none_ m there with other | elsewhere
  · simp [other]
  · simp [elsewhere]

end

theorem on_side_fixed (inst : Nat) (side : Side) : Fixed (onSide inst side) := fun _ _ => rfl

theorem event_recorded (inst : Nat) (side : Side) (event : Event) :
    recordedOn isFill inst side (dropCopySequence event.outputs) = event.executed (onSide inst side) ∧
    recordedOn isLeftover inst side (dropCopySequence event.outputs) = event.leftOver (onSide inst side) := by
  have fills : ∀ o qty, isFill (fillState o qty) = true ∧ isLeftover (fillState o qty) = false := by
    intro o qty
    unfold fillState
    split <;> exact ⟨rfl, rfl⟩
  cases event with
  | trade taker maker =>
      by_cases all : maker.quantity ≤ tradeQty taker maker <;>
        simp [dropCopySequence, Event.outputs, itchOf, dropCopyOf, ackOf, recordedOn,
          Event.executed, Event.leftOver, countIf, onSide, all, fills]
  | reject o | rest o | filled o | cancel o =>
      simp [dropCopySequence, Event.outputs, itchOf, dropCopyOf, recordedOn, Event.executed,
        Event.leftOver, countIf, onSide, isFill, isLeftover]

theorem events_recorded (inst : Nat) (side : Side) (events : List Event) :
    recordedOn isFill inst side (dropCopySequence (events.flatMap Event.outputs)) = executedIn
    (onSide inst side) events ∧
    recordedOn isLeftover inst side (dropCopySequence (events.flatMap Event.outputs)) = leftOverIn
    (onSide inst side) events := by
  induction events with
  | nil => exact ⟨rfl, rfl⟩
  | cons event rest ih =>
      obtain ⟨executed, left⟩ := event_recorded inst side event
      rw [List.flatMap_cons, drop_copy_append, recorded_append, recorded_append, executed, left, ih.1, ih.2]
      exact ⟨rfl, rfl⟩

theorem level_shares (book : Resting) (inst : Nat) (side : Side) (priced : ∀ r ∈ book, r.price < maxPrice)
    (placed : ∀ r ∈ book, r.instrumentId = inst) :
    ∑ p ∈ Finset.range maxPrice, volume book side p = sharesOf (onSide inst side) book := by
  induction book with
  | nil => exact Finset.sum_const_zero
  | cons r book ih =>
      have price := Finset.mem_range.mpr (priced r List.mem_cons_self)
      have rest := ih (fun s member => priced s (List.mem_cons_of_mem _ member)) fun s member =>
        placed s (List.mem_cons_of_mem _ member)
      have own : ∑ p ∈ Finset.range maxPrice, (if r.side = side ∧ r.price = p then r.quantity else 0) =
          countIf (onSide inst side) r r.quantity := by
        by_cases here : r.side = side <;> simp [here, price, countIf, onSide, placed r List.mem_cons_self]
      simp only [volume_cons, Finset.sum_add_distrib, own, rest]
      rfl

theorem open_on_side (shard : Shard) (books : Nat → Resting) (rep : ShardRep shard books allQuiet)
    (inst : Nat) (known : inst < maxInstruments)
    (side : Side) :
    openShares (onSide inst side) books = ∑ p ∈ Finset.range maxPrice,
      quantityAt shard inst side p := by
  have elsewhere : ∀ other ∈ Finset.range maxInstruments, other ≠ inst → sharesOf (onSide inst side)
      (books other) = 0 := by
    intro other _ different
    refine List.sum_eq_zero fun value member => ?_
    obtain ⟨r, inside, rfl⟩ := List.mem_map.mp member
    have away : r.instrumentId ≠ inst := fun same => different ((rep.placed other r inside).1.symm.trans same)
    simp [countIf, onSide, away]
  rw [openShares, Finset.sum_eq_single inst elsewhere fun outside =>
    absurd (Finset.mem_range.mpr known) outside,
    quantity_at_eq shard books rep inst, level_shares (books inst) inst side
      (fun r inside => ((rep.each inst).valid r inside).2.2)
      fun r inside => (rep.placed inst r inside).1]

theorem executed_balanced (inst : Nat) (events : List Event) (opposite : ∀ e ∈ events, OppositeTrade e)
    (together : ∀ e ∈ events, ∀ r ∈ e.orders, ∀ s ∈ e.orders, r.instrumentId = s.instrumentId) :
    executedIn (onSide inst .buy) events = executedIn (onSide inst .sell) events := by
  refine congrArg List.sum (List.map_congr_left fun e member => ?_)
  cases e with
  | trade taker maker =>
      have sides : maker.side = taker.side.opposite := opposite _ member (taker, maker) rfl
      have same := together _ member maker (by simp [Event.orders]) taker (by simp [Event.orders])
      by_cases here : taker.instrumentId = inst <;> cases own : taker.side <;>
        simp [Event.executed, countIf, onSide, sides, same, here, own, Side.opposite]
  | reject o | rest o | filled o | cancel o => rfl

theorem recorded_of_shard (shards : Nat → Shard) (ops : Nat → List ShardOp)
    (engines : ∀ s, s < numShards → ShardRun (.init s) (ops s) (shards s))
    (kind : OrderState → Bool) (inst : Nat) (side : Side) :
    recordedOn kind inst side (engineRecords shards) = recordedOn kind inst side
    (dropCopySequence (shards (inst % numShards)).shared.out) := by
  refine measure_single (recordedOn kind inst side) rfl (recorded_append kind inst side) _ _
    (inst % numShards) List.nodup_range
    (List.mem_range.mpr (Nat.mod_lt _ (by decide))) fun s there other => ?_
  refine recorded_none kind inst side _ fun m member => .inr fun same => other ?_
  rw [← same, drop_copies_routed shards ops s (engines s (List.mem_range.mp there)) m member]

theorem audit_balances_book (shards : Nat → Shard) (ops : Nat → List ShardOp)
    (mops : List ManagerOp) (refused : List DropCopyMessage)
    (engines : ∀ s, s < numShards → ShardRun (.init s) (ops s) (shards s))
    (refusals : ∀ m ∈ refused, m.state = .rejected)
    (arrived : ((consumed mops).map OrderLogEntry.msg).Perm (engineRecords shards ++ refused))
    (room : (consumed mops).length ≤ maxLogEntries)
    (inst : Nat) (known : inst < maxInstruments) :
    (∀ side, submittedIn (onSide inst side) (ops (inst % numShards)) + recordedOn isLeftover
      inst side refused =
      recordedOn isFill inst side ((mops.foldl managerStep .init).logged.map OrderLogEntry.msg) +
      recordedOn isLeftover inst side ((mops.foldl managerStep .init).logged.map OrderLogEntry.msg) +
      ∑ p ∈ Finset.range maxPrice, quantityAt (shards (inst % numShards)) inst side p) ∧
    recordedOn isFill inst .buy ((mops.foldl managerStep .init).logged.map OrderLogEntry.msg) =
      recordedOn isFill inst .sell ((mops.foldl managerStep .init).logged.map OrderLogEntry.msg) := by
  have small : maxLogEntries < 2 ^ 64 := by decide
  have shard : inst % numShards < numShards := Nat.mod_lt _ (by decide)
  obtain ⟨books, events, account⟩ := shard_run_account (fun _ => True) (fun _ _ same => same) _ _ _
    (engines _ shard) fun _ _ _ _ _ => trivial
  have log : (mops.foldl managerStep .init).logged = consumed mops := by
    rw [(manager_counted mops (Nat.lt_of_le_of_lt room small)).2, List.take_of_length_le room]
  have told : ∀ kind side, recordedOn kind inst side
    ((mops.foldl managerStep .init).logged.map OrderLogEntry.msg) =
      recordedOn kind inst side (dropCopySequence (events.flatMap Event.outputs)) + recordedOn kind
        inst side refused := by
    intro kind side
    rw [log, recorded_perm kind inst side _ _ arrived, recorded_append,
      recorded_of_shard shards ops engines, account.out]
  have none_ : ∀ side, recordedOn isFill inst side refused = 0 :=
    fun side => recorded_none isFill inst side refused fun m member => .inl (by rw [refusals m member]; rfl)
  have fills : ∀ side, recordedOn isFill inst side
    ((mops.foldl managerStep .init).logged.map OrderLogEntry.msg) =
      executedIn (onSide inst side) events := fun side => by
        rw [told, none_, Nat.add_zero, (events_recorded inst side events).1]
  refine ⟨fun side => ?_, ?_⟩
  · have kept := account.conserved (onSide inst side) (on_side_fixed inst side)
    rw [open_on_side _ books account.rep inst known] at kept
    rw [fills, told, (events_recorded inst side events).2, kept]
    ring
  · rw [fills, fills, executed_balanced inst events account.opposite account.together]

theorem crossed_balances :
    ∃ shards : Nat → Shard,
    submittedIn (onSide 3 .sell) (crossedOps 3) + recordedOn isLeftover 3 .sell [refusedRecord] =
      recordedOn isFill 3 .sell ((crossedManager.foldl managerStep .init).logged.map OrderLogEntry.msg) +
      recordedOn isLeftover 3 .sell ((crossedManager.foldl managerStep .init).logged.map OrderLogEntry.msg) +
      ∑ p ∈ Finset.range maxPrice, quantityAt (shards 3) 3 .sell p := by
  obtain ⟨shards, engines, arrived⟩ := crossed_engines
  exact ⟨shards, (audit_balances_book shards crossedOps crossedManager [refusedRecord] engines
    (by decide) arrived (by decide) 3
    (by decide)).1 .sell⟩

end HftExchange
