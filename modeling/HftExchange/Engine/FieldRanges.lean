import HftExchange.Engine.MarketData
import HftExchange.Engine.RunEvents
import HftExchange.Protocol.ItchWire

set_option autoImplicit false

namespace HftExchange

open Base

structure OrderFits (id : Nat) (o : Order) : Prop where
  internalId : o.internalId < maxOrdersLookup
  clientOrderId : o.clientOrderId < 2 ^ 64
  price : o.price < maxPrice
  quantity : o.quantity < 2 ^ 32
  known : o.instrumentId < maxInstruments
  routed : o.instrumentId % numShards = id

def WordSized (ops : List ShardOp) : Prop :=
  ∀ o, .submit o ∈ ops → o.clientOrderId < 2 ^ 64 ∧ o.quantity < 2 ^ 32

theorem order_fits_reduced (id : Nat) (r : Order) (qty : Nat) (fits : OrderFits id r) :
    OrderFits id (reduced r qty) :=
  ⟨fits.internalId, fits.clientOrderId, fits.price,
    Nat.lt_of_le_of_lt (Nat.sub_le _ _) fits.quantity, fits.known, fits.routed⟩

theorem shard_run_fits (id : Nat) (ops : List ShardOp) (shard : Shard)
    (run : ShardRun (.init id) ops shard) (sized : WordSized ops) :
    ∃ events : List Event, shard.shared.out = events.flatMap Event.outputs ∧ ∀ e ∈ events,
      ∀ r ∈ e.orders, OrderFits id r := by
  obtain ⟨_, events, account⟩ := shard_run_account (OrderFits id) (order_fits_reduced id) id ops shard run
    fun state o same allowed member => by
      obtain ⟨⟨_, slot, _, price, _⟩, known, routed⟩ := allowed
      obtain ⟨token, quantity⟩ := sized o member
      exact ⟨slot, token, price, quantity, known, same ▸ routed⟩
  exact ⟨events, account.out, account.orders⟩

theorem itch_of_event (event : Event) (m : ItchMessage) (told : .itch m ∈ event.outputs) :
    ∃ type ∈ ['A', 'E', 'X'], ∃ r ∈ event.orders, ∃ s ∈ event.orders, ∃ qty, qty ≤ r.quantity ∧
    m = itchMessage type r s.price qty := by
  cases event with
  | trade taker maker =>
      obtain ⟨mine, theirs⟩ := trade_qty_le taker maker
      simp only [Event.outputs, itchOf, dropCopyOf, ackOf, List.mem_append, List.mem_cons,
        Output.itch.injEq, reduceCtorEq, List.not_mem_nil,
        or_false] at told
      rcases told with (rfl | rfl) | released
      · exact ⟨'E', by simp, maker, by simp [Event.orders], maker, by simp [Event.orders], _, theirs, rfl⟩
      · exact ⟨'E', by simp, taker, by simp [Event.orders], maker, by simp [Event.orders], _, mine, rfl⟩
      · split at released <;> simp at released
  | reject o => simp [Event.outputs, dropCopyOf] at told
  | rest o =>
      simp only [Event.outputs, itchOf, dropCopyOf, List.mem_cons, Output.itch.injEq, reduceCtorEq,
        List.not_mem_nil, or_false] at told
      exact ⟨'A', by simp, o, by simp [Event.orders], o, by simp [Event.orders], _, Nat.le_refl _, told⟩
  | filled o => simp [Event.outputs] at told
  | cancel o =>
      simp only [Event.outputs, itchOf, dropCopyOf, List.mem_cons, Output.itch.injEq, reduceCtorEq,
        List.not_mem_nil, or_false] at told
      exact ⟨'X', by simp, o, by simp [Event.orders], o, by simp [Event.orders], _, Nat.le_refl _, told⟩

theorem mem_itch_sequence (m : ItchMessage) (out : List Output) : m ∈ itchSequence out ↔ .itch m ∈ out := by
  simp only [itchSequence, List.mem_filterMap]
  constructor
  · rintro ⟨output, member, same⟩
    cases output <;> simp_all
  · exact fun member => ⟨_, member, rfl⟩

theorem shard_itch_fits (id : Nat) (ops : List ShardOp) (shard : Shard)
    (run : ShardRun (.init id) ops shard) (sized : WordSized ops)
    (m : ItchMessage) (member : m ∈ itchSequence shard.shared.out) :
    m.Fits ∧ m.stockLocate < maxInstruments ∧ m.stockLocate % numShards = id := by
  obtain ⟨events, out, fits⟩ := shard_run_fits id ops shard run sized
  rw [out, mem_itch_sequence] at member
  obtain ⟨event, inside, told⟩ := List.mem_flatMap.mp member
  obtain ⟨type, letter, r, mine, s, other, qty, small, rfl⟩ := itch_of_event event m told
  obtain ⟨slot, _, _, quantity, known, routed⟩ := fits event inside r mine
  have price := (fits event inside s other).price
  refine ⟨⟨?_, ?_, ?_, ?_, ?_, ?_⟩, known, routed⟩
  · simp only [List.mem_cons, List.not_mem_nil, or_false] at letter
    rcases letter with rfl | rfl | rfl <;> exact of_decide_eq_true rfl
  · exact Nat.lt_trans known (by decide)
  · exact Nat.lt_trans slot (by decide)
  · exact Nat.lt_of_le_of_lt small quantity
  · exact Nat.lt_trans price (by decide)
  · cases side : r.side <;> simp only [itchMessage, side] <;> decide

end HftExchange
