import HftExchange.Engine.DropCopy

set_option autoImplicit false

namespace HftExchange

open Base

theorem mem_settle_iff (book : Resting) (r : Order) (qty : Nat) (distinct : (ids book).Nodup)
    (inside : r ∈ book) (s : Order) :
    s ∈ settle book r.internalId qty ↔ s ∈ book ∧ s.internalId ≠ r.internalId ∨ s = reduced r qty ∧
    qty < r.quantity := by
  constructor
  · intro member
    obtain ⟨old, there, taken⟩ := List.mem_filterMap.mp member
    by_cases same : old.internalId = r.internalId
    · cases ids_injective book distinct old r there inside same
      by_cases all : r.quantity ≤ qty
      · simp [takeQuantity, all] at taken
      · rw [takeQuantity, if_pos rfl, if_neg all] at taken
        exact .inr ⟨(Option.some.inj taken).symm, Nat.lt_of_not_le all⟩
    · rw [takeQuantity, if_neg same] at taken
      cases Option.some.inj taken
      exact .inl ⟨there, same⟩
  · rintro (⟨there, apart⟩ | ⟨rfl, more⟩)
    · exact settle_keeps book r.internalId qty s there apart
    · exact settle_lowers book r qty inside more

def itchMessage (type : Char) (o : Order) (price qty : Nat) : ItchMessage :=
  ⟨ascii type, o.instrumentId, o.internalId, qty, price, sideByte o.side⟩

theorem itch_append (first second : List Output) :
    itchSequence (first ++ second) = itchSequence first ++ itchSequence second :=
  List.filterMap_append

theorem itch_trade (n r : Order) :
    itchSequence (Event.trade n r).outputs =
    [itchMessage 'E' r r.price (tradeQty n r), itchMessage 'E' n r.price (tradeQty n r)] := by
  by_cases all : r.quantity ≤ tradeQty n r <;> simp [itchSequence, Event.outputs, itchOf,
    dropCopyOf, ackOf, all, itchMessage]

theorem itch_rest (n : Order) : itchSequence (Event.rest n).outputs =
    [itchMessage 'A' n n.price n.quantity] := rfl

theorem itch_cancel (r : Order) : itchSequence (Event.cancel r).outputs =
    [itchMessage 'X' r r.price r.quantity] := rfl

theorem trace_locate (inst : Nat) (resting final : Resting) (n : Order) (events : List Event)
    (trace : MatchTrace resting n events final)
    (placed : ∀ r ∈ resting, r.instrumentId = inst) (own : n.instrumentId = inst) :
    ∀ msg ∈ itchSequence (events.flatMap Event.outputs), msg.stockLocate = inst := by
  induction trace with
  | ended resting next n event step =>
      cases step with
      | reject r live best same => simp [itchSequence, Event.outputs, dropCopyOf]
      | filled spent => simp [itchSequence, Event.outputs]
      | rest live absent => simpa [itch_rest, itchMessage] using own
  | traded resting next final n left event events step rest ih =>
      cases step with
      | trade r live best other =>
          have maker := placed r (best_opposite_mem n r resting best)
          have later := ih (fun s member => by
            obtain ⟨old, inside, rfl | rfl⟩ := settle_origin resting _ _ s member
            · exact placed s inside
            · exact placed old inside) own
          rw [List.flatMap_cons, itch_append, itch_trade]
          refine List.forall_mem_append.mpr ⟨?_, later⟩
          simpa [itchMessage] using ⟨maker, own⟩

end HftExchange
