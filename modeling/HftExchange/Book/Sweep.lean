import HftExchange.Book.Priority

set_option autoImplicit false

namespace HftExchange

open Base

def ValidOrder (o : Order) : Prop := 0 < o.internalId ∧ o.internalId < maxOrdersLookup ∧ o.price < maxPrice

-- The state of one book represents the reference book. The slots in others
-- are live in other books of the shard.
structure BookRep (st : BookState) (book : Resting) (others : Slot → Prop)
    (pending : Side → Option Nat) : Prop where
  stored : ∀ r ∈ book, st.shared.order r.internalId = r
  distinct : (ids book).Nodup
  valid : ∀ r ∈ book, ValidOrder r
  positive : ∀ r ∈ book, 0 < r.quantity
  levels : LevelsRep st.shared.heap.links (fun side p => (st.book.ladder side).levels p) book
  marks : ∀ side, Marks (st.book.ladder side) side book (pending side)
  present : ∀ slot, slot ∈ ids book ∨ others slot → st.shared.ordersById slot = some slot
  absent : ∀ slot, slot ∉ ids book → ¬ others slot → st.shared.ordersById slot = none
  apart : ∀ slot ∈ ids book, ¬ others slot

def quiet : Side → Option Nat := fun _ => none

def pendingAt (side : Side) : MatchPc → Side → Option Nat
  | .inner p => Function.update quiet side.opposite (some p)
  | _ => quiet

def CursorAt (st : BookState) (n : Order) (book : Resting) : MatchPc → Prop
  | .outer none => ∀ r ∈ book, r.side ≠ n.side.opposite
  | .outer (some p) => (st.book.ladder n.side.opposite).cachedBest = p
  | .inner p => (st.book.ladder n.side.opposite).cachedBest = p ∧ crosses n.side p n.price = true
  | .finish => n.quantity = 0 ∨ bestOpposite n book = none
  | .done => True

structure MatchRep (st : BookState) (o : Slot) (n : Order) (book : Resting) (others : Slot → Prop)
    (pc : MatchPc) : Prop where
  rep : BookRep st book others (pendingAt n.side pc)
  hand : st.shared.order o = n
  self : n.internalId = o
  fresh : o ∉ ids book
  free : ¬ others o
  valid : ValidOrder n
  cursor : CursorAt st n book pc

def span : Side → Nat → Nat
  | .buy, p => maxPrice - p
  | .sell, p => p + 1

def openCount (n : Order) : Nat := if 0 < n.quantity then 1 else 0

theorem open_count_live (n : Order) (live : 0 < n.quantity) : openCount n = 1 := if_pos live

theorem open_count_spent (n : Order) (spent : n.quantity = 0) : openCount n = 0 := if_neg (by omega)

theorem open_count_le (n : Order) : openCount n ≤ 1 := by
  unfold openCount
  split <;> omega

def remaining (n : Order) (book : Resting) : MatchPc → Nat
  | .outer none => 2
  | .outer (some p) => 4 + book.length + openCount n + 2 * span n.side p
  | .inner p => 3 + book.length + openCount n + 2 * span n.side p
  | .finish => 1
  | .done => 0

-- A step of the sweep leaves every slot alone that is neither in this book
-- nor the incoming order's.
def HeapFrame (before after : Shared) (o : Slot) (book : Resting) : Prop :=
  ∀ slot, slot ∉ ids book → slot ≠ o → after.order slot = before.order slot ∧
    after.heap.links.next slot = before.heap.links.next slot ∧
      after.heap.links.prev slot = before.heap.links.prev slot

theorem heap_frame_refl (shared : Shared) (o : Slot) (book : Resting) : HeapFrame shared shared o book :=
  fun _ _ _ => ⟨rfl, rfl, rfl⟩

theorem book_length_bound (st : BookState) (book : Resting) (others : Slot → Prop)
    (pending : Side → Option Nat)
    (rep : BookRep st book others pending) : book.length ≤ maxOrdersLookup := by
  have within : ids book ⊆ List.range maxOrdersLookup := by
    intro slot member
    obtain ⟨r, inside, rfl⟩ := List.mem_map.mp member
    exact List.mem_range.mpr (rep.valid r inside).2.1
  have bound := (rep.distinct.subperm within).length_le
  simpa [ids] using bound

theorem level_head_best (st : BookState) (n : Order) (book : Resting) (others : Slot → Prop)
    (pending : Side → Option Nat)
    (p : Nat) (resting : Slot) (rep : BookRep st book others pending)
    (cursor : (st.book.ladder n.side.opposite).cachedBest = p) (crossed : crosses n.side p n.price = true)
    (head : ((st.book.ladder n.side.opposite).levels p).head = some resting) :
    ∃ r ∈ book, r.internalId = resting ∧ st.shared.order resting = r ∧
    r.side = n.side.opposite ∧ r.price = p ∧
      bestOpposite n book = some r := by
  have first : (levelIds book n.side.opposite p).head? = some resting :=
    (rep.levels n.side.opposite p).first.symm.trans head
  cases level : levelOrders book n.side.opposite p with
  | nil => simp [levelIds, ids, level] at first
  | cons r rest =>
      have same : r.internalId = resting := by simpa [levelIds, ids, level] using first
      have member : r ∈ levelOrders book n.side.opposite p := by simp [level]
      obtain ⟨inside, here⟩ := List.mem_filter.mp member
      have here : r.side = n.side.opposite ∧ r.price = p := by simpa [onLevel] using here
      refine ⟨r, inside, same, same ▸ rep.stored r inside, here.1, here.2, ?_⟩
      apply best_opposite_of_level n r book rest p level crossed
      exact fun s sInside onSide => cursor ▸ (rep.marks n.side.opposite).best s sInside onSide

theorem report_match_eq (shared : Shared) (n r : Order) :
    reportMatch shared n r = { shared with out := shared.out ++
      [itchOf 'E' r r.price (tradeQty n r), itchOf 'E' n r.price (tradeQty n r),
        dropCopyOf n r.price (tradeQty n r) (fillState n (tradeQty n r)),
        dropCopyOf r r.price (tradeQty n r) (fillState r (tradeQty n r)),
        ackOf n r.price (tradeQty n r) 'R', ackOf r r.price (tradeQty n r) 'A'] } := by
  have taker : (if r.quantity < n.quantity then OrderState.partialFill else .filled) = fillState n
      (tradeQty n r) := by
    unfold fillState tradeQty
    by_cases more : r.quantity < n.quantity
    · rw [if_pos more, if_neg (by omega)]
    · rw [if_neg more, if_pos (by omega)]
  have maker : (if n.quantity < r.quantity then OrderState.partialFill else .filled) = fillState r
      (tradeQty n r) := by
    unfold fillState tradeQty
    by_cases more : n.quantity < r.quantity
    · rw [if_pos more, if_neg (by omega)]
    · rw [if_neg more, if_pos (by omega)]
  simp [reportMatch, taker, maker, Shared.broadcast, Shared.sendDropCopy, Shared.sendAck,
    Shared.emit, itchOf, dropCopyOf,
    ackOf, tradeQty]

theorem trade_outputs_exhausted (n r : Order) (all : r.quantity ≤ n.quantity) :
    (Event.trade n r).outputs =
      [itchOf 'E' r r.price (tradeQty n r), itchOf 'E' n r.price (tradeQty n r),
        dropCopyOf n r.price (tradeQty n r) (fillState n (tradeQty n r)),
        dropCopyOf r r.price (tradeQty n r) (fillState r (tradeQty n r)),
        ackOf n r.price (tradeQty n r) 'R', ackOf r r.price (tradeQty n r) 'A'] ++
          [.release r.internalId] := by
  have exhausted : r.quantity ≤ tradeQty n r := by unfold tradeQty; omega
  simp [Event.outputs, exhausted]

theorem trade_outputs_partial (n r : Order) (more : n.quantity < r.quantity) :
    (Event.trade n r).outputs =
      [itchOf 'E' r r.price (tradeQty n r), itchOf 'E' n r.price (tradeQty n r),
        dropCopyOf n r.price (tradeQty n r) (fillState n (tradeQty n r)),
        dropCopyOf r r.price (tradeQty n r) (fillState r (tradeQty n r)),
        ackOf n r.price (tradeQty n r) 'R', ackOf r r.price (tradeQty n r) 'A'] := by
  have left : ¬ r.quantity ≤ tradeQty n r := by unfold tradeQty; omega
  simp [Event.outputs, left]

end HftExchange
