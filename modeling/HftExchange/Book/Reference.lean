import HftExchange.Book.OrderBook

set_option autoImplicit false

namespace HftExchange

-- The reference book is one list of resting orders in order of arrival. It
-- has no levels, no bitmaps and no cached price.
abbrev Resting := List Order

def ahead : Side → Nat → Nat → Bool
  | .buy, p, q => q < p
  | .sell, p, q => p < q

def compatible (n r : Order) : Bool := r.side = n.side.opposite && crosses n.side r.price n.price

-- Of two compatible orders the later one is taken only for a better price.
def bestOpposite (n : Order) : Resting → Option Order
  | [] => none
  | r :: rest =>
      match bestOpposite n rest with
      | none => if compatible n r then some r else none
      | some b => if compatible n r && !ahead b.side b.price r.price then some r else some b

def takeQuantity (id qty : Nat) (r : Order) : Option Order :=
  if r.internalId = id then
    if r.quantity ≤ qty then none else some { r with quantity := r.quantity - qty }
  else some r

def settle (book : Resting) (id qty : Nat) : Resting := book.filterMap (takeQuantity id qty)

inductive Event where
  | trade (taker maker : Order)
  | reject (o : Order)
  | rest (o : Order)
  | filled (o : Order)
  | cancel (o : Order)
deriving DecidableEq, Repr

def tradeQty (taker maker : Order) : Nat := min taker.quantity maker.quantity

def itchOf (type : Char) (o : Order) (price qty : Nat) : Output :=
  .itch ⟨ascii type, o.instrumentId, o.internalId, qty, price, sideByte o.side⟩

def dropCopyOf (o : Order) (price qty : Nat) (state : OrderState) : Output :=
  .dropCopy ⟨o.clientOrderId, o.internalId, price, qty, o.instrumentId, state, o.side⟩

def ackOf (o : Order) (price qty : Nat) (flag : Char) : Output :=
  .ack o.workerId ⟨⟨ascii 'E', encodeOrderToken o.clientOrderId, qty, price, ascii flag,
    List.replicate 8 0⟩, o.clientId⟩

def fillState (o : Order) (qty : Nat) : OrderState := if o.quantity - qty = 0 then .filled else .partialFill

-- What each event makes visible. A maker that a trade exhausts gives up its
-- slot at once; the taker does so when the matching is over.
def Event.outputs : Event → List Output
  | .trade taker maker =>
      let qty := tradeQty taker maker
      [itchOf 'E' maker maker.price qty, itchOf 'E' taker maker.price qty,
        dropCopyOf taker maker.price qty (fillState taker qty), dropCopyOf maker maker.price qty
          (fillState maker qty),
        ackOf taker maker.price qty 'R', ackOf maker maker.price qty 'A'] ++
      (if maker.quantity ≤ qty then [.release maker.internalId] else [])
  | .reject o => [dropCopyOf o o.price o.quantity .rejected, .release o.internalId]
  | .rest o => [itchOf 'A' o o.price o.quantity, dropCopyOf o o.price o.quantity .new]
  | .filled o => [.release o.internalId]
  | .cancel o => [itchOf 'X' o o.price o.quantity, dropCopyOf o o.price o.quantity .canceled,
      .release o.internalId]

def reduced (n : Order) (qty : Nat) : Order := { n with quantity := n.quantity - qty }

theorem settle_origin (book : Resting) (id qty : Nat) (r : Order) (member : r ∈ settle book id qty) :
    ∃ old ∈ book, r = old ∨ r = reduced old qty := by
  obtain ⟨old, inside, taken⟩ := List.mem_filterMap.mp member
  refine ⟨old, inside, ?_⟩
  unfold takeQuantity at taken
  split at taken
  · split at taken
    · cases taken
    · exact .inr (Option.some.inj taken).symm
  · exact .inl (Option.some.inj taken).symm

theorem settle_length_le (book : Resting) (id qty : Nat) : (settle book id qty).length ≤ book.length :=
  List.length_filterMap_le _ _

theorem settle_length_lt (book : Resting) (r : Order) (member : r ∈ book) (qty : Nat)
    (all : r.quantity ≤ qty) :
    (settle book r.internalId qty).length < book.length := by
  induction book with
  | nil => cases member
  | cons head tail ih =>
      have bound := settle_length_le tail r.internalId qty
      simp only [settle] at bound ih
      rcases List.mem_cons.mp member with rfl | later
      · simp only [settle, List.filterMap_cons, takeQuantity, if_pos all, if_true, List.length_cons]
        omega
      · have shorter := ih later
        simp only [settle, List.filterMap_cons]
        split <;> simp only [List.length_cons] <;> omega

theorem best_opposite_mem (n r : Order) (book : Resting)
    (found : bestOpposite n book = some r) : r ∈ book := by
  induction book with
  | nil => cases found
  | cons head tail ih =>
      simp only [bestOpposite] at found
      cases rest : bestOpposite n tail with
      | none =>
          rw [rest] at found
          simp only [Option.ite_none_right_eq_some, Option.some.injEq] at found
          simp [found.2]
      | some b =>
          rw [rest] at found
          simp only at found
          split at found
          · simp [Option.some.inj found]
          · exact List.mem_cons_of_mem _ (ih (rest.trans found))

-- The incoming order repeatedly takes the best compatible resting order. A
-- resting order of the same client stops it and rejects what is left of it.
def referenceMatch (book : Resting) (n : Order) : Resting × List Event :=
  if n.quantity = 0 then (book, [.filled n])
  else match _found : bestOpposite n book with
    | none => (book ++ [n], [.rest n])
    | some r =>
        if r.clientId = n.clientId then (book, [.reject n])
        else
          let result := referenceMatch (settle book r.internalId (tradeQty n r)) (reduced n (tradeQty n r))
          (result.1, .trade n r :: result.2)
termination_by book.length + n.quantity
decreasing_by
  have member := best_opposite_mem n r book _found
  have shorter := settle_length_le book r.internalId (tradeQty n r)
  simp only [reduced, tradeQty] at shorter ⊢
  by_cases exhausted : r.quantity ≤ min n.quantity r.quantity
  · have removed := settle_length_lt book r member _ exhausted
    omega
  · omega

def referenceCancel (book : Resting) (id : Nat) : Resting × List Event :=
  match book.find? (fun r => r.internalId = id) with
  | none => (book, [])
  | some r => (book.filter (fun r => r.internalId ≠ id), [.cancel r])

inductive MatchEvent (book : Resting) (n : Order) : Event → Resting → Option Order → Prop where
  | trade (r : Order) (live : 0 < n.quantity) (best : bestOpposite n book = some r)
      (other : r.clientId ≠ n.clientId) :
      MatchEvent book n (.trade n r) (settle book r.internalId (tradeQty n r))
        (some (reduced n (tradeQty n r)))
  | reject (r : Order) (live : 0 < n.quantity) (best : bestOpposite n book = some r)
      (same : r.clientId = n.clientId) :
      MatchEvent book n (.reject n) book none
  | rest (live : 0 < n.quantity) (absent : bestOpposite n book = none) : MatchEvent book n (.rest n)
      (book ++ [n]) none
  | filled (spent : n.quantity = 0) : MatchEvent book n (.filled n) book none

def continueMatch (book : Resting) : Option Order → Resting × List Event
  | some n => referenceMatch book n
  | none => (book, [])

theorem reference_match_step (book next : Resting) (n : Order) (event : Event) (left : Option Order)
    (step : MatchEvent book n event next left) :
    referenceMatch book n = ((continueMatch next left).1, event :: (continueMatch next left).2) := by
  rw [referenceMatch]
  cases step with
  | trade r live best other =>
      rw [if_neg (by omega)]
      split
      · simp_all
      · rename_i found
        cases best.symm.trans found
        rw [if_neg other]
        rfl
  | reject r live best same =>
      rw [if_neg (by omega)]
      split
      · simp_all
      · rename_i found
        cases best.symm.trans found
        rw [if_pos same]
        rfl
  | rest live absent =>
      rw [if_neg (by omega)]
      split
      · rfl
      · simp_all
  | filled spent => rw [if_pos spent, continueMatch]

inductive MatchTrace : Resting → Order → List Event → Resting → Prop where
  | ended (book next : Resting) (n : Order) (event : Event) (step : MatchEvent book n event next none) :
      MatchTrace book n [event] next
  | traded (book next final : Resting) (n left : Order) (event : Event) (events : List Event)
      (step : MatchEvent book n event next (some left)) (rest : MatchTrace next left events final) :
      MatchTrace book n (event :: events) final

theorem reference_match_trace (book : Resting) (n : Order) :
    MatchTrace book n (referenceMatch book n).2 (referenceMatch book n).1 := by
  induction book, n using referenceMatch.induct with
  | case1 book n spent =>
      have step : MatchEvent book n (.filled n) book none := .filled spent
      rw [reference_match_step _ _ _ _ _ step]
      exact .ended _ _ _ _ step
  | case2 book n live absent =>
      have step := MatchEvent.rest (Nat.pos_of_ne_zero live) absent
      rw [reference_match_step _ _ _ _ _ step]
      exact .ended _ _ _ _ step
  | case3 book n live r best same =>
      have step := MatchEvent.reject r (Nat.pos_of_ne_zero live) best same
      rw [reference_match_step _ _ _ _ _ step]
      exact .ended _ _ _ _ step
  | case4 book n live r best other ih =>
      have step := MatchEvent.trade r (Nat.pos_of_ne_zero live) best other
      rw [reference_match_step _ _ _ _ _ step]
      exact .traded _ _ _ _ _ _ _ step ih

end HftExchange
