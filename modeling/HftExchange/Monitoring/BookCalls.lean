import HftExchange.Monitoring.Eviction

set_option autoImplicit false

namespace HftExchange.Monitoring

open Base

section
variable {τ : Type}

inductive BookCall (τ : Type) where
  | apply (msg : ItchMessage) (now : τ)
  | evictStale (now ttl : τ)
  | repairCrossed

-- An added order has a side and at least one share. Nothing is asked of the
-- other messages, nor of the order in which they come.
def BookCall.WellFormed : BookCall τ → Prop
  | .apply msg _ => msg.msgType = ascii 'A' → (msg.side = ascii 'B' ∨ msg.side = ascii 'S') ∧ 1 ≤ msg.shares
  | .evictStale _ _ => True
  | .repairCrossed => True

instance (call : BookCall τ) : Decidable call.WellFormed :=
  match call with
  | .apply _ _ => inferInstanceAs (Decidable (_ → _))
  | .evictStale _ _ => inferInstanceAs (Decidable True)
  | .repairCrossed => inferInstanceAs (Decidable True)

def Book.call [Sub τ] [LT τ] [DecidableLT τ] (book : Book τ) : BookCall τ → Book τ
  | .apply msg now => book.apply msg now
  | .evictStale now ttl => (book.evictStale now ttl).1
  | .repairCrossed => book.repairCrossed.1

def Book.restingAt (book : Book τ) (sideChar : Byte) (price : Nat) : List (BookOrder τ) :=
  (book.orders.entries.map Sigma.snd).filter fun o => o.side = sideChar ∧ o.price = price

def aggregate (price : Nat) (orders : List (BookOrder τ)) : Option BookLevel :=
  if orders = [] then none else some ⟨price, (orders.map BookOrder.remaining).sum, orders.length⟩

def Sided (book : Book τ) : Prop :=
  ∀ ref o, book.orders.lookup ref = some o → o.side = ascii 'B' ∨ o.side = ascii 'S'

structure Aggregated (book : Book τ) : Prop where
  positive : AllPositive book.orders
  sided : Sided book
  bids : ∀ p, book.bids.lookup p = aggregate p (book.restingAt (ascii 'B') p)
  asks : ∀ p, book.asks.lookup p = aggregate p (book.restingAt (ascii 'S') p)

theorem same_side_of_sided (c d : Byte) (left : c = ascii 'B' ∨ c = ascii 'S')
    (right : d = ascii 'B' ∨ d = ascii 'S') :
    sameSide c d ↔ d = c := by
  rcases left with rfl | rfl <;> rcases right with rfl | rfl <;> decide

theorem total_resting (book : Book τ) (sided : Sided book) (c : Byte) (p : Nat)
    (letter : c = ascii 'B' ∨ c = ascii 'S')
    (weight : BookOrder τ → Int) :
    book.orders.total (fun _ o => if sameSide c o.side ∧ p = o.price then weight o else 0) =
    ((book.restingAt c p).map weight).sum := by
  have each : ∀ entry ∈ book.orders.entries, entry.2.side = ascii 'B' ∨ entry.2.side = ascii 'S' :=
      fun entry inside =>
    sided entry.1 entry.2 ((Dict.mem_entries_iff _ _ _).mp inside)
  unfold Dict.total Book.restingAt
  generalize book.orders.entries = entries at each
  induction entries with
  | nil => rfl
  | cons entry rest ih =>
      have later := ih fun other inside => each other (List.mem_cons_of_mem _ inside)
      have same := same_side_of_sided c entry.2.side letter (each entry List.mem_cons_self)
      rw [List.map_cons, List.sum_cons, later, List.map_cons, List.filter_cons]
      dsimp only
      by_cases here : entry.2.side = c ∧ entry.2.price = p
      · rw [if_pos ⟨same.mpr here.1, here.2.symm⟩, if_pos (by simpa using here), List.map_cons, List.sum_cons]
      · rw [if_neg fun there => here ⟨same.mp there.1, there.2.symm⟩,
          if_neg (by simpa using here), Int.zero_add]

theorem summary_aggregate (book : Book τ) (sided : Sided book) (c : Byte) (p : Nat)
    (letter : c = ascii 'B' ∨ c = ascii 'S') :
    summary p (volumeAt book.orders c p) (countAt book.orders c p) = aggregate p (book.restingAt c p) := by
  have volume := total_resting book sided c p letter BookOrder.remaining
  have count := total_resting book sided c p letter fun _ => 1
  rw [List.map_const', List.sum_replicate, nsmul_eq_mul, mul_one] at count
  rw [volumeAt, countAt, volume, count, summary, aggregate]
  by_cases empty : book.restingAt c p = []
  · rw [if_pos empty, if_pos (by simp [empty])]
  · rw [if_neg empty, if_neg (by simpa using empty)]

theorem consistent_aggregated (book : Book τ) (consistent : Consistent book) (sided : Sided book) :
    Aggregated book := by
  refine ⟨consistent.positive, sided, fun p => ?_, fun p => ?_⟩
  · rw [← summary_aggregate book sided (ascii 'B') p (.inl rfl)]
    exact consistent.levels (ascii 'B') p
  · rw [← summary_aggregate book sided (ascii 'S') p (.inr rfl)]
    exact consistent.levels (ascii 'S') p

structure BookInv (book : Book τ) : Prop where
  consistent : Consistent book
  sided : Sided book

theorem initial_book_inv (inst : Nat) : BookInv (Book.init inst : Book τ) :=
  ⟨initial_book_consistent inst, fun ref o found => by simp [Book.init] at found⟩

theorem remove_order_inv (book : Book τ) (ref : Nat) (inv : BookInv book) :
    BookInv (book.removeOrder ref) := by
  refine ⟨remove_order_consistent book ref inv.consistent, fun other o found => ?_⟩
  rw [remove_order_lookup] at found
  split at found
  · cases found
  · exact inv.sided other o found

theorem apply_inv (book : Book τ) (msg : ItchMessage) (now : τ) (inv : BookInv book)
    (formed : (BookCall.apply msg now).WellFormed) :
    BookInv (book.apply msg now) := by
  refine ⟨apply_consistent book msg now inv.consistent fun add => (formed add).2, fun ref o found => ?_⟩
  rw [apply_lookup] at found
  by_cases own : ref = msg.internalId
  · rw [if_pos own, afterMessage] at found
    by_cases add : msg.msgType = ascii 'A'
    · rw [if_pos add] at found
      cases found
      exact (formed add).1
    by_cases execute : msg.msgType = ascii 'E'
    · rw [if_neg add, if_pos execute] at found
      obtain ⟨old, known, left⟩ := Option.bind_eq_some_iff.mp found
      split at left
      · cases left
      · cases left
        exact inv.sided ref old known
    by_cases cancel : msg.msgType = ascii 'X'
    · rw [if_neg add, if_neg execute, if_pos cancel] at found
      cases found
    · rw [if_neg add, if_neg execute, if_neg cancel] at found
      exact inv.sided ref o found
  · rw [if_neg own] at found
    exact inv.sided ref o found

theorem evict_inv (book : Book τ) (stale : List Nat) (inv : BookInv book) :
    BookInv (stale.foldl Book.removeOrder book) := by
  induction stale generalizing book with
  | nil => exact inv
  | cons ref rest ih => exact ih (book.removeOrder ref) (remove_order_inv book ref inv)

theorem remove_order_size (book : Book τ) (ref : Nat) (o : BookOrder τ)
    (found : book.orders.lookup ref = some o) :
    (book.removeOrder ref).orders.keys.length + 1 = book.orders.keys.length := by
  have inside : ref ∈ book.orders.keys := AList.mem_keys.mp (AList.lookup_isSome.mp (by simp [found]))
  have some_ := List.length_pos_of_mem inside
  rw [remove_order_orders book ref o found, AList.keys_erase, List.length_erase_of_mem inside]
  omega

variable [LT τ] [DecidableLT τ]

theorem oldest_member (candidates : List (τ × Nat)) :
    (Book.oldest candidates = none → candidates = []) ∧
    ∀ best, Book.oldest candidates = some best → best ∈ candidates := by
  induction candidates with
  | nil => exact ⟨fun _ => rfl, fun best found => by cases found⟩
  | cons first rest ih =>
      cases found : Book.oldest rest with
      | none => simp [Book.oldest, found]
      | some older =>
          simp only [Book.oldest, found]
          split
          · refine ⟨fun absent => absurd absent (Option.some_ne_none _), fun best same => ?_⟩
            cases same
            exact List.mem_cons_of_mem _ (ih.2 older found)
          · refine ⟨fun absent => absurd absent (Option.some_ne_none _), fun best same => ?_⟩
            cases same
            exact List.mem_cons_self

-- The repair stops only at a book that is not crossed: the best bid of a
-- crossed one is the price of an order that the next iteration may evict.
theorem first_evicted_none (book : Book τ) (inv : BookInv book) :
    book.firstEvicted = none ↔ ¬ Crossed book := by
  unfold Book.firstEvicted Crossed
  cases bid : book.bestBid with
  | none => simp
  | some p =>
      cases ask : book.bestAsk with
      | none => simp
      | some q =>
          by_cases apart : p < q
          · simp [apart]
          · obtain ⟨ref, e, found, side, price⟩ := best_bid_order book inv.consistent p bid
            have member := mem_crossing book p q ref e found (.inl ⟨side, by omega⟩)
            have some_ : Book.oldest (book.crossing p q) ≠ none := fun none_ => by
              simp [(oldest_member _).1 none_] at member
            simp only [if_neg apart, Option.map_eq_none_iff, some_, false_iff, not_not]
            exact ⟨p, q, rfl, rfl, Nat.le_of_not_lt apart⟩

theorem first_evicted_known (book : Book τ) (ref : Nat) (evicted : book.firstEvicted = some ref) :
    ∃ o, book.orders.lookup ref = some o := by
  unfold Book.firstEvicted at evicted
  split at evicted
  · rename_i p q _ _
    split at evicted
    · cases evicted
    · obtain ⟨entry, oldest_, rfl⟩ := Option.map_eq_some_iff.mp evicted
      obtain ⟨o, found, _⟩ := crossing_spec book p q entry ((oldest_member _).2 entry oldest_)
      exact ⟨o, found⟩
  · cases evicted

theorem repair_loop_spec (book : Book τ) (evicted left : Nat) (inv : BookInv book) :
    BookInv (book.repairLoop evicted left).1 ∧ (book.repairLoop evicted left).2 ≤ evicted + left ∧
    (book.repairLoop evicted left).1.orders.keys.length + (book.repairLoop evicted left).2 =
      book.orders.keys.length + evicted ∧
    ((book.repairLoop evicted left).2 < evicted + left → ¬ Crossed (book.repairLoop evicted left).1) := by
  induction left generalizing book evicted with
  | zero => exact ⟨inv, Nat.le_refl _, rfl, fun fewer => absurd fewer (Nat.lt_irrefl _)⟩
  | succ left ih =>
      unfold Book.repairLoop
      cases next : book.firstEvicted with
      | none => exact ⟨inv, by simp, rfl, fun _ => (first_evicted_none book inv).mp next⟩
      | some ref =>
          obtain ⟨o, found⟩ := first_evicted_known book ref next
          have size := remove_order_size book ref o found
          obtain ⟨inv', most, count, uncrossed⟩ := ih (book.removeOrder ref) (evicted + 1)
            (remove_order_inv book ref inv)
          dsimp only
          exact ⟨inv', by omega, by omega, fun fewer => uncrossed (by omega)⟩

variable [Sub τ]

theorem call_inv (book : Book τ) (call : BookCall τ) (inv : BookInv book)
    (formed : call.WellFormed) : BookInv (book.call call) := by
  cases call with
  | apply msg now => exact apply_inv book msg now inv formed
  | evictStale now ttl => exact evict_inv book _ inv
  | repairCrossed => exact (repair_loop_spec book 0 64 inv).1

theorem calls_inv (book : Book τ) (calls : List (BookCall τ)) (inv : BookInv book)
    (formed : ∀ call ∈ calls, call.WellFormed) :
    BookInv (calls.foldl Book.call book) := by
  induction calls generalizing book with
  | nil => exact inv
  | cons call rest ih =>
      exact ih (book.call call) (call_inv book call inv (formed call List.mem_cons_self)) fun other member =>
        formed other (List.mem_cons_of_mem _ member)

structure Repairs (before after : Book τ) (evicted : Nat) : Prop where
  bounded : evicted ≤ 64
  removed : after.orders.keys.length + evicted = before.orders.keys.length
  untouched : ¬ Crossed before → after = before ∧ evicted = 0
  uncrosses : evicted < 64 → ¬ Crossed after

theorem book_always_aggregated (inst : Nat) (calls : List (BookCall τ))
    (formed : ∀ call ∈ calls, call.WellFormed) :
    Aggregated (calls.foldl Book.call (.init inst)) ∧
    Repairs (calls.foldl Book.call (.init inst)) (calls.foldl Book.call (.init inst)).repairCrossed.1
      (calls.foldl Book.call (.init inst)).repairCrossed.2 := by
  have inv := calls_inv (.init inst) calls (initial_book_inv inst) formed
  generalize calls.foldl Book.call (.init inst) = book at inv
  obtain ⟨_, most, count, uncrossed⟩ := repair_loop_spec book 0 64 inv
  refine ⟨consistent_aggregated book inv.consistent inv.sided, most, count, fun straight => ?_, uncrossed⟩
  have stops := (first_evicted_none book inv).mpr straight
  simp [Book.repairCrossed, Book.repairLoop, stops]

end

-- An order is executed for more than it has, its reference is added again on
-- the other side, and a later bid crosses it.
def roughFeed : List (BookCall Nat) :=
  [.apply ⟨ascii 'A', 4, 1, 10, 100, ascii 'B'⟩ 1, .apply ⟨ascii 'E', 4, 1, 12, 100, ascii 'B'⟩ 2,
    .apply ⟨ascii 'A', 4, 1, 7, 101, ascii 'S'⟩ 3, .apply ⟨ascii 'X', 4, 9, 0, 0, ascii 'S'⟩ 4,
    .apply ⟨ascii 'A', 4, 2, 3, 102, ascii 'B'⟩ 5, .evictStale 6 100]

theorem rough_feed_repaired :
    Aggregated (roughFeed.foldl Book.call (.init 4)) ∧
    Repairs (roughFeed.foldl Book.call (.init 4)) (roughFeed.foldl Book.call (.init 4)).repairCrossed.1
      (roughFeed.foldl Book.call (.init 4)).repairCrossed.2 :=
  book_always_aggregated 4 roughFeed (by decide)

end HftExchange.Monitoring
