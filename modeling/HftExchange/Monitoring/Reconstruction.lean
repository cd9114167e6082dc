import HftExchange.Monitoring.Mirror

set_option autoImplicit false

namespace HftExchange.Monitoring

open Base

section
variable {τ : Type}

theorem receive_append (book : Book τ) (first second : List (ItchMessage × τ)) :
    book.receive (first ++ second) = (book.receive first).receive second := List.foldl_append

theorem set_receive_append (set : BookSet τ) (first second : List (ItchMessage × τ)) :
    set.receive (first ++ second) = (set.receive first).receive second := List.foldl_append

theorem book_apply (set : BookSet τ) (msg : ItchMessage) (now : τ) (inst : Nat) :
    (set.apply msg now).book inst = if msg.stockLocate = inst then (set.book inst).apply msg now
      else set.book inst := by
  by_cases here : msg.stockLocate = inst
  · subst here
    simp only [BookSet.apply, BookSet.book, AList.lookup_insert, if_true, Option.getD_some]
  · rw [if_neg here]
    simp only [BookSet.apply, BookSet.book, AList.lookup_insert_ne (Ne.symm here)]

theorem book_receive (set : BookSet τ) (feed : List (ItchMessage × τ)) (inst : Nat) :
    (set.receive feed).book inst = (set.book inst).receive (feed.filter fun m => m.1.stockLocate = inst) := by
  induction feed generalizing set with
  | nil => rfl
  | cons m rest ih =>
      have next := ih (set.apply m.1 m.2)
      rw [book_apply] at next
      by_cases here : m.1.stockLocate = inst
      · rw [if_pos here] at next
        rw [List.filter_cons_of_pos (by simpa using here)]
        exact next
      · rw [if_neg here] at next
        rw [List.filter_cons_of_neg (by simpa using here)]
        exact next

theorem execution_consistent (book : Book τ) (o : Order) (price qty : Nat) (now : τ)
    (consistent : Consistent book) :
    Consistent (book.apply (itchMessage 'E' o price qty) now) :=
  apply_consistent book (itchMessage 'E' o price qty) now consistent fun impossible =>
    absurd impossible (show ascii 'E' ≠ ascii 'A' by decide)

theorem cancel_consistent (book : Book τ) (o : Order) (price qty : Nat) (now : τ)
    (consistent : Consistent book) :
    Consistent (book.apply (itchMessage 'X' o price qty) now) :=
  apply_consistent book (itchMessage 'X' o price qty) now consistent fun impossible =>
    absurd impossible (show ascii 'X' ≠ ascii 'A' by decide)

theorem trace_mirrors (resting final : Resting) (n : Order) (events : List Event)
    (trace : MatchTrace resting n events final)
    (book : Book τ) (feed : List (ItchMessage × τ)) (mirrors : Mirrors resting book)
    (consistent : Consistent book)
    (distinct : (ids resting).Nodup) (fresh : n.internalId ∉ ids resting)
    (delivered : feed.map Prod.fst = itchSequence (events.flatMap Event.outputs)) :
    Mirrors final (book.receive feed) ∧ Consistent (book.receive feed) := by
  induction trace generalizing book feed with
  | ended resting next n event step =>
      cases step with
      | reject r live best same =>
          cases List.map_eq_nil_iff.mp delivered
          exact ⟨mirrors, consistent⟩
      | filled spent =>
          cases List.map_eq_nil_iff.mp delivered
          exact ⟨mirrors, consistent⟩
      | rest live absent =>
          rw [List.flatMap_singleton, itch_rest] at delivered
          obtain ⟨⟨msg, now⟩, rfl, same⟩ := List.map_eq_singleton_iff.mp delivered
          cases same
          exact ⟨rest_mirrors resting book n now mirrors fresh,
            apply_consistent book (itchMessage 'A' n n.price n.quantity) now consistent fun _ => live⟩
  | traded resting next final n left event events step rest ih =>
      cases step with
      | trade r live best other =>
          have inside := best_opposite_mem n r resting best
          rw [List.flatMap_cons, itch_append, itch_trade] at delivered
          obtain ⟨first, later, rfl, now_, then_⟩ := List.map_eq_append_iff.mp delivered
          obtain ⟨⟨_, made⟩, tail, rfl, rfl, rest_⟩ := List.map_eq_cons_iff.mp now_
          obtain ⟨⟨_, taken⟩, rfl, same⟩ := List.map_eq_singleton_iff.mp rest_
          cases same
          have freshAfter : n.internalId ∉ ids (settle resting r.internalId (tradeQty n r)) := fun member =>
            fresh (settle_ids_subset _ _ _ _ member)
          have maker := maker_mirrors resting book r r.price (tradeQty n r) made mirrors distinct inside
          have taker := taker_mirrors _ _ n r.price (tradeQty n r) taken maker freshAfter
          have reported := execution_consistent book r r.price (tradeQty n r) made consistent
          rw [receive_append]
          refine ih _ later taker ?_ (settle_distinct resting r _ distinct inside) freshAfter then_
          exact execution_consistent _ n r.price (tradeQty n r) taken reported

def SetMirrors (books : Nat → Resting) (set : BookSet τ) : Prop :=
  ∀ inst, Mirrors (books inst) (set.book inst) ∧ Consistent (set.book inst)

theorem filter_located (feed : List (ItchMessage × τ)) (target inst : Nat)
    (located : ∀ msg ∈ feed.map Prod.fst, msg.stockLocate = target) :
    (feed.filter fun m => m.1.stockLocate = inst) = if inst = target then feed else [] := by
  have each : ∀ m ∈ feed, m.1.stockLocate = target := fun m member => located m.1 (List.mem_map_of_mem member)
  by_cases same : inst = target
  · rw [if_pos same, List.filter_eq_self]
    exact fun m member => by simpa [same] using each m member
  · rw [if_neg same, List.filter_eq_nil_iff]
    intro m member
    simpa [each m member] using Ne.symm same

theorem set_mirrors_update (books : Nat → Resting) (set : BookSet τ) (feed : List (ItchMessage × τ))
    (target : Nat) (final : Resting)
    (mirrors : SetMirrors books set) (located : ∀ msg ∈ feed.map Prod.fst, msg.stockLocate = target)
    (changed : Mirrors final ((set.book target).receive feed) ∧ Consistent ((set.book target).receive feed)) :
    SetMirrors (Function.update books target final) (set.receive feed) := by
  intro inst
  rw [book_receive, filter_located feed target inst located]
  by_cases same : inst = target
  · subst same
    rw [if_pos rfl, Function.update_self]
    exact changed
  · rw [if_neg same, Function.update_of_ne same]
    exact mirrors inst

theorem change_mirrors (shard : Shard) (books books' : Nat → Resting) (op : ShardOp) (events : List Event)
    (rep : ShardRep shard books allQuiet) (change : ShardChange books op events books')
    (set : BookSet τ) (feed : List (ItchMessage × τ))
    (mirrors : SetMirrors books set)
    (delivered : feed.map Prod.fst = itchSequence (events.flatMap Event.outputs)) :
    SetMirrors books' (set.receive feed) := by
  cases change with
  | matched o events final trace fresh =>
      have located := trace_locate o.instrumentId _ _ o events trace
        (fun r inside => (rep.placed _ r inside).1) rfl
      refine set_mirrors_update books set feed o.instrumentId final mirrors (delivered ▸ located) ?_
      exact trace_mirrors _ _ o events trace _ feed (mirrors _).1 (mirrors _).2
        (rep.each _).distinct (fresh _) delivered
  | canceled r inside =>
      rw [List.flatMap_singleton, itch_cancel] at delivered
      obtain ⟨⟨msg, now⟩, rfl, same⟩ := List.map_eq_singleton_iff.mp delivered
      cases same
      refine set_mirrors_update books set _ r.instrumentId _ mirrors (by simp) ⟨?_, ?_⟩
      · exact cancel_mirrors _ _ r now (mirrors _).1
      · exact cancel_consistent _ r r.price r.quantity now (mirrors _).2
  | ignored idx token stale =>
      cases List.map_eq_nil_iff.mp delivered
      exact mirrors

theorem initial_set_mirrors : SetMirrors (fun _ => []) (BookSet.init : BookSet τ) := by
  intro inst
  refine ⟨fun ref v => ?_, initial_book_consistent inst⟩
  simp [BookSet.book, BookSet.init, Book.init, Book.known]

theorem shard_run_mirrors (id : Nat) (ops : List ShardOp) (shard : Shard)
    (run : ShardRun (.init id) ops shard) :
    ∃ books, ShardRep shard books allQuiet ∧ ∀ feed : List (ItchMessage × τ),
      feed.map Prod.fst = itchSequence shard.shared.out →
      SetMirrors books (BookSet.init.receive feed) := by
  refine run_invariant (fun shard => ∃ books, ShardRep shard books allQuiet ∧ ∀ feed : List (ItchMessage × τ),
    feed.map Prod.fst = itchSequence shard.shared.out → SetMirrors books (BookSet.init.receive feed))
    ⟨_, initial_shard_rep id, fun feed delivered => ?_⟩ ?_ ops shard run
  · cases List.map_eq_nil_iff.mp delivered
    exact initial_set_mirrors
  · rintro shard op next ⟨books, rep, mirrors⟩ step
    obtain ⟨events, books', rep', _, change, out⟩ := shard_step_refines shard next books op rep step
    refine ⟨books', rep', fun feed delivered => ?_⟩
    rw [out, itch_append] at delivered
    obtain ⟨first, later, rfl, before, after⟩ := List.map_eq_append_iff.mp delivered
    rw [set_receive_append]
    exact change_mirrors shard books books' op events rep change _ later (mirrors first before) after

theorem same_side_iff (first second : Side) :
    sameSide (sideByte first) (sideByte second) ↔ first = second := by
  cases first <;> cases second <;> decide

theorem mirrors_level_total (resting : Resting) (book : Book τ) (mirrors : Mirrors resting book)
    (distinct : (ids resting).Nodup)
    (side : Side) (p : Nat) (weight : BookOrder τ → Int) (amount : Order → Int)
    (same : ∀ r ∈ resting, ∀ touched, weight ⟨sideByte r.side, r.price, r.quantity, touched⟩ = amount r) :
    book.orders.total (fun _ o => if sameSide (sideByte side) o.side ∧ p = o.price then weight o else 0) =
      ((levelOrders resting side p).map amount).sum := by
  refine Dict.total_eq_sum _ book.orders (levelOrders resting side p) Order.internalId amount
    (level_ids_nodup resting side p distinct) (fun r member => ?_) fun ref o found nonzero => ?_
  · obtain ⟨inside, here⟩ := List.mem_filter.mp member
    obtain ⟨onSide, atPrice⟩ : r.side = side ∧ r.price = p := by simpa [onLevel] using here
    obtain ⟨touched, found⟩ := mirrors_known resting book mirrors r inside
    refine ⟨_, found, ?_⟩
    rw [if_pos ⟨(same_side_iff side r.side).mpr onSide.symm, atPrice.symm⟩]
    exact same r inside touched
  · obtain ⟨r, inside, rfl, seen⟩ := (mirrors ref o.view).mp (by simp [Book.known, found])
    obtain ⟨onSide, rest⟩ := Prod.mk.inj seen
    obtain ⟨atPrice, _⟩ := Prod.mk.inj rest
    have here : sameSide (sideByte side) o.side ∧ p = o.price := by
      by_contra away
      exact nonzero (if_neg away)
    rw [← onSide, same_side_iff, ← atPrice] at here
    exact List.mem_map_of_mem (List.mem_filter.mpr ⟨inside, by simp [onLevel, here.1, here.2]⟩)

theorem mirrors_levels (resting : Resting) (book : Book τ) (mirrors : Mirrors resting book)
    (consistent : Consistent book)
    (distinct : (ids resting).Nodup) (side : Side) (p : Nat) :
    (book.levels (sideByte side)).lookup p = summary p ((levelOrders resting side p).map fun r =>
      (r.quantity : Int)).sum
      (levelOrders resting side p).length := by
  have volume : volumeAt book.orders (sideByte side) p = ((levelOrders resting side p).map fun r =>
      (r.quantity : Int)).sum :=
    mirrors_level_total resting book mirrors distinct side p BookOrder.remaining _ fun _ _ _ => rfl
  have count : countAt book.orders (sideByte side) p = ((levelOrders resting side p).map fun _ =>
      (1 : Int)).sum :=
    mirrors_level_total resting book mirrors distinct side p (fun _ => 1) _ fun _ _ _ => rfl
  rw [consistent.levels, volume, count]
  simp

end

def engineLevel (shard : Shard) (inst : Nat) (side : Side) (p : Nat) : Option BookLevel :=
  summary p ((shard.slotsAt inst side p).map fun slot =>
    ((shard.shared.order slot).quantity : Int)).sum (shard.slotsAt inst side p).length

theorem level_at_eq (shard : Shard) (books : Nat → Resting) (rep : ShardRep shard books allQuiet)
    (inst : Nat) (side : Side) (p : Nat) :
    engineLevel shard inst side p = summary p ((levelOrders (books inst) side p).map fun r =>
      (r.quantity : Int)).sum
      (levelOrders (books inst) side p).length := by
  rw [engineLevel, slots_at_eq shard books allQuiet rep, levelIds, ids, List.map_map, List.length_map]
  congr 2
  refine List.map_congr_left fun r member => ?_
  have stored : shard.shared.order r.internalId = r :=
    (rep.each inst).stored r (List.mem_of_mem_filter member)
  simp [stored]

theorem level_at_none (shard : Shard) (inst : Nat) (side : Side) (p : Nat) :
    engineLevel shard inst side p = none ↔ shard.slotsAt inst side p = [] := by
  simp [engineLevel, summary]

theorem mem_levels_iff (shard : Shard) (inst : Nat) (side : Side) (levels : Dict Nat BookLevel)
    (exact_ : ∀ p, levels.lookup p = engineLevel shard inst side p) (p : Nat) :
    p ∈ levels.keys ↔ shard.slotsAt inst side p ≠ [] := by
  rw [← AList.mem_keys, ← AList.lookup_isSome, exact_ p, ne_eq, ← level_at_none, Option.isSome_iff_ne_none]

theorem best_bid_exact {τ : Type} (shard : Shard) (inst : Nat) (book : Book τ)
    (exact_ : ∀ p, book.bids.lookup p = engineLevel shard inst .buy p) :
    BestPrice shard inst .buy book.bestBid := by
  have keys := mem_levels_iff shard inst .buy book.bids exact_
  cases best : book.bestBid with
  | none =>
      intro p
      by_contra nonempty
      have empty : book.bids.keys = [] := List.max?_eq_none_iff.mp best
      simpa [empty] using (keys p).mpr nonempty
  | some p =>
      obtain ⟨member, most⟩ := List.max?_eq_some_iff.mp best
      refine ⟨(keys p).mp member, fun q nonempty => ?_⟩
      simpa [ahead] using most q ((keys q).mpr nonempty)

theorem best_ask_exact {τ : Type} (shard : Shard) (inst : Nat) (book : Book τ)
    (exact_ : ∀ p, book.asks.lookup p = engineLevel shard inst .sell p) :
    BestPrice shard inst .sell book.bestAsk := by
  have keys := mem_levels_iff shard inst .sell book.asks exact_
  cases best : book.bestAsk with
  | none =>
      intro p
      by_contra nonempty
      have empty : book.asks.keys = [] := List.min?_eq_none_iff.mp best
      simpa [empty] using (keys p).mpr nonempty
  | some p =>
      obtain ⟨member, least⟩ := List.min?_eq_some_iff.mp best
      refine ⟨(keys p).mp member, fun q nonempty => ?_⟩
      simpa [ahead] using least q ((keys q).mpr nonempty)

theorem reconstruction_exact {τ : Type} (id : Nat) (ops : List ShardOp) (shard : Shard)
    (run : ShardRun (.init id) ops shard)
    (feed : List (ItchMessage × τ)) (delivered : feed.map Prod.fst = itchSequence shard.shared.out)
    (inst : Nat) :
    (∀ ref v, ((BookSet.init.receive feed).book inst).known ref = some v ↔
      ∃ side p, ref ∈ shard.slotsAt inst side p ∧
      v = (sideByte side, p, ((shard.shared.order ref).quantity : Int))) ∧
    (∀ p, ((BookSet.init.receive feed).book inst).bids.lookup p = engineLevel shard inst .buy p) ∧
    (∀ p, ((BookSet.init.receive feed).book inst).asks.lookup p = engineLevel shard inst .sell p) ∧
    BestPrice shard inst .buy ((BookSet.init.receive feed).book inst).bestBid ∧
    BestPrice shard inst .sell ((BookSet.init.receive feed).book inst).bestAsk := by
  obtain ⟨books, rep, mirrored⟩ := shard_run_mirrors (τ := τ) id ops shard run
  obtain ⟨mirrors, consistent⟩ := mirrored feed delivered inst
  have levels : ∀ side p, (((BookSet.init.receive feed).book inst).levels (sideByte side)).lookup
      p = engineLevel shard inst side p := by
    intro side p
    rw [level_at_eq shard books rep,
      mirrors_levels (books inst) _ mirrors consistent (rep.each inst).distinct]
  refine ⟨fun ref v => ?_, levels .buy, levels .sell, best_bid_exact shard inst _ (levels .buy),
    best_ask_exact shard inst _ (levels .sell)⟩
  rw [mirrors ref v]
  constructor
  · rintro ⟨r, inside, rfl, rfl⟩
    have stored : shard.shared.order r.internalId = r := (rep.each inst).stored r inside
    refine ⟨r.side, r.price, ?_, by rw [stored]; rfl⟩
    rw [slots_at_eq shard books allQuiet rep, mem_level_ids]
    exact ⟨r, inside, rfl, rfl, rfl⟩
  · rintro ⟨side, p, member, rfl⟩
    obtain ⟨inside, own, onSide, atPrice⟩ := slots_at_order shard books allQuiet rep inst side p ref member
    exact ⟨shard.shared.order ref, inside, own, by rw [restingView, onSide, atPrice]⟩

-- A buy of fifteen takes the resting ten and rests with what is left; the
-- slot of the filled ask is used again for a bid.
def recycledOps : List ShardOp :=
  [.submit ⟨1, 11, 100, 10, 7, 3, 0, .sell⟩, .submit ⟨2, 12, 101, 15, 8, 3, 0, .buy⟩,
    .submit ⟨1, 13, 101, 4, 9, 3, 0, .buy⟩]

theorem recycled_reference_reconstructed :
    ∃ shard, ShardRun (.init 3) recycledOps shard ∧ shard.slotsAt 3 .buy 101 = [2, 1] ∧
    ((BookSet.init.receive ((itchSequence shard.shared.out).map fun m => (m, ()))).book
      3).bids.lookup 101 = some ⟨101, 9, 2⟩ := by
  obtain ⟨shard, result⟩ := Option.isSome_iff_exists.mp
    (show (execute ShardAdmissible shardStep (.init 3) recycledOps).isSome = true by decide +kernel)
  have left : (execute ShardAdmissible shardStep (.init 3) recycledOps).map
      (fun shard => (shard.slotsAt 3 .buy 101, engineLevel shard 3 .buy 101)) = some
        ([2, 1], some ⟨101, 9, 2⟩) := by decide +kernel
  have run : ShardRun (.init 3) recycledOps shard :=
    execute_run ShardAdmissible shardStep recycledOps _ shard result
  rw [result] at left
  obtain ⟨slots, level⟩ := Prod.mk.inj (Option.some.inj left)
  have all : ((itchSequence shard.shared.out).map fun m => (m, ())).map Prod.fst =
      itchSequence shard.shared.out := by
    rw [List.map_map]
    exact List.map_id _
  exact ⟨shard, run, slots, ((reconstruction_exact 3 recycledOps shard run _ all 3).2.1 101).trans level⟩

end HftExchange.Monitoring
