import HftExchange.Book.MatchRefine

set_option autoImplicit false

namespace HftExchange

open Base

theorem slot_apart (st : BookState) (o : Slot) (n r : Order) (book : Resting)
    (others : Slot → Prop) (pc : MatchPc)
    (inv : MatchRep st o n book others pc) (inside : r ∈ book) : r.internalId ≠ o :=
  fun same => inv.fresh (same ▸ List.mem_map_of_mem inside)

theorem fill_head_exhausted (st : BookState) (o : Slot) (n r : Order) (level : Limit)
    (hand : st.shared.order o = n)
    (stored : st.shared.order r.internalId = r) (valid : ValidOrder r) (all : r.quantity ≤ n.quantity) :
    fillHead st.shared level o r.internalId = .ok
      ({ heap := { order := Function.update st.shared.heap.order o (reduced n (tradeQty n r))
                   links := (level.remove st.shared.heap.links r.internalId).2 }
         ordersById := Function.update st.shared.ordersById r.internalId none
         out := st.shared.out ++ (Event.trade n r).outputs },
        (level.remove st.shared.heap.links r.internalId).1) := by
  have qty : tradeQty n r = r.quantity := by unfold tradeQty; omega
  have handHeap : st.shared.heap.order o = n := hand
  have storedHeap : st.shared.heap.order r.internalId = r := stored
  simp [fillHead, all, report_match_eq, Shared.setQuantity, Shared.setOrder, Shared.order, handHeap,
    storedHeap, Shared.setById,
    valid.2.1, Shared.setLinks, Shared.deallocate, Shared.emit, trade_outputs_exhausted n r all, reduced, qty]

theorem fill_head_partial (st : BookState) (o : Slot) (n r : Order) (level : Limit)
    (hand : st.shared.order o = n)
    (stored : st.shared.order r.internalId = r) (different : r.internalId ≠ o)
    (more : n.quantity < r.quantity) :
    fillHead st.shared level o r.internalId = .ok
      ({ st.shared with
         heap := { st.shared.heap with
           order := Function.update
             (Function.update st.shared.heap.order r.internalId (reduced r (tradeQty n r))) o
             (reduced n (tradeQty n r)) }
         out := st.shared.out ++ (Event.trade n r).outputs },
        level) := by
  have qty : tradeQty n r = n.quantity := by unfold tradeQty; omega
  have handHeap : st.shared.heap.order o = n := hand
  have storedHeap : st.shared.heap.order r.internalId = r := stored
  simp [fillHead, Nat.not_le.mpr more, report_match_eq, Shared.setQuantity, Shared.setOrder,
    Shared.order, handHeap,
    storedHeap, Function.update_of_ne (Ne.symm different), trade_outputs_partial n r more, reduced, qty]

theorem exhausted_step (st : BookState) (o : Slot) (n r : Order) (book : Resting)
    (others : Slot → Prop) (p : Nat)
    (inv : MatchRep st o n book others (.inner p))
    (head : ((st.book.ladder n.side.opposite).levels p).head = some r.internalId) (inside : r ∈ book)
    (onSide : r.side = n.side.opposite) (atPrice : r.price = p) (live : 0 < n.quantity)
    (best : bestOpposite n book = some r) (other : r.clientId ≠ n.clientId) (all : r.quantity ≤ n.quantity) :
    ∃ next after, matchStep st o (.inner p) = .ok (next, after) ∧ StepResult st o n book others
    (.inner p) next after := by
  have stored := inv.rep.stored r inside
  have bound : p < maxPrice := inv.cursor.1 ▸ (inv.rep.marks n.side.opposite).inside
  have exhausted : r.quantity ≤ tradeQty n r := by unfold tradeQty; omega
  have settled := settle_exhausted book r (tradeQty n r) inv.rep.distinct inside exhausted
  have apart := slot_apart st o n r book others _ inv inside
  have fill := fill_head_exhausted st o n r ((st.book.ladder n.side.opposite).levels p) inv.hand
    stored (inv.rep.valid r inside) all
  subst atPrice
  rw [← onSide] at fill head
  refine ⟨_, .inner r.price,
    by simp [matchStep, inv.hand, bound, ← onSide, head, live, stored, other, fill]; rfl, ?_⟩
  refine .traded r ?_ (.trade r live best other) rfl ?_ (by simp) ?_
  · intro slot outside different
    have links := removal_frame st book others _ r inv.rep inside slot outside
    exact ⟨by simp [Shared.order, different], links.1, links.2⟩
  · rw [settled]
    refine ⟨?_, by simp [Shared.order], inv.self, ?_, inv.free, inv.valid, ?_, inv.cursor.2⟩
    · refine book_rep_remove st _ book others (pendingAt n.side (.inner r.price)) _ r
        ((st.book.ladder r.side).setLevel r.price
          (((st.book.ladder r.side).levels r.price).remove st.shared.heap.links r.internalId).1)
        inv.rep inside rfl rfl ?_ (fun _ _ => rfl) rfl rfl ?_
      · apply marks_set_level
        apply marks_without _ r.side book (pendingAt n.side (.inner r.price) r.side) _ r
          (inv.rep.marks r.side) inv.rep.distinct inside
        · intro _
          constructor
          · simp [reduced, pendingAt, onSide]
          · exact .inr (by simp [pendingAt, onSide])
        · exact fun wrong => absurd rfl wrong
      · intro slot member different
        have away : slot ≠ o := fun same => inv.fresh (same ▸ member)
        simp [Shared.order, away]
    · rw [ids_without]
      exact fun member => inv.fresh (List.mem_of_mem_filter member)
    · simp only [reduced, ← onSide, set_ladder_self]
      exact onSide ▸ inv.cursor.1
  · have shorter := settle_length_lt book r inside _ exhausted
    have most := open_count_le (reduced n (tradeQty n r))
    have sameSide : (reduced n (tradeQty n r)).side = n.side := rfl
    simp only [remaining, open_count_live n live, sameSide]
    omega

theorem partial_step (st : BookState) (o : Slot) (n r : Order) (book : Resting)
    (others : Slot → Prop) (p : Nat)
    (inv : MatchRep st o n book others (.inner p))
    (head : ((st.book.ladder n.side.opposite).levels p).head = some r.internalId) (inside : r ∈ book)
    (live : 0 < n.quantity) (best : bestOpposite n book = some r) (other : r.clientId ≠ n.clientId)
    (more : n.quantity < r.quantity) :
    ∃ next after, matchStep st o (.inner p) = .ok (next, after) ∧ StepResult st o n book others
    (.inner p) next after := by
  have stored := inv.rep.stored r inside
  have bound : p < maxPrice := inv.cursor.1 ▸ (inv.rep.marks n.side.opposite).inside
  have left : tradeQty n r < r.quantity := by unfold tradeQty; omega
  have settled := settle_reduced book r (tradeQty n r) inv.rep.distinct inside left
  have apart := slot_apart st o n r book others _ inv inside
  have fill := fill_head_partial st o n r ((st.book.ladder n.side.opposite).levels p) inv.hand
    stored apart more
  have sameLadder : (st.book.ladder n.side.opposite).setLevel p ((st.book.ladder n.side.opposite).levels p) =
      st.book.ladder n.side.opposite := by
    simp [Ladder.setLevel]
  have sameBook : st.book.setLadder n.side.opposite (st.book.ladder n.side.opposite) = st.book := by
    simp [OrderBook.setLadder]
  refine ⟨_, .inner p,
    by simp [matchStep, inv.hand, bound, head, live, stored, other, fill, sameLadder, sameBook]; rfl, ?_⟩
  refine .traded r ?_ (.trade r live best other) rfl ?_ (by simp) ?_
  · intro slot outside different
    have away : slot ≠ r.internalId := fun same => outside (same ▸ List.mem_map_of_mem inside)
    exact ⟨by simp [Shared.order, different, away], rfl, rfl⟩
  · rw [settled]
    refine ⟨?_, by simp [Shared.order], inv.self, ?_, inv.free, inv.valid, inv.cursor⟩
    · refine book_rep_lower st _ book others (pendingAt n.side (.inner p)) r
        (tradeQty n r) inv.rep inside left rfl rfl rfl ?_ ?_
      · simp [Shared.order, apart]
      · intro slot member different
        have away : slot ≠ o := fun same => inv.fresh (same ▸ member)
        simp [Shared.order, away, different]
    · rw [ids_lowered]
      exact inv.fresh
  · have shorter := settle_length_le book r.internalId (tradeQty n r)
    have spent : (reduced n (tradeQty n r)).quantity = 0 := by simp only [reduced, tradeQty]; omega
    have sameSide : (reduced n (tradeQty n r)).side = n.side := rfl
    simp only [remaining, open_count_live n live, open_count_spent _ spent, sameSide]
    omega

theorem inner_step (st : BookState) (o : Slot) (n : Order) (book : Resting) (others : Slot → Prop) (p : Nat)
    (inv : MatchRep st o n book others (.inner p)) :
    ∃ next after, matchStep st o (.inner p) = .ok (next, after) ∧ StepResult st o n book others
    (.inner p) next after := by
  have bound : p < maxPrice := inv.cursor.1 ▸ (inv.rep.marks n.side.opposite).inside
  cases head : ((st.book.ladder n.side.opposite).levels p).head with
  | none => exact advance_step st o n book others p inv head
  | some resting =>
      obtain ⟨r, inside, rfl, stored, onSide, atPrice, best⟩ :=
        level_head_best st n book others _ p resting inv.rep inv.cursor.1 inv.cursor.2 head
      have nonempty : levelIds book n.side.opposite p ≠ [] := onSide ▸ atPrice ▸ level_nonempty book r inside
      have settled := book_rep_settled st book others n.side p inv.rep nonempty
      by_cases live : 0 < n.quantity
      · by_cases same : r.clientId = n.clientId
        · exact reject_step st o n r book others p r.internalId inv head live stored best settled same
        · by_cases all : r.quantity ≤ n.quantity
          · exact exhausted_step st o n r book others p inv head inside onSide atPrice live best same all
          · exact partial_step st o n r book others p inv head inside live best same (by omega)
      · refine ⟨st, .finish, by simp [matchStep, inv.hand, bound, head, live], ?_⟩
        exact .moved (heap_frame_refl _ _ _) rfl
          ⟨settled, inv.hand, inv.self, inv.fresh, inv.free, inv.valid, .inl (by omega)⟩ (by simp)
            (by simp only [remaining]; omega)

theorem marks_rest (ladder : Ladder) (book : Resting) (n : Order) (isNew : Bool)
    (marks : Marks ladder n.side book none) (inside : n.price < maxPrice)
    (new : isNew = true ↔ levelIds book n.side n.price = []) :
    ∃ marked, markLevel ladder n.price isNew = .ok marked ∧ marked.levels = ladder.levels ∧
    marked.cachedBest = ladder.cachedBest ∧
      Marks (if improves n.side n.price marked.cachedBest
        then { marked with cachedBest := n.price } else marked)
        n.side (book ++ [n]) none := by
  have here : ∀ p, levelIds (book ++ [n]) n.side p ≠ [] ↔ p = n.price ∨ levelIds book n.side p ≠ [] := by
    intro p
    rw [level_ids_append]
    by_cases same : n.price = p
    · simp [same]
    · simp [same, Ne.symm same]
  obtain ⟨marked, result, levels, cache, summarised, has⟩ : ∃ marked,
    markLevel ladder n.price isNew = .ok marked ∧
      marked.levels = ladder.levels ∧ marked.cachedBest = ladder.cachedBest ∧ Summarised marked ∧
      ∀ p, marked.has p = true ↔ p = n.price ∨ ladder.has p = true := by
    cases isNew with
    | true =>
        refine ⟨insertPrice ladder n.price, by simp [markLevel, set_bit_ok ladder n.price inside], rfl, rfl,
          insert_price_summarised ladder n.price marks.summarised inside, fun p => ?_⟩
        rw [insert_price_has, Bool.or_eq_true, decide_eq_true_eq, or_comm]
    | false =>
        have nonempty : levelIds book n.side n.price ≠ [] := fun empty => by simpa using new.mpr empty
        refine ⟨ladder, rfl, rfl, rfl, marks.summarised, fun p => ⟨.inr, ?_⟩⟩
        rintro (rfl | old)
        · exact marks.marked _ nonempty
        · exact old
  refine ⟨marked, result, levels, cache, ?_⟩
  have occupied : ∀ p, marked.has p = true ↔ levelIds (book ++ [n]) n.side p ≠ [] := by
    intro p
    rw [has, here]
    exact or_congr_right ⟨fun old => marks.occupied p old (by simp), marks.marked p⟩
  have kept : ∀ best, (∀ r ∈ book, r.side = n.side → ahead n.side r.price best = false) →
      ahead n.side n.price best = false → ∀ r ∈ book ++ [n], r.side = n.side →
        ahead n.side r.price best = false := by
    intro best old self r member onSide
    rcases List.mem_append.mp member with before | new
    · exact old r before onSide
    · cases List.mem_singleton.mp new
      exact self
  have improvesAhead : ∀ side p q, improves side p q = ahead side p q := by
    intro side p q
    cases side <;> rfl
  rw [improvesAhead]
  by_cases better : ahead n.side n.price marked.cachedBest = true
  · rw [if_pos better]
    refine ⟨⟨summarised.l2, summarised.bounded⟩, fun p => (occupied p).mpr, fun p present _ =>
      (occupied p).mp present,
      kept n.price ?_ (ahead_irrefl _ _), inside⟩
    intro r old onSide
    by_contra before
    have worse := marks.best r old onSide
    rw [cache] at better
    by_cases less : ahead n.side n.price r.price = true
    · rw [ahead_asymm _ _ _ less] at before
      exact before rfl
    · have reversed := ahead_trans n.side n.price ladder.cachedBest r.price better worse
      exact less reversed
  · rw [if_neg better]
    refine ⟨summarised, fun p => (occupied p).mpr, fun p present _ => (occupied p).mp present,
      kept _ (cache ▸ marks.best) (by simpa using better), cache ▸ marks.inside⟩

theorem finish_step (st : BookState) (o : Slot) (n : Order) (book : Resting) (others : Slot → Prop)
    (inv : MatchRep st o n book others .finish) :
    ∃ next after, matchStep st o .finish = .ok (next, after) ∧
    StepResult st o n book others .finish next after := by
  have base : BookRep st book others quiet := inv.rep
  have self := inv.self
  subst self
  by_cases live : 0 < n.quantity
  · have absent : bestOpposite n book = none := inv.cursor.resolve_left (by omega)
    have bound := inv.valid.2.2
    have new : ((st.book.ladder n.side).levels n.price).head.isNone = true ↔
        levelIds book n.side n.price = [] := by
      rw [Option.isNone_iff_eq_none]
      exact linked_head_none _ _ _ _ (base.levels n.side n.price)
    obtain ⟨marked, result, levels, cache, marks⟩ := marks_rest
      ((st.book.ladder n.side).setLevel n.price
        (((st.book.ladder n.side).levels n.price).add st.shared.heap.links n.internalId).1)
      book n _ (marks_set_level _ _ _ _ _ _ (base.marks n.side)) bound new
    refine ⟨_, .done, by
      simp [matchStep, inv.hand, live, restOrder, bound, result, Shared.setById, Shared.setLinks,
        inv.valid.2.1]; rfl, ?_⟩
    refine .ended (.rest n) (book ++ [n]) ?_ (.rest live absent) ?_ ?_ rfl
    · intro slot outside different
      have away : slot ∉ levelIds book n.side n.price :=
        fun here => outside (level_ids_subset book _ _ _ here)
      have frame := limit_add_frame _ _ _ n.internalId slot (base.levels n.side n.price) away different
      exact ⟨rfl, frame.1, frame.2⟩
    · simp [Shared.broadcast, Shared.sendDropCopy, Shared.emit, Event.outputs, itchOf, dropCopyOf]
    · refine book_rep_append st _ book others n _ base inv.fresh inv.free inv.valid live rfl
        ?_ marks rfl rfl ?_
        (fun _ _ => rfl)
      · split <;> exact levels
      · exact inv.hand
  · refine ⟨{ st with shared := st.shared.deallocate n.internalId }, .done,
      by simp [matchStep, inv.hand, live], ?_⟩
    refine .ended (.filled n) book (heap_frame_refl _ _ _) (.filled (by omega)) ?_ ?_ rfl
    · simp [Shared.deallocate, Shared.emit, Event.outputs]
    · exact book_rep_frame st _ book others quiet base rfl rfl (fun _ _ => ⟨rfl, rfl, rfl⟩)

theorem match_step_refines (st : BookState) (o : Slot) (n : Order) (book : Resting)
    (others : Slot → Prop) (pc : MatchPc)
    (inv : MatchRep st o n book others pc) (running : pc ≠ .done) :
    ∃ next after, matchStep st o pc = .ok (next, after) ∧ StepResult st o n book others pc next after := by
  cases pc with
  | outer cursor => exact outer_step st o n book others cursor inv
  | inner p => exact inner_step st o n book others p inv
  | finish => exact finish_step st o n book others inv
  | done => exact absurd rfl running

end HftExchange
