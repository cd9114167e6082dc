import HftExchange.Book.Sweep

set_option autoImplicit false

namespace HftExchange

open Base

theorem marks_set_level (ladder : Ladder) (side : Side) (book : Resting) (pending : Option Nat)
    (p : Nat) (limit : Limit)
    (marks : Marks ladder side book pending) : Marks (ladder.setLevel p limit) side book pending :=
  ⟨⟨marks.summarised.l2, marks.summarised.bounded⟩, marks.marked, marks.occupied, marks.best, marks.inside⟩

theorem set_ladder_self (book : OrderBook) (side : Side) (ladder : Ladder) :
    (book.setLadder side ladder).ladder side = ladder := by
  simp [OrderBook.setLadder]

theorem set_ladder_other (book : OrderBook) (side other : Side) (ladder : Ladder) (different : other ≠ side) :
    (book.setLadder side ladder).ladder other = book.ladder other := by
  simp [OrderBook.setLadder, different]

theorem set_level_self (ladder : Ladder) (p : Nat) (limit : Limit) :
    (ladder.setLevel p limit).levels p = limit := by
  simp [Ladder.setLevel]

theorem set_level_other (ladder : Ladder) (p q : Nat) (limit : Limit) (different : q ≠ p) :
    (ladder.setLevel p limit).levels q = ladder.levels q := by
  simp [Ladder.setLevel, different]

theorem replaced_level (book : OrderBook) (side : Side) (p : Nat) (ladder : Ladder) (limit : Limit)
    (levels : ladder.levels = ((book.ladder side).setLevel p limit).levels) :
    ((book.setLadder side ladder).ladder side).levels p = limit ∧
      ∀ other q, other ≠ side ∨ q ≠ p →
        ((book.setLadder side ladder).ladder other).levels q = (book.ladder other).levels q := by
  refine ⟨by rw [set_ladder_self, levels, set_level_self], fun other q apart => ?_⟩
  by_cases sameSide : other = side
  · subst sameSide
    rw [set_ladder_self, levels]
    exact set_level_other _ _ _ _ (apart.resolve_left (by simp))
  · rw [set_ladder_other _ _ _ _ sameSide]

theorem book_rep_frame (st next : BookState) (book : Resting) (others : Slot → Prop)
    (pending : Side → Option Nat)
    (rep : BookRep st book others pending) (sameBook : next.book = st.book)
    (sameIndex : next.shared.ordersById = st.shared.ordersById)
    (agree : ∀ slot ∈ ids book, next.shared.order slot = st.shared.order slot ∧
      next.shared.heap.links.next slot = st.shared.heap.links.next slot ∧
      next.shared.heap.links.prev slot = st.shared.heap.links.prev slot) :
    BookRep next book others pending where
  stored r inside := (agree _ (List.mem_map_of_mem inside)).1.trans (rep.stored r inside)
  distinct := rep.distinct
  valid := rep.valid
  positive := rep.positive
  levels := by
    rw [sameBook]
    exact levels_frame _ _ _ book rep.levels (fun slot member => (agree slot member).2)
  marks side := sameBook ▸ rep.marks side
  present := sameIndex ▸ rep.present
  absent := sameIndex ▸ rep.absent
  apart := rep.apart

theorem marks_without (ladder : Ladder) (side : Side) (book : Resting)
    (pending after : Option Nat) (r : Order)
    (marks : Marks ladder side book pending) (distinct : (ids book).Nodup) (inside : r ∈ book)
    (same : side = r.side → after = some r.price ∧ (pending = none ∨ pending = some r.price))
    (other : side ≠ r.side → after = pending) : Marks ladder side (without book r.internalId) after := by
  apply marks_change ladder side book _ pending after marks
  · intro p nonempty
    rw [level_ids_without] at nonempty
    exact fun empty => nonempty (by simp [empty])
  · intro p apart nonempty
    rw [level_ids_without, filter_absent _ _ (level_ids_apart book distinct r inside side p ?_)]
    · exact nonempty
    · by_cases sameSide : side = r.side
      · exact .inr (fun samePrice => apart (samePrice ▸ (same sameSide).1))
      · exact .inl sameSide
  · intro p apart
    by_cases sameSide : side = r.side
    · rcases (same sameSide).2 with none | some
      · simp [none]
      · rw [some, ← (same sameSide).1]
        exact apart
    · rw [← other sameSide]
      exact apart
  · exact fun s member onSide => ⟨s, List.mem_of_mem_filter member, onSide, rfl⟩

theorem book_rep_remove (st next : BookState) (book : Resting) (others : Slot → Prop)
    (pending after : Side → Option Nat)
    (r : Order) (ladder : Ladder) (rep : BookRep st book others pending) (inside : r ∈ book)
    (sameBook : next.book = st.book.setLadder r.side ladder)
    (levels : ladder.levels = ((st.book.ladder r.side).setLevel r.price
      (((st.book.ladder r.side).levels r.price).remove st.shared.heap.links r.internalId).1).levels)
    (marks : Marks ladder r.side (without book r.internalId) (after r.side))
    (rest : ∀ side, side ≠ r.side → after side = pending side)
    (links : next.shared.heap.links =
      (((st.book.ladder r.side).levels r.price).remove st.shared.heap.links r.internalId).2)
    (index : next.shared.ordersById = Function.update st.shared.ordersById r.internalId none)
    (orders : ∀ slot ∈ ids book, slot ≠ r.internalId → next.shared.order slot = st.shared.order slot) :
    BookRep next (without book r.internalId) others after where
  stored s member := by
    obtain ⟨here, different⟩ := List.mem_filter.mp member
    exact (orders _ (List.mem_map_of_mem here) (by simpa using different)).trans (rep.stored s here)
  distinct := by
    rw [ids_without]
    exact rep.distinct.filter _
  valid s member := rep.valid s (List.mem_of_mem_filter member)
  positive s member := rep.positive s (List.mem_of_mem_filter member)
  levels := by
    obtain ⟨here, elsewhere⟩ := replaced_level st.book r.side r.price ladder _ levels
    rw [links, sameBook]
    exact levels_remove _ _ _ book r rep.levels rep.distinct inside here elsewhere
  marks side := by
    rw [sameBook]
    by_cases same : side = r.side
    · subst same
      rw [set_ladder_self]
      exact marks
    · rw [set_ladder_other _ _ _ _ same]
      exact marks_without _ side book (pending side) (after side) r (rep.marks side) rep.distinct inside
        (fun here => absurd here same) (fun there => rest side there)
  present slot live := by
    rw [ids_without, List.mem_filter] at live
    rw [index]
    have different : slot ≠ r.internalId := by
      rcases live with here | there
      · simpa using here.2
      · rintro rfl
        exact rep.apart _ (List.mem_map_of_mem inside) there
    rw [Function.update_of_ne different]
    exact rep.present slot (live.imp (fun here => here.1) id)
  absent slot gone free := by
    rw [index]
    by_cases same : slot = r.internalId
    · rw [same, Function.update_self]
    · rw [Function.update_of_ne same]
      apply rep.absent slot _ free
      rw [ids_without, List.mem_filter] at gone
      exact fun here => gone ⟨here, by simpa using same⟩
  apart slot member := by
    rw [ids_without] at member
    exact rep.apart slot (List.mem_of_mem_filter member)

theorem book_rep_lower (st next : BookState) (book : Resting) (others : Slot → Prop)
    (pending : Side → Option Nat)
    (r : Order) (qty : Nat) (rep : BookRep st book others pending) (inside : r ∈ book)
    (left : qty < r.quantity)
    (sameBook : next.book = st.book) (links : next.shared.heap.links = st.shared.heap.links)
    (index : next.shared.ordersById = st.shared.ordersById)
    (lowerOrder : next.shared.order r.internalId = reduced r qty)
    (orders : ∀ slot ∈ ids book, slot ≠ r.internalId → next.shared.order slot = st.shared.order slot) :
    BookRep next (book.map (lowered r.internalId qty)) others pending where
  stored s member := by
    obtain ⟨old, here, rfl⟩ := List.mem_map.mp member
    rw [lowered_id]
    by_cases same : old.internalId = r.internalId
    · cases ids_injective book rep.distinct old r here inside same
      rw [lowerOrder, lowered, if_pos rfl]
    · rw [orders _ (List.mem_map_of_mem here) same, rep.stored old here, lowered, if_neg same]
  distinct := by
    rw [ids_lowered]
    exact rep.distinct
  valid s member := by
    obtain ⟨old, here, rfl⟩ := List.mem_map.mp member
    have fields : (lowered r.internalId qty old).price = old.price := by
      unfold lowered reduced
      split <;> rfl
    simpa only [ValidOrder, lowered_id, fields] using rep.valid old here
  positive s member := by
    obtain ⟨old, here, rfl⟩ := List.mem_map.mp member
    by_cases same : old.internalId = r.internalId
    · cases ids_injective book rep.distinct old r here inside same
      simp only [lowered, if_true, reduced]
      omega
    · simpa only [lowered, if_neg same] using rep.positive old here
  levels := by
    rw [sameBook, links]
    intro side p
    rw [level_ids_lowered]
    exact rep.levels side p
  marks side := by
    rw [sameBook]
    apply marks_change _ side book _ (pending side) (pending side) (rep.marks side)
    · exact fun p nonempty => by rwa [level_ids_lowered] at nonempty
    · exact fun p _ nonempty => by rwa [level_ids_lowered]
    · exact fun p apart => apart
    · intro s member onSide
      obtain ⟨old, here, rfl⟩ := List.mem_map.mp member
      refine ⟨old, here, ?_, ?_⟩
      · revert onSide
        unfold lowered reduced
        split <;> exact fun side => side
      · unfold lowered reduced
        split <;> rfl
  present := by
    rw [ids_lowered, index]
    exact rep.present
  absent := by
    rw [ids_lowered, index]
    exact rep.absent
  apart := by
    rw [ids_lowered]
    exact rep.apart

theorem marks_append_other (ladder : Ladder) (side : Side) (book : Resting) (pending : Option Nat) (n : Order)
    (marks : Marks ladder side book pending) (other : n.side ≠ side) :
    Marks ladder side (book ++ [n]) pending := by
  have same : ∀ p, levelIds (book ++ [n]) side p = levelIds book side p := by
    intro p
    rw [level_ids_append, if_neg (fun here => other here.1)]
  refine ⟨marks.summarised, fun p => same p ▸ marks.marked p, fun p => same p ▸ marks.occupied p,
    ?_, marks.inside⟩
  intro r member onSide
  rcases List.mem_append.mp member with old | fresh
  · exact marks.best r old onSide
  · cases List.mem_singleton.mp fresh
    exact absurd onSide other

theorem book_rep_append (st next : BookState) (book : Resting) (others : Slot → Prop) (n : Order)
    (ladder : Ladder)
    (rep : BookRep st book others quiet) (fresh : n.internalId ∉ ids book) (free : ¬ others n.internalId)
    (valid : ValidOrder n) (positive : 0 < n.quantity)
    (sameBook : next.book = st.book.setLadder n.side ladder)
    (levels : ladder.levels = ((st.book.ladder n.side).setLevel n.price
      (((st.book.ladder n.side).levels n.price).add st.shared.heap.links n.internalId).1).levels)
    (marks : Marks ladder n.side (book ++ [n]) none)
    (links : next.shared.heap.links =
      (((st.book.ladder n.side).levels n.price).add st.shared.heap.links n.internalId).2)
    (index : next.shared.ordersById = Function.update st.shared.ordersById n.internalId (some n.internalId))
    (hand : next.shared.order n.internalId = n)
    (orders : ∀ slot ∈ ids book, next.shared.order slot = st.shared.order slot) :
    BookRep next (book ++ [n]) others quiet := by
  have idsAppend : ids (book ++ [n]) = ids book ++ [n.internalId] := by simp [ids]
  refine ⟨?_, ?_, ?_, ?_, ?_, ?_, ?_, ?_, ?_⟩
  · intro r member
    rcases List.mem_append.mp member with old | new
    · exact (orders _ (List.mem_map_of_mem old)).trans (rep.stored r old)
    · cases List.mem_singleton.mp new
      exact hand
  · rw [idsAppend, List.nodup_append]
    exact ⟨rep.distinct, by simp, fun a old b new => by
      cases List.mem_singleton.mp new
      exact fun same => fresh (same ▸ old)⟩
  · intro r member
    rcases List.mem_append.mp member with old | new
    · exact rep.valid r old
    · cases List.mem_singleton.mp new
      exact valid
  · intro r member
    rcases List.mem_append.mp member with old | new
    · exact rep.positive r old
    · cases List.mem_singleton.mp new
      exact positive
  · obtain ⟨here, elsewhere⟩ := replaced_level st.book n.side n.price ladder _ levels
    rw [links, sameBook]
    exact levels_add _ _ _ book n rep.levels rep.distinct fresh here elsewhere
  · intro side
    rw [sameBook]
    by_cases same : side = n.side
    · subst same
      rw [set_ladder_self]
      exact marks
    · rw [set_ladder_other _ _ _ _ same]
      exact marks_append_other _ side book _ n (rep.marks side) (Ne.symm same)
  · intro slot live
    rw [index]
    by_cases same : slot = n.internalId
    · rw [same, Function.update_self]
    · rw [Function.update_of_ne same]
      apply rep.present slot
      rw [idsAppend, List.mem_append, List.mem_singleton] at live
      exact live.imp (fun here => here.resolve_right same) id
  · intro slot gone alone
    rw [idsAppend, List.mem_append, List.mem_singleton] at gone
    rw [index, Function.update_of_ne (fun same => gone (.inr same))]
    exact rep.absent slot (fun here => gone (.inl here)) alone
  · intro slot member
    rw [idsAppend, List.mem_append, List.mem_singleton] at member
    rcases member with old | rfl
    · exact rep.apart slot old
    · exact free

end HftExchange
