import HftExchange.Book.MatchTrade

set_option autoImplicit false

namespace HftExchange

open Base

theorem rescan_spec (side : Side) (ladder : Ladder) (book : Resting) (p : Nat)
    (marks : Marks ladder side book none)
    (cached : p = ladder.cachedBest) :
    ∃ best, rescan side ladder p = .ok best ∧ Marks { ladder with cachedBest := best } side book none := by
  have bound : p < maxPrice := cached ▸ marks.inside
  have present : ∀ r ∈ book, r.side = side → ladder.has r.price = true :=
    fun r inside onSide => marks.marked r.price (onSide ▸ level_nonempty book r inside)
  cases side with
  | buy =>
      obtain ⟨found, search, next⟩ := find_next_bid_spec ladder p marks.summarised bound
      have limit : ∀ r ∈ book, r.side = .buy → r.price < p + 1 := by
        intro r inside onSide
        have notBefore := marks.best r inside onSide
        simp only [← cached, ahead, decide_eq_false_iff_not] at notBefore
        omega
      cases found with
      | none =>
          refine ⟨0, by simp [rescan, search], marks_cache _ _ _ _ 0 marks ?_ (by simp [maxPrice])⟩
          intro r inside onSide
          have clear := next r.price (limit r inside onSide)
          rw [present r inside onSide] at clear
          cases clear
      | some q =>
          refine ⟨q, by simp [rescan, search],
            marks_cache _ _ _ _ q marks ?_ (marks.summarised.bounded q next.2.1)⟩
          intro r inside onSide
          by_contra before
          have clear := next.2.2 r.price (by simpa [ahead] using before) (limit r inside onSide)
          rw [present r inside onSide] at clear
          cases clear
  | sell =>
      obtain ⟨found, search, next⟩ := find_next_ask_spec ladder p marks.summarised (by omega)
      have limit : ∀ r ∈ book, r.side = .sell → p ≤ r.price := by
        intro r inside onSide
        have notBefore := marks.best r inside onSide
        simp only [← cached, ahead, decide_eq_false_iff_not] at notBefore
        omega
      cases found with
      | none =>
          refine ⟨maxPrice - 1, by simp [rescan, search], marks_cache _ _ _ _ _ marks ?_ (by simp [maxPrice])⟩
          intro r inside onSide
          have clear := next r.price (limit r inside onSide)
          rw [present r inside onSide] at clear
          cases clear
      | some q =>
          refine ⟨q, by simp [rescan, search],
            marks_cache _ _ _ _ q marks ?_ (marks.summarised.bounded q next.2.1)⟩
          intro r inside onSide
          by_contra before
          have clear := next.2.2 r.price (limit r inside onSide) (by simpa [ahead] using before)
          rw [present r inside onSide] at clear
          cases clear

theorem unmark_spec (side : Side) (ladder : Ladder) (book : Resting) (p : Nat) (isEmpty : Bool)
    (bound : p < maxPrice)
    (marks : Marks ladder side book (some p)) (empty : isEmpty = true ↔ levelIds book side p = []) :
    ∃ after, unmarkLevel side ladder p isEmpty = .ok after ∧ after.levels = ladder.levels ∧
    Marks after side book none := by
  cases isEmpty with
  | false =>
      refine ⟨ladder, rfl, rfl, marks_settled ladder side book p marks ?_⟩
      exact fun gone => by simpa using empty.mpr gone
  | true =>
      have erased := marks_erase ladder side book p marks (empty.mp rfl)
      by_cases cached : p = ladder.cachedBest
      · obtain ⟨best, result, rescanned⟩ := rescan_spec side (erasePrice ladder p) book p erased cached
        refine ⟨{ erasePrice ladder p with cachedBest := best }, ?_, rfl, rescanned⟩
        have sameCache : (erasePrice ladder p).cachedBest = ladder.cachedBest := rfl
        simp only [unmarkLevel, if_true, clear_bit_ok ladder p bound, checked_bind_ok, sameCache,
          if_pos cached, result, checked_pure]
      · refine ⟨erasePrice ladder p, ?_, rfl, erased⟩
        have sameCache : (erasePrice ladder p).cachedBest = ladder.cachedBest := rfl
        simp only [unmarkLevel, if_true, clear_bit_ok ladder p bound, checked_bind_ok, sameCache,
          if_neg cached, checked_pure]

theorem find_id (book : Resting) (r : Order) (distinct : (ids book).Nodup) (inside : r ∈ book) :
    book.find? (fun s => s.internalId = r.internalId) = some r := by
  cases found : book.find? (fun s => s.internalId = r.internalId) with
  | none =>
      have missing := List.find?_eq_none.mp found r inside
      simp at missing
  | some s =>
      have same : s.internalId = r.internalId := by simpa using List.find?_some found
      rw [ids_injective book distinct s r (List.mem_of_find?_eq_some found) inside same]

theorem reference_cancel_absent (book : Resting) (id : Nat) (absent : id ∉ ids book) :
    referenceCancel book id = (book, []) := by
  have missing : book.find? (fun r => r.internalId = id) = none := by
    rw [List.find?_eq_none]
    intro r inside
    have different : r.internalId ≠ id := fun same => absent (same ▸ List.mem_map_of_mem inside)
    simp [different]
  rw [referenceCancel, missing]

theorem reference_cancel_present (book : Resting) (r : Order) (distinct : (ids book).Nodup)
    (inside : r ∈ book) :
    referenceCancel book r.internalId = (without book r.internalId, [.cancel r]) := by
  rw [referenceCancel, find_id book r distinct inside]
  rfl

def cancelled (st : BookState) (r : Order) (ladder : Ladder) : BookState :=
  { shared :=
      { heap := { st.shared.heap with
          links := (((st.book.ladder r.side).levels r.price).remove st.shared.heap.links r.internalId).2 }
        ordersById := Function.update st.shared.ordersById r.internalId none
        out := st.shared.out ++ (Event.cancel r).outputs }
    book := st.book.setLadder r.side ladder }

theorem cancel_order_present (st : BookState) (book : Resting) (others : Slot → Prop) (r : Order)
    (rep : BookRep st book others quiet) (inside : r ∈ book) :
    ∃ next, cancelOrder st r.internalId = .ok next ∧ BookRep next (without book r.internalId) others quiet ∧
      next.shared.out = st.shared.out ++ (Event.cancel r).outputs ∧
      HeapFrame st.shared next.shared r.internalId book := by
  have stored := rep.stored r inside
  obtain ⟨_, slot, bound⟩ := rep.valid r inside
  have live := rep.present r.internalId (.inl (List.mem_map_of_mem inside))
  have marks : Marks ((st.book.ladder r.side).setLevel r.price
      (((st.book.ladder r.side).levels r.price).remove st.shared.heap.links r.internalId).1) r.side
      (without book r.internalId) (some r.price) := by
    apply marks_set_level
    exact marks_without _ r.side book none _ r (rep.marks r.side) rep.distinct inside
      (fun _ => ⟨rfl, .inl rfl⟩)
      (fun wrong => absurd rfl wrong)
  have empty : (((st.book.ladder r.side).levels r.price).remove st.shared.heap.links
    r.internalId).1.head.isNone = true ↔
      levelIds (without book r.internalId) r.side r.price = [] := by
    rw [Option.isNone_iff_eq_none]
    apply linked_head_none
      (((st.book.ladder r.side).levels r.price).remove st.shared.heap.links r.internalId).2
    have removed := levels_remove st.shared.heap.links (fun side p => (st.book.ladder side).levels p)
      (fun side p => if side = r.side ∧ p = r.price
        then (((st.book.ladder r.side).levels r.price).remove st.shared.heap.links r.internalId).1
        else (st.book.ladder side).levels p)
      book r rep.levels rep.distinct inside (by simp) (fun side p other => by
        rw [if_neg (fun same => other.elim (fun h => h same.1) (fun h => h same.2))])
    simpa using removed r.side r.price
  obtain ⟨ladder, unmark, levels, settled⟩ :=
    unmark_spec r.side _ (without book r.internalId) r.price _ bound marks empty
  refine ⟨cancelled st r ladder, ?_, ?_, rfl, ?_⟩
  · simp [cancelled, cancelOrder, Nat.not_le.mpr slot, slot, live, stored, bound, unmark,
      Shared.setById, Shared.setLinks, Shared.broadcast,
      Shared.sendDropCopy, Shared.emit, Shared.deallocate, Event.outputs, itchOf, dropCopyOf]
  · exact book_rep_remove st _ book others quiet quiet r ladder rep inside rfl levels settled
      (fun _ _ => rfl) rfl rfl
      (fun _ _ _ => rfl)
  · intro other outside _
    have links := removal_frame st book others quiet r rep inside other outside
    exact ⟨rfl, links.1, links.2⟩

theorem cancel_order_refines (st : BookState) (book : Resting) (others : Slot → Prop) (id : Nat)
    (rep : BookRep st book others quiet) (own : ¬ others id) :
    ∃ next, cancelOrder st id = .ok next ∧ BookRep next (referenceCancel book id).1 others quiet ∧
      next.shared.out = st.shared.out ++ (referenceCancel book id).2.flatMap Event.outputs ∧
      HeapFrame st.shared next.shared id book := by
  by_cases present : id ∈ ids book
  · obtain ⟨r, inside, rfl⟩ := List.mem_map.mp present
    obtain ⟨next, result, nextRep, out, frame⟩ := cancel_order_present st book others r rep inside
    rw [reference_cancel_present book r rep.distinct inside]
    exact ⟨next, result, nextRep, by simpa using out, frame⟩
  · rw [reference_cancel_absent book id present]
    refine ⟨st, ?_, rep, by simp, heap_frame_refl _ _ _⟩
    by_cases wide : maxOrdersLookup ≤ id
    · simp [cancelOrder, wide]
    · simp [cancelOrder, wide, Nat.lt_of_not_le wide, rep.absent id present own]

end HftExchange
