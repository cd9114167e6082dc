import HftExchange.Book.RepUpdate

set_option autoImplicit false

namespace HftExchange

open Base

theorem level_nonempty (book : Resting) (r : Order) (inside : r ∈ book) :
    levelIds book r.side r.price ≠ [] := by
  intro empty
  have member := (mem_level_ids book r.side r.price r.internalId).mpr ⟨r, inside, rfl, rfl, rfl⟩
  simp [empty] at member

theorem marks_erase (ladder : Ladder) (side : Side) (book : Resting) (p : Nat)
    (marks : Marks ladder side book (some p))
    (empty : levelIds book side p = []) : Marks (erasePrice ladder p) side book none := by
  refine ⟨erase_price_summarised ladder p marks.summarised, ?_, ?_, marks.best, marks.inside⟩
  · intro q nonempty
    have different : q ≠ p := fun same => nonempty (same ▸ empty)
    simp [erase_price_has, marks.marked q nonempty, different]
  · intro q present _
    rw [erase_price_has, Bool.and_eq_true, decide_eq_true_eq] at present
    exact marks.occupied q present.1 (by simpa using Ne.symm present.2)

theorem marks_cache (ladder : Ladder) (side : Side) (book : Resting) (pending : Option Nat) (q : Nat)
    (marks : Marks ladder side book pending) (best : ∀ r ∈ book, r.side = side → ahead side r.price q = false)
    (inside : q < maxPrice) : Marks { ladder with cachedBest := q } side book pending :=
  ⟨⟨marks.summarised.l2, marks.summarised.bounded⟩, marks.marked, marks.occupied, best, inside⟩

def AdvanceResult (side : Side) (ladder after : Ladder) (book : Resting) (p : Nat)
    (next : Option Nat) : Prop :=
  after.levels = ladder.levels ∧ Marks after side.opposite book none ∧
    match next with
    | none => ∀ r ∈ book, r.side ≠ side.opposite
    | some q => after.cachedBest = q ∧ span side q < span side p

theorem advance_ask_spec (ladder : Ladder) (book : Resting) (p : Nat)
    (marks : Marks ladder .sell book (some p))
    (empty : levelIds book .sell p = []) (cursor : ladder.cachedBest = p) :
    ∃ after next, advanceAsk ladder p = .ok (after, next) ∧ AdvanceResult .buy ladder after book p next := by
  have bound : p < maxPrice := cursor ▸ marks.inside
  have erased := marks_erase ladder .sell book p marks empty
  -- every resting ask lies strictly above the emptied level
  have above : ∀ r ∈ book, r.side = .sell → p + 1 ≤ r.price ∧ (erasePrice ladder p).has r.price = true := by
    intro r inside onSide
    have nonempty := level_nonempty book r inside
    rw [onSide] at nonempty
    have notBefore := marks.best r inside onSide
    have different : r.price ≠ p := fun same => nonempty (same ▸ empty)
    simp only [cursor, ahead, decide_eq_false_iff_not] at notBefore
    exact ⟨by omega, erased.marked r.price nonempty⟩
  obtain ⟨found, search, next⟩ := find_next_ask_spec (erasePrice ladder p)
    (p + 1) erased.summarised (by omega)
  cases found with
  | none =>
      refine ⟨erasePrice ladder p, none,
        by simp [advanceAsk, clear_bit_ok ladder p bound, search], rfl, erased, ?_⟩
      intro r inside onSide
      obtain ⟨far, present⟩ := above r inside onSide
      rw [next r.price far] at present
      cases present
  | some q =>
      have inside := erased.summarised.bounded q next.2.1
      refine ⟨{ erasePrice ladder p with cachedBest := q }, some q,
        by simp [advanceAsk, clear_bit_ok ladder p bound, search],
        rfl, ?_, rfl, ?_⟩
      · apply marks_cache _ _ _ _ q erased _ inside
        intro r member onSide
        obtain ⟨far, present⟩ := above r member onSide
        by_contra before
        have before : r.price < q := by simpa [ahead] using before
        rw [next.2.2 r.price far before] at present
        cases present
      · have lower := next.1
        simp only [span]
        omega

theorem advance_bid_spec (ladder : Ladder) (book : Resting) (p : Nat)
    (marks : Marks ladder .buy book (some p))
    (empty : levelIds book .buy p = []) (cursor : ladder.cachedBest = p) :
    ∃ after next, advanceBid ladder p = .ok (after, next) ∧ AdvanceResult .sell ladder after book p next := by
  have bound : p < maxPrice := cursor ▸ marks.inside
  have erased := marks_erase ladder .buy book p marks empty
  have below : ∀ r ∈ book, r.side = .buy → r.price < p ∧ (erasePrice ladder p).has r.price = true := by
    intro r inside onSide
    have nonempty := level_nonempty book r inside
    rw [onSide] at nonempty
    have notBefore := marks.best r inside onSide
    have different : r.price ≠ p := fun same => nonempty (same ▸ empty)
    simp only [cursor, ahead, decide_eq_false_iff_not] at notBefore
    exact ⟨by omega, erased.marked r.price nonempty⟩
  by_cases positive : 0 < p
  · obtain ⟨found, search, next⟩ := find_next_bid_spec (erasePrice ladder p)
      (p - 1) erased.summarised (by omega)
    cases found with
    | none =>
        refine ⟨erasePrice ladder p, none,
          by simp [advanceBid, clear_bit_ok ladder p bound, positive, search], rfl, erased, ?_⟩
        intro r inside onSide
        obtain ⟨far, present⟩ := below r inside onSide
        rw [next r.price (by omega)] at present
        cases present
    | some q =>
        have inside := erased.summarised.bounded q next.2.1
        refine ⟨{ erasePrice ladder p with cachedBest := q }, some q,
          by simp [advanceBid, clear_bit_ok ladder p bound, positive, search], rfl, ?_, rfl, ?_⟩
        · apply marks_cache _ _ _ _ q erased _ inside
          intro r member onSide
          obtain ⟨far, present⟩ := below r member onSide
          by_contra before
          have before : q < r.price := by simpa [ahead] using before
          rw [next.2.2 r.price before (by omega)] at present
          cases present
        · have lower := next.1
          simp only [span]
          omega
  · refine ⟨erasePrice ladder p, none, by simp [advanceBid, clear_bit_ok ladder p bound, positive],
      rfl, erased, ?_⟩
    intro r inside onSide
    have far := (below r inside onSide).1
    omega

theorem advance_spec (side : Side) (ladder : Ladder) (book : Resting) (p : Nat)
    (marks : Marks ladder side.opposite book (some p))
    (empty : levelIds book side.opposite p = []) (cursor : ladder.cachedBest = p) :
    ∃ after next, advance side ladder p = .ok (after, next) ∧
    AdvanceResult side ladder after book p next := by
  cases side with
  | buy => exact advance_ask_spec ladder book p marks empty cursor
  | sell => exact advance_bid_spec ladder book p marks empty cursor

-- What one step of a match in progress amounts to: it either moves the
-- control point alone, or performs one event of the reference matching.
inductive StepResult (st : BookState) (o : Slot) (n : Order) (book : Resting)
    (others : Slot → Prop) (pc : MatchPc)
    (next : BookState) (after : MatchPc) : Prop where
  | moved (frame : HeapFrame st.shared next.shared o book) (out : next.shared.out = st.shared.out)
      (rep : MatchRep next o n book others after) (running : after ≠ .done)
      (smaller : remaining n book after < remaining n book pc)
  | traded (r : Order) (frame : HeapFrame st.shared next.shared o book)
      (event : MatchEvent book n (.trade n r) (settle book r.internalId (tradeQty n r))
        (some (reduced n (tradeQty n r))))
      (out : next.shared.out = st.shared.out ++ (Event.trade n r).outputs)
      (rep : MatchRep next o (reduced n (tradeQty n r))
        (settle book r.internalId (tradeQty n r)) others after)
      (running : after ≠ .done)
      (smaller : remaining (reduced n (tradeQty n r)) (settle book r.internalId (tradeQty n r))
        after < remaining n book pc)
  | ended (event : Event) (left : Resting) (frame : HeapFrame st.shared next.shared o book)
      (step : MatchEvent book n event left none) (out : next.shared.out = st.shared.out ++ event.outputs)
      (rep : BookRep next left others quiet) (finished : after = .done)

theorem outer_step (st : BookState) (o : Slot) (n : Order) (book : Resting) (others : Slot → Prop)
    (cursor : Option Nat)
    (inv : MatchRep st o n book others (.outer cursor)) :
    ∃ next after, matchStep st o (.outer cursor) = .ok (next, after) ∧
      StepResult st o n book others (.outer cursor) next after := by
  have base : BookRep st book others quiet := inv.rep
  have toFinish : n.quantity = 0 ∨ bestOpposite n book = none →
      MatchRep st o n book others .finish :=
        fun stop => ⟨base, inv.hand, inv.self, inv.fresh, inv.free, inv.valid, stop⟩
  cases cursor with
  | none =>
      have stop : bestOpposite n book = none := by
        rw [best_opposite_none_iff]
        intro r inside
        have wrongSide := inv.cursor r inside
        simp [compatible, wrongSide]
      exact ⟨st, .finish, rfl, .moved (heap_frame_refl _ _ _) rfl (toFinish (.inr stop)) (by simp)
        (by simp [remaining])⟩
  | some p =>
      have atBest : (st.book.ladder n.side.opposite).cachedBest = p := inv.cursor
      by_cases enter : crosses n.side p n.price = true ∧ 0 < n.quantity
      · refine ⟨st, .inner p, ?_, .moved (heap_frame_refl _ _ _) rfl ?_ (by simp) (by simp [remaining])⟩
        · simp [matchStep, inv.hand, enter]
        · refine ⟨?_, inv.hand, inv.self, inv.fresh, inv.free, inv.valid, atBest, enter.1⟩
          exact { base with marks := fun side => marks_widen _ side book _ (base.marks side) }
      · refine ⟨st, .finish, ?_, .moved (heap_frame_refl _ _ _) rfl (toFinish ?_) (by simp)
          (by simp [remaining]; omega)⟩
        · simp [matchStep, inv.hand, enter]
        · by_cases empty : n.quantity = 0
          · exact .inl empty
          · right
            rw [best_opposite_none_iff]
            intro r inside
            by_contra compat
            obtain ⟨onSide, crossed⟩ := (compatible_iff n r).mp (by simpa using compat)
            have notAhead := (base.marks n.side.opposite).best r inside onSide
            rw [atBest] at notAhead
            exact enter ⟨crosses_ahead _ _ _ _ crossed notAhead, by omega⟩

theorem removal_frame (st : BookState) (book : Resting) (others : Slot → Prop)
    (pending : Side → Option Nat) (r : Order)
    (rep : BookRep st book others pending) (inside : r ∈ book) (slot : Slot) (outside : slot ∉ ids book) :
    ((((st.book.ladder r.side).levels r.price).remove st.shared.heap.links r.internalId).2.next slot =
      st.shared.heap.links.next slot) ∧
    ((((st.book.ladder r.side).levels r.price).remove st.shared.heap.links r.internalId).2.prev slot =
      st.shared.heap.links.prev slot) := by
  have level := rep.levels r.side r.price
  have distinct := level_ids_nodup book r.side r.price rep.distinct
  have member : r.internalId ∈ levelIds book r.side r.price :=
    (mem_level_ids _ _ _ _).mpr ⟨r, inside, rfl, rfl, rfl⟩
  have away : slot ∉ levelIds book r.side r.price := fun here => outside (level_ids_subset book _ _ _ here)
  obtain ⟨left, right, split⟩ := List.append_of_mem member
  rw [split] at level distinct away
  exact limit_remove_frame _ _ left right r.internalId slot level distinct away

theorem book_rep_settled (st : BookState) (book : Resting) (others : Slot → Prop) (side : Side) (p : Nat)
    (rep : BookRep st book others (pendingAt side (.inner p)))
    (nonempty : levelIds book side.opposite p ≠ []) :
    BookRep st book others quiet := by
  refine { rep with marks := fun other => ?_ }
  have marks := rep.marks other
  by_cases same : other = side.opposite
  · subst same
    simp only [pendingAt, Function.update_self] at marks
    exact marks_settled _ _ book p marks nonempty
  · simpa only [pendingAt, Function.update_of_ne same] using marks

theorem advance_step (st : BookState) (o : Slot) (n : Order) (book : Resting) (others : Slot → Prop) (p : Nat)
    (inv : MatchRep st o n book others (.inner p))
    (head : ((st.book.ladder n.side.opposite).levels p).head = none) :
    ∃ next after, matchStep st o (.inner p) = .ok (next, after) ∧ StepResult st o n book others
    (.inner p) next after := by
  have marks := inv.rep.marks n.side.opposite
  simp only [pendingAt, Function.update_self] at marks
  have bound : p < maxPrice := inv.cursor.1 ▸ marks.inside
  have empty : levelIds book n.side.opposite p = [] :=
    (linked_head_none _ _ _ _ (inv.rep.levels n.side.opposite p)).mp head
  obtain ⟨ladder, cursor, result, levels, settled, found⟩ :=
    advance_spec n.side _ book p marks empty inv.cursor.1
  have base : BookRep { st with book := st.book.setLadder n.side.opposite ladder } book others quiet := by
    refine { inv.rep with levels := ?_, marks := ?_ }
    · intro side q
      have old := inv.rep.levels side q
      by_cases same : side = n.side.opposite
      · subst same
        simpa only [set_ladder_self, levels] using old
      · simpa only [set_ladder_other _ _ _ _ same] using old
    · intro side
      by_cases same : side = n.side.opposite
      · subst same
        rw [set_ladder_self]
        exact settled
      · have old := inv.rep.marks side
        simp only [pendingAt, Function.update_of_ne same] at old
        rw [set_ladder_other _ _ _ _ same]
        exact old
  refine ⟨_, .outer cursor, by simp [matchStep, inv.hand, bound, head, result]; rfl, ?_⟩
  cases cursor with
  | none =>
      exact .moved (heap_frame_refl _ _ _) rfl ⟨base, inv.hand, inv.self, inv.fresh, inv.free,
        inv.valid, found⟩ (by simp)
        (by simp [remaining]; omega)
  | some q =>
      refine .moved (heap_frame_refl _ _ _) rfl ⟨base, inv.hand, inv.self, inv.fresh, inv.free,
        inv.valid, ?_⟩ (by simp)
        (by simp only [remaining]; omega)
      simp only [CursorAt, set_ladder_self]
      exact found.1

theorem reject_step (st : BookState) (o : Slot) (n r : Order) (book : Resting)
    (others : Slot → Prop) (p : Nat) (resting : Slot)
    (inv : MatchRep st o n book others (.inner p))
    (head : ((st.book.ladder n.side.opposite).levels p).head = some resting)
    (live : 0 < n.quantity) (stored : st.shared.order resting = r) (best : bestOpposite n book = some r)
    (settled : BookRep st book others quiet) (same : r.clientId = n.clientId) :
    ∃ next after, matchStep st o (.inner p) = .ok (next, after) ∧ StepResult st o n book others
    (.inner p) next after := by
  have bound : p < maxPrice := inv.cursor.1 ▸ (inv.rep.marks n.side.opposite).inside
  refine ⟨{ st with shared := rejectSelfTrade st.shared o }, .done, ?_, ?_⟩
  · simp [matchStep, inv.hand, bound, head, live, stored, same]
  · refine .ended (.reject n) book (heap_frame_refl _ _ _) (.reject r live best same) ?_ ?_ rfl
    · simp [rejectSelfTrade, inv.hand, Shared.sendDropCopy, Shared.deallocate, Shared.emit,
        Event.outputs, dropCopyOf, inv.self]
    · exact book_rep_frame st _ book others quiet settled rfl rfl (fun _ _ => ⟨rfl, rfl, rfl⟩)

end HftExchange
