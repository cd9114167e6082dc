import HftExchange.Book.Run

set_option autoImplicit false

namespace HftExchange

open Base

-- Two memories that a piece of code cannot tell apart as long as it reads the
-- given slots only. What has been handed out since is the same too.
structure Twin (slots : Slot → Prop) (base base' : List Output) (a b : Shared) : Prop where
  order : ∀ slot, slots slot → b.order slot = a.order slot
  next : ∀ slot, slots slot → b.heap.links.next slot = a.heap.links.next slot
  prev : ∀ slot, slots slot → b.heap.links.prev slot = a.heap.links.prev slot
  byId : ∀ slot, slots slot → b.ordersById slot = a.ordersById slot
  out : ∃ delta, a.out = base ++ delta ∧ b.out = base' ++ delta

section
variable (limit : Limit) (links : Links) (o : Slot)

theorem limit_remove_limit : (limit.remove links o).1 =
    { head := if limit.head = some o then links.next o else limit.head,
      tail := if limit.tail = some o then links.prev o else limit.tail } := by
  simp only [Limit.remove, write_through_apply, ite_self]

theorem limit_remove_next (cell : Slot) :
    (limit.remove links o).2.next cell =
    if cell = o then none else if links.prev o = some cell then links.next o else links.next cell := by
  by_cases same : cell = o
  · simp [Limit.remove, same]
  · simp only [Limit.remove, Function.update_of_ne same, write_through_apply, if_neg same]

theorem limit_remove_prev (cell : Slot) :
    (limit.remove links o).2.prev cell =
    if cell = o then none else if links.next o = some cell then links.prev o else links.prev cell := by
  by_cases same : cell = o
  · simp [Limit.remove, same]
  · simp only [Limit.remove, Function.update_of_ne same, write_through_apply, ite_self, if_neg same]

end

section
variable (slots : Slot → Prop) (base base' : List Output) (a b : Shared) (twin : Twin slots base base' a b)
include twin

theorem twin_emit (output : Output) : Twin slots base base' (a.emit output) (b.emit output) := by
  obtain ⟨delta, first, second⟩ := twin.out
  exact { twin with out := ⟨delta ++ [output], by simp [Shared.emit, first], by simp [Shared.emit, second]⟩ }

theorem twin_set_quantity (slot : Slot) (own : slots slot) (quantity : Nat) :
    Twin slots base base' (a.setQuantity slot quantity) (b.setQuantity slot quantity) := by
  refine { twin with order := fun other here => ?_ }
  by_cases same : other = slot
  · subst same
    simp only [Shared.setQuantity, Shared.setOrder, Shared.order, Function.update_self]
    rw [show b.heap.order other = a.heap.order other from twin.order other own]
  · simp only [Shared.setQuantity, Shared.setOrder, Shared.order, Function.update_of_ne same]
    exact twin.order other here

theorem twin_set_by_id (index : Nat) (pointer : Option Slot) (next : Shared)
    (done : a.setById index pointer = .ok next) :
    ∃ next', b.setById index pointer = .ok next' ∧ Twin slots base base' next next' := by
  by_cases inside : index < maxOrdersLookup
  · simp only [Shared.setById, store_ok _ _ _ _ inside, checked_bind_ok, checked_pure,
      Except.ok.injEq] at done ⊢
    subst done
    refine ⟨_, rfl, { twin with byId := fun slot here => ?_ }⟩
    by_cases same : slot = index
    · simp [same]
    · simp only [Function.update_of_ne same]
      exact twin.byId slot here
  · simp [Shared.setById, store, inside] at done

theorem twin_set_links (links links' : Links) (nexts : ∀ slot, slots slot →
    links'.next slot = links.next slot)
    (prevs : ∀ slot, slots slot → links'.prev slot = links.prev slot) :
    Twin slots base base' (a.setLinks links) (b.setLinks links') :=
  { twin with next := nexts, prev := prevs }

theorem twin_remove (limit : Limit) (o : Slot) (own : slots o) :
    (limit.remove b.heap.links o).1 = (limit.remove a.heap.links o).1 ∧
    Twin slots base base' (a.setLinks (limit.remove a.heap.links o).2)
    (b.setLinks (limit.remove b.heap.links o).2) := by
  have next := twin.next o own
  have prev := twin.prev o own
  constructor
  · rw [limit_remove_limit, limit_remove_limit, next, prev]
  · refine twin_set_links slots base base' a b twin _ _ (fun slot here => ?_) fun slot here => ?_
    · rw [limit_remove_next, limit_remove_next, next, prev, twin.next slot here]
    · rw [limit_remove_prev, limit_remove_prev, next, prev, twin.prev slot here]

theorem twin_add (limit : Limit) (o : Slot) :
    (limit.add b.heap.links o).1 = (limit.add a.heap.links o).1 ∧
    Twin slots base base' (a.setLinks (limit.add a.heap.links o).2)
    (b.setLinks (limit.add b.heap.links o).2) := by
  constructor
  · unfold Limit.add
    cases limit.tail <;> rfl
  · refine twin_set_links slots base base' a b twin _ _ (fun slot here => ?_) fun slot here => ?_
    · unfold Limit.add
      cases limit.tail with
      | none =>
          by_cases same : slot = o
          · simp [same]
          · simpa [same] using twin.next slot here
      | some last =>
          by_cases same : slot = o
          · simp [same]
          · by_cases final : slot = last
            · subst final
              simp [same]
            · simpa [same, final] using twin.next slot here
    · unfold Limit.add
      cases limit.tail <;>
        by_cases same : slot = o
      · simp [same]
      · simpa [same] using twin.prev slot here
      · simp [same]
      · simpa [same] using twin.prev slot here

theorem twin_report (n r : Order) : Twin slots base base' (reportMatch a n r) (reportMatch b n r) := by
  unfold reportMatch
  simp only [Shared.broadcast, Shared.sendDropCopy, Shared.sendAck]
  iterate 6 refine twin_emit slots base base' _ _ ?_ _
  exact twin

theorem twin_reject (o : Slot) (own : slots o) :
    Twin slots base base' (rejectSelfTrade a o) (rejectSelfTrade b o) := by
  simp only [rejectSelfTrade, Shared.sendDropCopy, Shared.deallocate, twin.order o own]
  exact twin_emit slots base base' _ _ (twin_emit slots base base' a b twin _) _

theorem twin_fill (level : Limit) (o resting : Slot) (own : slots o) (other : slots resting)
    (next : Shared) (left : Limit)
    (done : fillHead a level o resting = .ok (next, left)) :
    ∃ next', fillHead b level o resting = .ok (next', left) ∧ Twin slots base base' next next' := by
  have reported := twin_report slots base base' a b twin (a.order o) (a.order resting)
  unfold fillHead at done ⊢
  simp only [twin.order o own, twin.order resting other]
  simp only at done
  split at done
  · rename_i exhausted
    rw [if_pos exhausted]
    obtain ⟨middle, indexed, rest⟩ := (checked_bind_eq_ok _ _ _).mp done
    obtain ⟨middle', indexed', twin'⟩ := twin_set_by_id slots base base' _ _
      (twin_set_quantity slots base base' _ _ reported o own _) _ _ _ indexed
    obtain ⟨same, removed⟩ := twin_remove slots base base' _ _ twin' level resting other
    cases rest
    rw [indexed', checked_bind_ok]
    exact ⟨_, by rw [same]; rfl, twin_emit slots base base' _ _ removed _⟩
  · rename_i larger
    rw [if_neg larger]
    cases done
    exact ⟨_, rfl, twin_set_quantity slots base base' _ _
      (twin_set_quantity slots base base' _ _ reported resting other _) o own _⟩

theorem twin_rest (book : OrderBook) (o : Slot) (own : slots o) (next : BookState)
    (done : restOrder ⟨a, book⟩ o = .ok next) :
    ∃ next', restOrder ⟨b, book⟩ o = .ok next' ∧ next'.book = next.book ∧
    Twin slots base base' next.shared next'.shared := by
  unfold restOrder at done ⊢
  simp only [twin.order o own]
  obtain ⟨level, fetched, done⟩ := (checked_bind_eq_ok _ _ _).mp done
  obtain ⟨same, added⟩ := twin_add slots base base' a b twin level o
  rw [fetched, checked_bind_ok]
  simp only [same]
  simp only at done
  obtain ⟨ladder, marked, done⟩ := (checked_bind_eq_ok _ _ _).mp done
  rw [marked, checked_bind_ok]
  obtain ⟨middle, indexed, done⟩ := (checked_bind_eq_ok _ _ _).mp done
  obtain ⟨middle', indexed', twin'⟩ := twin_set_by_id slots base base' _ _ added _ _ _ indexed
  cases done
  rw [indexed', checked_bind_ok]
  exact ⟨_, rfl, rfl, twin_emit slots base base' _ _ (twin_emit slots base base' _ _ twin' _) _⟩

end

structure Within (live : Slot → Prop) (st : BookState) : Prop where
  heads : ∀ side p h, ((st.book.ladder side).levels p).head = some h → live h
  follows : ∀ slot t, live slot → st.shared.heap.links.next slot = some t → live t

theorem advance_levels (side : Side) (ladder left : Ladder) (p : Nat) (bound : p < maxPrice)
    (next : Option Nat)
    (done : advance side ladder p = .ok (left, next)) : left.levels = ladder.levels := by
  have erased : (erasePrice ladder p).levels = ladder.levels := rfl
  cases side with
  | buy =>
      simp only [advance, advanceAsk, clear_bit_ok ladder p bound, checked_bind_ok] at done
      obtain ⟨found, _, done⟩ := (checked_bind_eq_ok _ _ _).mp done
      cases found <;> cases done <;> exact erased
  | sell =>
      simp only [advance, advanceBid, clear_bit_ok ladder p bound, checked_bind_ok] at done
      split at done
      · obtain ⟨found, _, done⟩ := (checked_bind_eq_ok _ _ _).mp done
        cases found <;> cases done <;> exact erased
      · cases done
        exact erased

section
variable (live : Slot → Prop)

theorem fill_within (st : BookState) (side : Side) (p : Nat) (o resting : Slot)
    (inside : Within live st) (own : live resting)
    (next : Shared) (left : Limit) (head : ((st.book.ladder side).levels p).head = some resting)
    (done : fillHead st.shared ((st.book.ladder side).levels p) o resting = .ok (next, left)) :
    Within live ⟨next, st.book.setLadder side ((st.book.ladder side).setLevel p left)⟩ := by
  have links : (∀ h, left.head = some h → live h) ∧ ∀ slot t, live slot →
      next.heap.links.next slot = some t → live t := by
    unfold fillHead at done
    simp only at done
    split at done
    · obtain ⟨middle, indexed, rest⟩ := (checked_bind_eq_ok _ _ _).mp done
      have same : middle.heap.links = st.shared.heap.links := by
        obtain ⟨_, _, result⟩ := (checked_bind_eq_ok _ _ _).mp indexed
        cases result
        rfl
      cases rest
      constructor
      · intro h first
        rw [limit_remove_limit, same] at first
        simp only [head, if_true] at first
        exact inside.follows resting h own first
      · intro slot t here found
        have found : ((((st.book.ladder side).levels p).remove middle.heap.links resting).2.next
          slot) = some t := found
        rw [limit_remove_next, same] at found
        split at found
        · cases found
        · split at found
          · exact inside.follows resting t own found
          · exact inside.follows slot t here found
    · cases done
      exact ⟨fun h first => by rw [head] at first; exact Option.some.inj first ▸ own, inside.follows⟩
  refine ⟨fun other q h first => ?_, links.2⟩
  simp only [OrderBook.setLadder] at first
  by_cases here : other = side
  · subst here
    rw [Function.update_self] at first
    simp only [Ladder.setLevel] at first
    by_cases level : q = p
    · subst level
      rw [Function.update_self] at first
      exact links.1 h first
    · rw [Function.update_of_ne level] at first
      exact inside.heads other q h first
  · rw [Function.update_of_ne here] at first
    exact inside.heads other q h first

section
variable (o : Slot) (base base' : List Output)

def Reach (live : Slot → Prop) (o slot : Slot) : Prop := live slot ∨ slot = o

theorem inner_step_twin (st : BookState) (b : Shared)
    (twin : Twin (Reach live o) base base' st.shared b) (inside : Within live st)
    (p : Nat) (pc' : MatchPc) (next : BookState) (done : matchStep st o (.inner p) = .ok (next, pc')) :
    ∃ b', matchStep ⟨b, st.book⟩ o (.inner p) = .ok (⟨b', next.book⟩, pc') ∧
    Twin (Reach live o) base base' next.shared b' ∧
      (pc' = .done ∨ Within live next) := by
  have own : Reach live o o := .inr rfl
  have order : b.order o = st.shared.order o := twin.order o own
  simp only [matchStep] at done
  simp only [matchStep, order]
  obtain ⟨level, fetched, done⟩ := (checked_bind_eq_ok _ _ _).mp done
  have bound : p < maxPrice := by
    by_contra outside
    simp [fetch, outside] at fetched
  rw [fetch_ok _ _ _ bound] at fetched ⊢
  obtain rfl := Except.ok.inj fetched
  rw [checked_bind_ok]
  cases head : ((st.book.ladder (st.shared.order o).side.opposite).levels p).head with
  | some resting =>
      have there : live resting := inside.heads _ p resting head
      simp only [head] at done
      split at done
      · rename_i hungry
        simp only [if_pos hungry, twin.order resting (.inl there)]
        split at done
        · rename_i selfTrade
          cases done
          exact ⟨_, by rw [if_pos selfTrade]; rfl, twin_reject _ base base' _ _ twin o own, .inl rfl⟩
        · rename_i stranger
          obtain ⟨⟨shared, left⟩, filled, done⟩ := (checked_bind_eq_ok _ _ _).mp done
          cases done
          obtain ⟨b', filled', twin'⟩ := twin_fill _ base base' _ _ twin _ o resting own
            (.inl there) shared left filled
          refine ⟨b', by rw [if_neg stranger, filled']; rfl, twin', .inr ?_⟩
          exact fill_within live st _ p o resting inside there shared left head filled
      · rename_i spent
        cases done
        exact ⟨b, by simp only [if_neg spent]; rfl, twin, .inr inside⟩
  | none =>
      simp only [head] at done
      obtain ⟨⟨left, best⟩, advanced, done⟩ := (checked_bind_eq_ok _ _ _).mp done
      cases done
      refine ⟨b, by simp only [advanced, checked_bind_ok]; rfl, twin,
        .inr ⟨fun side q h first => ?_, inside.follows⟩⟩
      have levels := advance_levels _ _ left p bound best advanced
      simp only [OrderBook.setLadder] at first
      by_cases here : side = (st.shared.order o).side.opposite
      · subst here
        rw [Function.update_self, levels] at first
        exact inside.heads _ q h first
      · rw [Function.update_of_ne here] at first
        exact inside.heads side q h first

theorem match_step_twin (st : BookState) (b : Shared)
    (twin : Twin (Reach live o) base base' st.shared b) (inside : Within live st)
    (pc pc' : MatchPc) (next : BookState) (done : matchStep st o pc = .ok (next, pc')) :
    ∃ b', matchStep ⟨b, st.book⟩ o pc = .ok (⟨b', next.book⟩, pc') ∧
    Twin (Reach live o) base base' next.shared b' ∧
      (pc' = .done ∨ Within live next) := by
  have own : Reach live o o := .inr rfl
  have order : b.order o = st.shared.order o := twin.order o own
  cases pc with
  | outer p =>
      cases p with
      | none =>
          cases done
          exact ⟨b, rfl, twin, .inr inside⟩
      | some p =>
          simp only [matchStep] at done
          simp only [matchStep, order]
          split at done
          · rename_i crossing
            cases done
            exact ⟨b, by rw [if_pos crossing]; rfl, twin, .inr inside⟩
          · rename_i crossing
            cases done
            exact ⟨b, by rw [if_neg crossing]; rfl, twin, .inr inside⟩
  | inner p => exact inner_step_twin live o base base' st b twin inside p pc' next done
  | finish =>
      simp only [matchStep] at done
      simp only [matchStep, order]
      split at done
      · rename_i left
        obtain ⟨rested, result, done⟩ := (checked_bind_eq_ok _ _ _).mp done
        cases done
        obtain ⟨next', result', same, twin'⟩ := twin_rest _ base base' _ _ twin st.book o own _ result
        refine ⟨next'.shared, ?_, twin', .inl rfl⟩
        rw [if_pos left, result', ← same]
        rfl
      · rename_i spent
        cases done
        exact ⟨_, by rw [if_neg spent]; rfl, twin_emit _ base base' _ _ twin _, .inl rfl⟩
  | done =>
      cases done
      exact ⟨b, rfl, twin, .inl rfl⟩

theorem match_loop_twin (fuel : Nat) (st : BookState) (b : Shared)
    (twin : Twin (Reach live o) base base' st.shared b) (pc : MatchPc)
    (inside : pc = .done ∨ Within live st) (next : BookState) (done : matchLoop fuel st o pc = .ok next) :
    ∃ b', matchLoop fuel ⟨b, st.book⟩ o pc = .ok ⟨b', next.book⟩ ∧
    Twin (Reach live o) base base' next.shared b' := by
  induction fuel generalizing st b pc with
  | zero => cases done
  | succ fuel ih =>
      by_cases ended : pc = .done
      · subst ended
        cases done
        exact ⟨b, rfl, twin⟩
      · rw [matchLoop] at done ⊢
        · obtain ⟨⟨middle, pc'⟩, stepped, rest⟩ := (checked_bind_eq_ok _ _ _).mp done
          obtain ⟨b', stepped', twin', inside'⟩ := match_step_twin live o base base' st b twin
            (inside.resolve_left ended) pc pc' middle stepped
          obtain ⟨b'', rest', twin''⟩ := ih middle b' twin' pc' inside' rest
          exact ⟨b'', by rw [stepped', checked_bind_ok]; exact rest', twin''⟩
        · exact ended
        · exact ended

-- A match reads the slots of its book and its own order only.
theorem match_order_twin (st : BookState) (b : Shared)
    (twin : Twin (Reach live o) base base' st.shared b) (inside : Within live st)
    (next : BookState) (done : matchOrder st o = .ok next) :
    ∃ b', matchOrder ⟨b, st.book⟩ o = .ok ⟨b', next.book⟩ ∧
    Twin (Reach live o) base base' next.shared b' := by
  have order : b.order o = st.shared.order o := twin.order o (.inr rfl)
  simp only [matchOrder, matchStart] at done
  simp only [matchOrder, matchStart, order]
  split at done
  · rename_i outside
    rw [if_pos outside]
    exact match_loop_twin live o base base' matchFuel ⟨st.shared.deallocate o, st.book⟩ (b.deallocate o)
      (twin_emit _ base base' _ _ twin _) .done (.inl rfl) next done
  · rename_i known
    rw [if_neg known]
    exact match_loop_twin live o base base' matchFuel st b twin _ (.inr inside) next done

theorem cancel_order_twin (slots : Slot → Prop) (st : BookState) (b : Shared)
    (twin : Twin slots base base' st.shared b) (id : Nat)
    (own : slots id) (self : ∀ slot, st.shared.ordersById id = some slot → slot = id) (next : BookState)
    (done : cancelOrder st id = .ok next) :
    ∃ b', cancelOrder ⟨b, st.book⟩ id = .ok ⟨b', next.book⟩ ∧ Twin slots base base' next.shared b' := by
  unfold cancelOrder at done ⊢
  split at done
  · rename_i outside
    cases done
    exact ⟨b, by rw [if_pos outside]; rfl, twin⟩
  · rename_i inside
    rw [if_neg inside]
    rw [fetch_ok _ _ _ (Nat.lt_of_not_le inside), checked_bind_ok] at done ⊢
    simp only [twin.byId id own]
    cases found : st.shared.ordersById id with
    | none =>
        rw [found] at done
        cases done
        exact ⟨b, rfl, twin⟩
    | some o =>
        obtain rfl : o = id := self o found
        rw [found] at done
        simp only [twin.order o own]
        simp only at done
        obtain ⟨level, fetched, done⟩ := (checked_bind_eq_ok _ _ _).mp done
        rw [fetched, checked_bind_ok]
        have told := twin_emit slots base base' _ _ (twin_emit slots base base' _ _ twin
          (.itch ⟨ascii 'X', (st.shared.order o).instrumentId, (st.shared.order o).internalId,
            (st.shared.order o).quantity,
            (st.shared.order o).price, sideByte (st.shared.order o).side⟩))
          (.dropCopy ⟨(st.shared.order o).clientOrderId, (st.shared.order o).internalId,
            (st.shared.order o).price,
            (st.shared.order o).quantity, (st.shared.order o).instrumentId, .canceled,
              (st.shared.order o).side⟩)
        obtain ⟨same, removed⟩ := twin_remove slots base base' _ _ told level o own
        obtain ⟨ladder, unmarked, done⟩ := (checked_bind_eq_ok _ _ _).mp done
        obtain ⟨middle, indexed, done⟩ := (checked_bind_eq_ok _ _ _).mp done
        obtain ⟨middle', indexed', twin'⟩ := twin_set_by_id slots base base' _ _ removed _ _ _ indexed
        cases done
        refine ⟨middle'.deallocate o, ?_, twin_emit slots base base' _ _ twin' _⟩
        simp only [Shared.emit] at same indexed'
        simp only [Shared.broadcast, Shared.sendDropCopy, Shared.emit] at unmarked
        simp only [Shared.broadcast, Shared.sendDropCopy, Shared.emit, same, unmarked,
          checked_bind_ok, indexed', checked_pure]

end

end

end HftExchange
