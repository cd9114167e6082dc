import HftExchange.Engine.StepEffect

set_option autoImplicit false

namespace HftExchange

open Base

def Names (m : DropCopyMessage) (o : Order) : Prop :=
  m.clientOrderId = o.clientOrderId ∧ m.internalId = o.internalId ∧
    m.instrumentId = o.instrumentId ∧ m.side = o.side

def ReportedIn (more : List Output) (o : Order) : Prop := ∃ m ∈ dropCopySequence more, Names m o

theorem trade_reported (n r : Order) : ReportedIn (Event.trade n r).outputs n := by
  refine ⟨⟨n.clientOrderId, n.internalId, r.price, tradeQty n r, n.instrumentId,
    fillState n (tradeQty n r), n.side⟩, ?_, rfl, rfl, rfl, rfl⟩
  simp [dropCopySequence, Event.outputs, itchOf, dropCopyOf, ackOf]

theorem ending_reported (book left : Resting) (n : Order) (event : Event)
    (step : MatchEvent book n event left none)
    (live : 0 < n.quantity) : ReportedIn event.outputs n := by
  cases step with
  | reject r _ best same =>
      refine ⟨⟨n.clientOrderId, n.internalId, n.price, n.quantity, n.instrumentId, .rejected,
        n.side⟩, ?_, rfl, rfl, rfl, rfl⟩
      simp [dropCopySequence, Event.outputs, dropCopyOf]
  | rest _ absent =>
      refine ⟨⟨n.clientOrderId, n.internalId, n.price, n.quantity, n.instrumentId, .new, n.side⟩,
        ?_, rfl, rfl, rfl, rfl⟩
      simp [dropCopySequence, Event.outputs, itchOf, dropCopyOf]
  | filled spent => omega

theorem continue_task_progress (shard next : Shard) (books : Nat → Resting) (inst : Nat) (o : Slot)
    (pc : MatchPc) (after : EnginePc)
    (rep : EngineRep shard books (.matching inst o pc))
    (done : continueTask shard (.matching inst o pc) = .ok (next, after)) :
    ∃ more, next.shared.out = shard.shared.out ++ more ∧
      ((∃ books' pc', after = .matching inst o pc' ∧ EngineRep next books' after ∧
          remaining (next.shared.order o) (books' inst) pc' < remaining (shard.shared.order o)
          (books inst) pc ∧
          (next.shared.order o = shard.shared.order o ∨ ReportedIn more (shard.shared.order o))) ∨
        (after = .idle ∧ (0 < (shard.shared.order o).quantity →
          ReportedIn more (shard.shared.order o)))) := by
  cases rep with
  | matching _ _ n _ rep inv running placed =>
      obtain ⟨mid, then_, step, result⟩ := match_step_refines _ o n (books inst) _ pc inv running
      have book : shard.book inst = .ok ⟨shard.shared, shard.books inst⟩ := by
        simp [Shard.book, placed.2.1, placed.2.2]
      have result' : continueTask shard (.matching inst o pc) = .ok
          (shard.setBook inst mid, resume inst o then_) := by
        simp [continueTask, book, step]
      cases done.symm.trans result'
      have hand : shard.shared.order o = n := inv.hand
      rw [hand]
      cases result with
      | moved frame out later live smaller =>
          have kept : (shard.setBook inst mid).shared.order o = n := later.hand
          have silent : (shard.setBook inst mid).shared.out = shard.shared.out := out
          refine ⟨[], by simpa using silent, .inl ⟨Function.update books inst (books inst), then_,
            resume_running inst o then_ live, ?_, ?_, .inl kept⟩⟩
          · rw [resume_running inst o then_ live]
            exact running_rep shard books inst o n pc rep inv placed mid (books inst) frame
              (fun _ h => .inl h)
              (fun r inside => ⟨r, .inl inside, rfl⟩) n then_ live later n.quantity rfl
          · rw [kept, Function.update_self]
            exact smaller
      | traded r frame event out later live smaller =>
          have left : (shard.setBook inst mid).shared.order o = reduced n (tradeQty n r) := later.hand
          refine ⟨_, out, .inl
            ⟨Function.update books inst (settle (books inst) r.internalId (tradeQty n r)), then_,
            resume_running inst o then_ live, ?_, ?_, .inr (trade_reported n r)⟩⟩
          · rw [resume_running inst o then_ live]
            refine running_rep shard books inst o n pc rep inv placed mid _ frame
              (fun slot member => .inl (settle_ids_subset _ _ _ slot member))
                (fun s member => ?_) _ then_ live later _ rfl
            obtain ⟨old, before, same⟩ := settle_origin _ _ _ s member
            refine ⟨old, .inl before, ?_⟩
            rcases same with rfl | rfl <;> rfl
          · rw [left, Function.update_self]
            exact smaller
      | ended event left frame step' out later finished =>
          subst finished
          exact ⟨_, out, .inr ⟨rfl, ending_reported (books inst) left n event step'⟩⟩

theorem start_task_matching (shard next : Shard) (o : Slot) (after : EnginePc)
    (known : (shard.shared.order o).instrumentId < maxInstruments)
    (routed : (shard.shared.order o).instrumentId % numShards = shard.id)
    (bound : (shard.shared.order o).internalId < maxOrdersLookup)
    (price : (shard.shared.order o).price < maxPrice)
    (done : startTask shard (.new o) = .ok (next, after)) :
    next.shared = shard.shared ∧ ∃ pc, after = .matching (shard.shared.order o).instrumentId o pc := by
  have book : shard.book (shard.shared.order o).instrumentId =
      .ok ⟨shard.shared, shard.books (shard.shared.order o).instrumentId⟩ := by
    simp [Shard.book, known, routed]
  have inside : ¬ (maxOrdersLookup ≤ (shard.shared.order o).internalId ∨
    maxPrice ≤ (shard.shared.order o).price) := by omega
  simp only [startTask, known, if_true, book, checked_bind_ok, matchStart, if_neg inside,
    checked_pure, Except.ok.injEq, Prod.mk.injEq] at done
  obtain ⟨rfl, rfl⟩ := done
  exact ⟨rfl, _, rfl⟩

end HftExchange
