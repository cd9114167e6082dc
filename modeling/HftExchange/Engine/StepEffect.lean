import HftExchange.Engine.Stepwise

set_option autoImplicit false

namespace HftExchange

open Base

theorem resume_running (inst : Nat) (o : Slot) (pc : MatchPc) (running : pc ≠ .done) :
    resume inst o pc = .matching inst o pc := by
  cases pc with
  | done => exact absurd rfl running
  | outer p => rfl
  | inner p => rfl
  | finish => rfl

theorem trade_releases (taker maker : Order) :
    releases (Event.trade taker maker).outputs =
    if maker.quantity ≤ tradeQty taker maker then [maker.internalId] else [] := by
  by_cases all : maker.quantity ≤ tradeQty taker maker <;> simp [releases, Event.outputs, itchOf,
    dropCopyOf, ackOf, all]

theorem member_settle (book : Resting) (r : Order) (qty : Nat) (distinct : (ids book).Nodup)
    (inside : r ∈ book) (slot : Slot) :
    memberCount (settle book r.internalId qty) slot + (if r.quantity ≤ qty then [r.internalId]
      else []).count slot =
      memberCount book slot := by
  by_cases all : r.quantity ≤ qty
  · rw [settle_exhausted book r qty distinct inside all, if_pos all, memberCount, memberCount,
      ids_without, List.count_singleton]
    by_cases same : slot = r.internalId
    · subst same
      have member : r.internalId ∈ ids book := List.mem_map_of_mem inside
      simp [member]
    · simp [same, Ne.symm same]
  · rw [settle_reduced book r qty distinct inside (Nat.lt_of_not_le all), if_neg all, memberCount,
      memberCount, ids_lowered]
    rfl

section
variable (shard : Shard) (books : Nat → Resting) (inst : Nat) (o : Slot) (n : Order) (pc : MatchPc)
  (rep : ShardRep shard books (Function.update allQuiet inst (pendingAt n.side pc)))
  (inv : MatchRep ⟨shard.shared, shard.books inst⟩ o n (books inst) (liveElsewhere books inst) pc)
  (placed : n.instrumentId = inst ∧ inst < maxInstruments ∧ inst % numShards = shard.id)
    (mid : BookState) (book : Resting)
  (frame : HeapFrame shard.shared mid.shared o (books inst))
    (grown : ∀ slot ∈ ids book, slot ∈ ids (books inst) ∨ slot = o)
  (origin : ∀ r ∈ book, ∃ old, (old ∈ books inst ∨ old = n) ∧ r = { old with quantity := r.quantity })
include rep inv placed frame grown origin

theorem matched_rep (after : Side → Option Nat)
    (changed : BookRep mid book (liveElsewhere books inst) after) :
    ShardRep (shard.setBook inst mid) (Function.update books inst book)
    (Function.update allQuiet inst after) := by
  have updated := shard_rep_update shard books _ inst o mid book after rep changed frame inv.free
      grown fun r inside => by
    obtain ⟨old, before, same⟩ := origin r inside
    have sameInst : r.instrumentId = old.instrumentId := by rw [same]
    rcases before with old' | rfl
    · exact ⟨sameInst.trans (rep.placed inst old old').1, placed.2⟩
    · exact ⟨sameInst.trans placed.1, placed.2⟩
  rwa [Function.update_idem] at updated

theorem running_rep (n' : Order) (after : MatchPc) (running : after ≠ .done)
    (next : MatchRep mid o n' book (liveElsewhere books inst) after) (left : Nat)
    (stage : n' = { n with quantity := left }) :
    EngineRep (shard.setBook inst mid) (Function.update books inst book) (.matching inst o after) := by
  have instrument : n'.instrumentId = n.instrumentId := by rw [stage]
  have rep' := matched_rep shard books inst o n pc rep inv placed mid book frame grown origin _ next.rep
  have equal : liveElsewhere (Function.update books inst book) inst = liveElsewhere books inst :=
    funext fun slot => propext (live_elsewhere_update books inst book slot)
  have inv' : MatchRep ⟨(shard.setBook inst mid).shared, (shard.setBook inst mid).books inst⟩ o n'
      (Function.update books inst book inst)
        (liveElsewhere (Function.update books inst book) inst) after := by
    rw [equal]
    simpa [Shard.setBook] using next
  exact .matching inst o n' after rep' inv' running ⟨instrument.trans placed.1, placed.2⟩

theorem running_effect (n' : Order) (after : MatchPc) (more : List Output) (running : after ≠ .done)
    (next : MatchRep mid o n' book (liveElsewhere books inst) after) (left : Nat)
    (stage : n' = { n with quantity := left })
    (out : mid.shared.out = shard.shared.out ++ more)
    (balance : ∀ slot, memberCount book slot + (releases more).count slot = memberCount (books inst) slot) :
    EngineEffect shard (.matching inst o pc) none (shard.setBook inst mid) (.matching inst o after) := by
  have rep' := matched_rep shard books inst o n pc rep inv placed mid book frame grown origin _ next.rep
  have ends := running_rep shard books inst o n pc rep inv placed mid book frame grown origin n'
    after running next left stage
  refine ⟨⟨_, ends⟩, rfl, ⟨more, out, fun slot => ?_⟩, fun slot live => ?_, fun slot absent _ => ?_,
    fun slot same => .inl same⟩
  · have total := update_balance shard books _ rep inst book _ _ rep' slot
    have moved := balance slot
    simp only [handCount, EnginePc.slot, reduceCtorEq, if_false, Option.some.injEq]
    omega
  · by_cases own : slot = o
    · subst own
      exact ⟨left, by
        rw [show (shard.setBook inst mid).shared.order slot = n' from next.hand,
          show shard.shared.order slot = n from inv.hand, stage]⟩
    · have indexed : liveCount (shard.setBook inst mid) slot ≠ 0 := by
        simpa [handCount, EnginePc.slot, Ne.symm own] using live
      exact update_kept shard books _ rep inst book o n mid.shared inv.hand inv.self inv.free frame
        next.rep.stored origin slot
        (live_after books inst book _ _ rep' slot indexed)
  · have notHand : slot ≠ o := by
      rintro rfl
      simp [handCount, EnginePc.slot] at absent
    exact (frame slot (not_live_absent shard books _ rep inst slot (by omega)) notHand).1

theorem ended_effect (more : List Output) (changed : BookRep mid book (liveElsewhere books inst) quiet)
    (out : mid.shared.out = shard.shared.out ++ more)
    (balance : ∀ slot, memberCount book slot + (releases more).count slot =
      memberCount (books inst) slot + if slot = o then 1 else 0) :
    EngineEffect shard (.matching inst o pc) none (shard.setBook inst mid) .idle := by
  have rep' := matched_rep shard books inst o n pc rep inv placed mid book frame grown origin _ changed
  have idle : ShardRep (shard.setBook inst mid) (Function.update books inst book) allQuiet := by
    rwa [update_quiet] at rep'
  refine ⟨⟨_, .idle idle⟩, rfl, ⟨more, out, fun slot => ?_⟩, fun slot live => ?_,
    fun slot absent _ => ?_, fun slot same => by cases same⟩
  · have total := update_balance shard books _ rep inst book _ _ rep' slot
    have moved := balance slot
    simp only [handCount, EnginePc.slot, reduceCtorEq, if_false, Option.some.injEq, @eq_comm _ o slot]
    omega
  · have indexed : liveCount (shard.setBook inst mid) slot ≠ 0 :=
      by simpa [handCount, EnginePc.slot] using live
    exact update_kept shard books _ rep inst book o n mid.shared inv.hand inv.self inv.free frame
      changed.stored origin slot
      (live_after books inst book _ _ rep' slot indexed)
  · have notHand : slot ≠ o := by
      rintro rfl
      simp [handCount, EnginePc.slot] at absent
    exact (frame slot (not_live_absent shard books _ rep inst slot (by omega)) notHand).1

end

theorem continue_task_effect (shard : Shard) (books : Nat → Resting) (inst : Nat) (o : Slot) (pc : MatchPc)
    (rep : EngineRep shard books (.matching inst o pc)) :
    ∃ next after, continueTask shard (.matching inst o pc) = .ok (next, after) ∧
      EngineEffect shard (.matching inst o pc) none next after := by
  cases rep with
  | matching _ _ n _ rep inv running placed =>
      obtain ⟨mid, after, step, result⟩ := match_step_refines _ o n (books inst) _ pc inv running
      have book : shard.book inst = .ok ⟨shard.shared, shard.books inst⟩ := by
        simp [Shard.book, placed.2.1, placed.2.2]
      refine ⟨shard.setBook inst mid, resume inst o after, by simp [continueTask, book, step], ?_⟩
      have kept : ∀ r ∈ books inst, ∃ old, (old ∈ books inst ∨ old = n) ∧
          r = { old with quantity := r.quantity } :=
        fun r inside => ⟨r, .inl inside, rfl⟩
      cases result with
      | moved frame out next live smaller =>
          rw [resume_running inst o after live]
          exact running_effect shard books inst o n pc rep inv placed mid (books inst) frame
            (fun _ h => .inl h) kept n after [] live
            next n.quantity rfl (by simpa using out) (by simp [releases])
      | traded r frame event out next live smaller =>
          rw [resume_running inst o after live]
          cases event with
          | trade _ positive best other =>
              have inside := best_opposite_mem n r _ best
              refine running_effect shard books inst o n pc rep inv placed mid _ frame
                (fun slot member => .inl (settle_ids_subset _ _ _ slot member))
                  (fun s member => ?_) _ after _ live next _ rfl out ?_
              · obtain ⟨old, before, same⟩ := settle_origin _ _ _ s member
                refine ⟨old, .inl before, ?_⟩
                rcases same with rfl | rfl <;> rfl
              · intro slot
                rw [trade_releases]
                exact member_settle _ r _ inv.rep.distinct inside slot
      | ended event left frame step' out next finished =>
          subst finished
          have self := inv.self
          refine ended_effect shard books inst o n pc rep inv placed mid left frame ?_ ?_
            event.outputs next out ?_
          · cases step' with
            | reject r live best same => exact fun slot member => .inl member
            | filled spent => exact fun slot member => .inl member
            | rest live absent =>
                intro slot member
                simpa [ids, self, or_comm] using member
          · cases step' with
            | reject r live best same => exact kept
            | filled spent => exact kept
            | rest live absent =>
                intro r member
                rcases List.mem_append.mp member with before | last
                · exact kept r before
                · exact ⟨n, .inr rfl, by rw [List.mem_singleton.mp last]⟩
          · intro slot
            cases step' with
            | reject r live best same =>
                simp [releases, Event.outputs, dropCopyOf, List.count_singleton, self, @eq_comm _ o slot]
            | filled spent => simp [releases, Event.outputs, List.count_singleton, self, @eq_comm _ o slot]
            | rest live absent =>
                have split : ids (books inst ++ [n]) = ids (books inst) ++ [o] := by simp [ids, self]
                by_cases same : slot = o
                · simp [releases, Event.outputs, itchOf, dropCopyOf, memberCount, split, same, inv.fresh]
                · simp [releases, Event.outputs, itchOf, dropCopyOf, memberCount, split, same]

theorem start_cancel_effect (shard : Shard) (books : Nat → Resting) (idx token : Nat)
    (rep : ShardRep shard books allQuiet)
    (bound : idx < maxOrdersLookup) :
    ∃ next, startTask shard (.cancel idx token) = .ok (next, .idle) ∧
    EngineEffect shard .idle none next .idle := by
  obtain ⟨next, events, books', result, rep', same, change, out, frame⟩ :=
    shard_cancel_refines shard books idx token rep bound
  have result : processTask shard (.cancel idx token) = .ok next := result
  refine ⟨next, by simp [startTask, result], ⟨books', .idle rep'⟩, same, ⟨_, out, fun slot => ?_⟩,
    fun slot live => ?_,
    fun slot absent _ => ?_, fun slot same => by cases same⟩
  · cases change with
    | ignored _ _ stale =>
        rw [live_count_eq shard next books books allQuiet allQuiet rep rep' slot Iff.rfl]
        simp [handCount, EnginePc.slot, releases]
    | canceled r inside =>
        have total := update_balance shard books _ rep r.instrumentId _ next _ rep' slot
        have gone : memberCount (without (books r.instrumentId) r.internalId)
          slot + [r.internalId].count slot =
            memberCount (books r.instrumentId) slot := by
          have settled := member_settle (books r.instrumentId) r r.quantity (rep.each _).distinct inside slot
          rwa [settle_exhausted _ r _ (rep.each _).distinct inside (Nat.le_refl _),
            if_pos (Nat.le_refl _)] at settled
        have freed : releases ([Event.cancel r].flatMap Event.outputs) = [r.internalId] := by
          simp [releases, Event.outputs, itchOf, dropCopyOf]
        rw [freed]
        simp only [handCount, EnginePc.slot, reduceCtorEq, if_false]
        omega
  · refine ⟨(shard.shared.order slot).quantity, ?_⟩
    have indexed : liveCount next slot ≠ 0 := by simpa [handCount, EnginePc.slot] using live
    have same : ∀ inst, ∀ r ∈ books' inst, r ∈ books inst := by
      cases change with
      | ignored _ _ stale => exact fun inst r inside => inside
      | canceled r inside =>
          intro inst s member
          by_cases here : inst = r.instrumentId
          · subst here
            rw [Function.update_self] at member
            exact List.mem_of_mem_filter member
          · rwa [Function.update_of_ne here] at member
    rcases live_count_iff next books' allQuiet rep' slot with ⟨⟨inst, member⟩, _⟩ | ⟨_, zero⟩
    · obtain ⟨r, inside, rfl⟩ := List.mem_map.mp member
      rw [(rep'.each inst).stored r inside, (rep.each inst).stored r (same inst r inside)]
    · exact absurd zero indexed
  · exact frame slot fun inst => not_live_absent shard books _ rep inst slot (by omega)

-- A NEW task begins a match, unless the price is outside the ladder: then the
-- slot is released at once.
theorem start_new_effect (shard : Shard) (books : Nat → Resting) (o : Slot)
    (rep : ShardRep shard books allQuiet)
    (self : (shard.shared.order o).internalId = o) (positive : 0 < o) (bound : o < maxOrdersLookup)
    (known : (shard.shared.order o).instrumentId < maxInstruments)
    (routed : (shard.shared.order o).instrumentId % numShards = shard.id) (absent : liveCount shard o = 0) :
    ∃ next after, startTask shard (.new o) = .ok (next, after) ∧
    EngineEffect shard .idle (some o) next after := by
  generalize order : shard.shared.order o = n at self known routed
  have fresh : ∀ inst, o ∉ ids (books inst) := fun inst => not_live_absent shard books _ rep inst o absent
  have free : ¬ liveElsewhere books n.instrumentId o := fun ⟨other, _, member⟩ => fresh other member
  have book : shard.book n.instrumentId = .ok ⟨shard.shared, shard.books n.instrumentId⟩ := by
    simp [Shard.book, known, routed]
  by_cases wide : maxPrice ≤ n.price
  · have start : matchStart ⟨shard.shared, shard.books n.instrumentId⟩ o =
        (⟨shard.shared.deallocate o, shard.books n.instrumentId⟩, .done) := by
      simp [matchStart, order, wide]
    have rep' : ShardRep
        (shard.setBook n.instrumentId ⟨shard.shared.deallocate o, shard.books n.instrumentId⟩)
        books allQuiet := by
      refine ⟨fun inst => ?_, rep.placed⟩
      refine book_rep_frame _ _ _ _ _ (rep.each inst) ?_ rfl fun slot _ => ⟨rfl, rfl, rfl⟩
      simp [Shard.setBook]
    refine ⟨_, .idle, by simp [startTask, order, known, book, start, resume], ⟨books, .idle rep'⟩,
      rfl, ⟨[.release o], rfl, fun slot => ?_⟩,
      fun slot _ => ⟨(shard.shared.order slot).quantity, rfl⟩, fun _ _ _ => rfl, fun slot same => by
        cases same⟩
    rw [live_count_eq shard _ books books allQuiet allQuiet rep rep' slot Iff.rfl]
    simp [handCount, EnginePc.slot, releases, List.count_singleton]
  · have valid : ValidOrder n := ⟨self ▸ positive, self ▸ bound, Nat.lt_of_not_le wide⟩
    obtain ⟨start, inv⟩ := match_start_rep ⟨shard.shared, shard.books n.instrumentId⟩ o n
      (books n.instrumentId) _
      (rep.each n.instrumentId) order self (fresh _) free valid
    have same : shard.setBook n.instrumentId ⟨shard.shared, shard.books n.instrumentId⟩ = shard := by
      simp [Shard.setBook]
    refine ⟨shard, _, by simp [startTask, order, known, book, start, same, resume],
      ⟨books, .matching _ _ n _ ?_ inv (by simp) ⟨rfl, known, routed⟩⟩,
      rfl, ⟨[], by simp, fun slot => ?_⟩, fun slot _ => ⟨(shard.shared.order slot).quantity, rfl⟩,
        fun _ _ _ => rfl,
      fun slot same => .inr same⟩
    · rw [show pendingAt n.side (.outer _) = quiet from rfl, update_quiet]
      exact rep
    · simp only [handCount, EnginePc.slot, releases, List.filterMap_nil, List.count_nil,
        reduceCtorEq, if_false, Option.some.injEq]
      omega

end HftExchange
