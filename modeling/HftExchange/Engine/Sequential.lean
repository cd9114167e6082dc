import HftExchange.Engine.Progress
import HftExchange.Engine.Invariant

set_option autoImplicit false

namespace HftExchange

open Base

-- What the outputs of an engine show outside of it. The release of a slot is
-- seen by the pool alone.
def published (out : List Output) : List Output :=
  out.filter fun x => match x with
    | .release _ => false
    | _ => true

-- The task as one operation on the shard. An order whose price is not on the
-- ladder is dropped without a trace.
def Shard.operation (shard : Shard) : EngineTask → Option ShardOp
  | .new o => if (shard.shared.order o).price < maxPrice then some (.submit (shard.shared.order o)) else none
  | .cancel idx token => some (.cancel idx token)

def leftover (shard : Shard) (books : Nat → Resting) : EnginePc → (Nat → Resting) × List Event
  | .idle => (books, [])
  | .matching inst o _ =>
      let result := referenceMatch (books inst) (shard.shared.order o)
      (Function.update books inst result.1, result.2)

-- A shard that takes each task as a whole is ahead of the engine by what is
-- left of the match.
structure Anticipates (shard : Shard) (engine : EnginePc) (books : Nat → Resting) (whole : Shard) : Prop where
  sameId : whole.id = shard.id
  rep : EngineRep shard books engine
  ends : ShardRep whole (leftover shard books engine).1 allQuiet
  out : published whole.shared.out = published shard.shared.out ++ published
    ((leftover shard books engine).2.flatMap Event.outputs)

structure SameBooks (shard whole : Shard) : Prop where
  levels : ∀ inst side p, whole.slotsAt inst side p = shard.slotsAt inst side p
  orders : ∀ inst side p, ∀ slot ∈ shard.slotsAt inst side p, whole.shared.order slot =
    shard.shared.order slot
  index : whole.shared.ordersById = shard.shared.ordersById

theorem published_append (first second : List Output) :
    published (first ++ second) = published first ++ published second :=
  List.filter_append ..

theorem match_trace_reference (book final : Resting) (n : Order) (events : List Event)
    (trace : MatchTrace book n events final) :
    referenceMatch book n = (final, events) := by
  induction trace with
  | ended book next n event step => exact reference_match_step book next n event none step
  | traded book next final n left event events step rest ih =>
      rw [reference_match_step book next n event (some left) step, continueMatch, ih]

theorem initial_anticipates (id : Nat) : Anticipates (.init id) .idle (fun _ => []) (.init id) :=
  ⟨rfl, .idle (initial_shard_rep id), initial_shard_rep id, (List.append_nil _).symm⟩

section
variable (shard : Shard) (engine : EnginePc) (books : Nat → Resting) (whole : Shard)
  (lead : Anticipates shard engine books whole)
include lead

theorem anticipated_prefix : published shard.shared.out <+: published whole.shared.out :=
  ⟨_, lead.out.symm⟩

theorem anticipated_construct (o : Order) (absent : liveCount shard o.internalId = 0)
    (notHand : engine.slot ≠ some o.internalId) :
    Anticipates { shard with shared := shard.shared.construct o } engine books whole := by
  have same : leftover { shard with shared := shard.shared.construct o } books engine =
      leftover shard books engine := by
    cases engine with
    | idle => rfl
    | matching inst slot pc =>
        have other : slot ≠ o.internalId := fun equal => notHand (congrArg some equal)
        have kept : (shard.shared.construct o).order slot = shard.shared.order slot := by
          simp [Shared.construct, Shared.order, other]
        simp only [leftover, kept]
  refine ⟨lead.sameId, engine_construct shard books engine o lead.rep absent notHand, ?_, ?_⟩
  · rw [same]
    exact lead.ends
  · rw [same]
    exact lead.out

end

-- An engine between two tasks and the shard that takes them as a whole are the
-- same to everyone.
theorem idle_same_books (shard : Shard) (books : Nat → Resting) (whole : Shard)
    (lead : Anticipates shard .idle books whole) :
    SameBooks shard whole ∧ published whole.shared.out = published shard.shared.out := by
  obtain ⟨_, engine, ends, out⟩ := lead
  cases engine with
  | idle rep =>
      have ends : ShardRep whole books allQuiet := ends
      refine ⟨⟨fun inst side p => ?_, fun inst side p slot member => ?_, funext fun slot => ?_⟩,
        out.trans (List.append_nil _)⟩
      · rw [slots_at_eq whole books allQuiet ends, slots_at_eq shard books allQuiet rep]
      · obtain ⟨inside, self, _, _⟩ := slots_at_order shard books allQuiet rep inst side p slot member
        have stored : whole.shared.order (shard.shared.order slot).internalId =
          shard.shared.order slot := (ends.each inst).stored _ inside
        rwa [self] at stored
      · rcases shard_indexed_iff shard books allQuiet rep slot
          with ⟨⟨inst, member⟩, present⟩ | ⟨nowhere, absent⟩
        · exact ((ends.each inst).present slot (.inl member)).trans present.symm
        · exact ((ends.each 0).absent slot (nowhere 0) fun ⟨other, _, member⟩ =>
            nowhere other member).trans absent.symm

theorem match_event_origin (book next : Resting) (n : Order) (event : Event) (left : Option Order)
    (step : MatchEvent book n event next left) :
    ∀ r ∈ next, ∃ old, (old ∈ book ∨ old = n) ∧ r = { old with quantity := r.quantity } := by
  intro r member
  cases step with
  | trade maker live best other =>
      obtain ⟨old, before, same⟩ := settle_origin _ _ _ r member
      refine ⟨old, .inl before, ?_⟩
      rcases same with rfl | rfl <;> rfl
  | reject maker live best same => exact ⟨r, .inl member, rfl⟩
  | filled spent => exact ⟨r, .inl member, rfl⟩
  | rest live absent =>
      rcases List.mem_append.mp member with before | last
      · exact ⟨r, .inl before, rfl⟩
      · exact ⟨r, .inr (List.mem_singleton.mp last), rfl⟩

theorem origin_grown (book next : Resting) (n : Order)
    (origin : ∀ r ∈ next, ∃ old, (old ∈ book ∨ old = n) ∧ r = { old with quantity := r.quantity }) :
    ∀ slot ∈ ids next, slot ∈ ids book ∨ slot = n.internalId := by
  intro slot member
  obtain ⟨r, inside, rfl⟩ := List.mem_map.mp member
  obtain ⟨old, before, same⟩ := origin r inside
  have sameId : r.internalId = old.internalId := by rw [same]
  rcases before with old' | rfl
  · exact .inl (sameId ▸ List.mem_map_of_mem old')
  · exact .inr sameId

theorem anticipated_step (shard next : Shard) (inst : Nat) (o : Slot) (pc : MatchPc)
    (after : EnginePc) (books : Nat → Resting) (whole : Shard)
    (lead : Anticipates shard (.matching inst o pc) books whole)
    (done : continueTask shard (.matching inst o pc) = .ok (next, after)) :
    ∃ books', Anticipates next after books' whole := by
  obtain ⟨sameId, engine, ends, out⟩ := lead
  cases engine with
  | matching _ _ n _ rep inv running placed =>
      obtain ⟨mid, then_, step, result⟩ := match_step_refines _ o n (books inst) _ pc inv running
      have book : shard.book inst = .ok ⟨shard.shared, shard.books inst⟩ := by
        simp [Shard.book, placed.2.1, placed.2.2]
      have result' : continueTask shard (.matching inst o pc) = .ok
          (shard.setBook inst mid, resume inst o then_) := by
        simp [continueTask, book, step]
      cases done.symm.trans result'
      have hand : shard.shared.order o = n := inv.hand
      simp only [leftover, hand] at ends out
      cases result with
      | moved frame silent later live smaller =>
          have kept : (shard.setBook inst mid).shared.order o = n := later.hand
          have same : Function.update books inst (books inst) = books := Function.update_eq_self ..
          rw [resume_running inst o then_ live]
          refine ⟨books, sameId, ?_, ?_, ?_⟩
          · have moved := running_rep shard books inst o n pc rep inv placed mid (books inst) frame
              (fun _ h => .inl h)
              (fun r inside => ⟨r, .inl inside, rfl⟩) n then_ live later n.quantity rfl
            rwa [same] at moved
          · simpa only [leftover, kept] using ends
          · have silent : (shard.setBook inst mid).shared.out = shard.shared.out := silent
            simpa only [leftover, kept, silent] using out
      | traded r frame event told later live smaller =>
          have left : (shard.setBook inst mid).shared.order o = reduced n (tradeQty n r) := later.hand
          have origin := match_event_origin _ _ n _ _ event
          have grown := origin_grown _ _ n origin
          rw [inv.self] at grown
          have whole_ := reference_match_step _ _ n _ _ event
          rw [continueMatch] at whole_
          rw [whole_] at ends out
          rw [resume_running inst o then_ live]
          refine ⟨Function.update books inst (settle (books inst) r.internalId (tradeQty n r)),
            sameId, ?_, ?_, ?_⟩
          · exact running_rep shard books inst o n pc rep inv placed mid _ frame grown origin _
              then_ live later _ rfl
          · simpa only [leftover, left, Function.update_self, Function.update_idem] using ends
          · have told : (shard.setBook inst mid).shared.out = shard.shared.out ++
              (Event.trade n r).outputs := told
            simpa only [leftover, left, Function.update_self, told, published_append,
              List.flatMap_cons, List.append_assoc] using out
      | ended event left frame step' told later finished =>
          subst finished
          have origin := match_event_origin _ _ n _ _ step'
          have grown := origin_grown _ _ n origin
          rw [inv.self] at grown
          have whole_ := reference_match_step _ _ n _ _ step'
          rw [continueMatch] at whole_
          rw [whole_] at ends out
          have changed := matched_rep shard books inst o n pc rep inv placed mid left frame
            grown origin _ later
          rw [update_quiet] at changed
          refine ⟨Function.update books inst left, sameId, .idle changed, ends, ?_⟩
          have told : (shard.setBook inst mid).shared.out = shard.shared.out ++ event.outputs := told
          rw [told, published_append, out]
          simp [resume, leftover, published]

theorem anticipated_continue (shard next : Shard) (engine after : EnginePc)
    (books : Nat → Resting) (whole : Shard)
    (lead : Anticipates shard engine books whole) (done : continueTask shard engine = .ok (next, after)) :
    ∃ books', Anticipates next after books' whole := by
  cases engine with
  | idle =>
      cases done
      exact ⟨books, lead⟩
  | matching inst o pc => exact anticipated_step shard next inst o pc after books whole lead done

theorem canceled_once (shard : Shard) (books first second : Nat → Resting) (idx token : Nat)
    (events told : List Event)
    (rep : ShardRep shard books allQuiet) (change : ShardChange books (.cancel idx token) events first)
    (change' : ShardChange books (.cancel idx token) told second) : first = second ∧ events = told := by
  cases change with
  | canceled r inside =>
      generalize same : r.internalId = idx at change'
      generalize named : r.clientOrderId = token at change'
      cases change' with
      | canceled q there =>
          have equal : q = r := by
            rw [← (rep.each _).stored q there, ← (rep.each _).stored r inside, same]
          subst equal
          exact ⟨rfl, rfl⟩
      | ignored _ _ stale => exact absurd named (stale _ r inside same)
  | ignored _ _ stale =>
      cases change' with
      | canceled q there => exact absurd rfl (stale _ q there rfl)
      | ignored _ _ _ => exact ⟨rfl, rfl⟩

theorem anticipated_cancel (shard next : Shard) (after : EnginePc) (books : Nat → Resting)
    (whole : Shard) (idx token : Nat)
    (lead : Anticipates shard .idle books whole) (bound : idx < maxOrdersLookup)
    (done : startTask shard (.cancel idx token) = .ok (next, after)) :
    ∃ whole', shardStep whole (.cancel idx token) = .ok whole' ∧
    ∃ books', Anticipates next after books' whole' := by
  obtain ⟨sameId, engine, ends, out⟩ := lead
  cases engine with
  | idle rep =>
      have ends : ShardRep whole books allQuiet := ends
      obtain ⟨other, events, books', result, rep', keeps, change, grown, _⟩ :=
        shard_cancel_refines shard books idx token rep bound
      obtain ⟨whole', told, books'', result', ends', keeps', change', grown', _⟩ :=
        shard_cancel_refines whole books idx token ends bound
      obtain ⟨rfl, rfl⟩ := canceled_once shard books books' books'' idx token events told rep change change'
      have result : processTask shard (.cancel idx token) = .ok other := result
      simp only [startTask, result, checked_bind_ok, checked_pure, Except.ok.injEq, Prod.mk.injEq] at done
      obtain ⟨rfl, rfl⟩ := done
      refine ⟨whole', result', books', keeps'.trans (sameId.trans keeps.symm), .idle rep', ends', ?_⟩
      rw [grown, grown', published_append, published_append, out]
      simp [leftover, published]

theorem start_new_rep (shard next : Shard) (after : EnginePc) (books : Nat → Resting) (o : Slot)
    (rep : ShardRep shard books allQuiet)
    (self : (shard.shared.order o).internalId = o) (positive : 0 < o) (bound : o < maxOrdersLookup)
    (known : (shard.shared.order o).instrumentId < maxInstruments)
    (routed : (shard.shared.order o).instrumentId % numShards = shard.id)
    (absent : liveCount shard o = 0) (done : startTask shard (.new o) = .ok (next, after)) :
    if (shard.shared.order o).price < maxPrice then
      next = shard ∧ ∃ pc, after = .matching (shard.shared.order o).instrumentId o pc ∧
      EngineRep shard books after
    else next.id = shard.id ∧ after = .idle ∧ ShardRep next books allQuiet ∧
    published next.shared.out = published shard.shared.out := by
  generalize order : shard.shared.order o = n at self known routed ⊢
  have fresh : ∀ inst, o ∉ ids (books inst) := fun inst => not_live_absent shard books _ rep inst o absent
  have free : ¬ liveElsewhere books n.instrumentId o := fun ⟨other, _, member⟩ => fresh other member
  have book : shard.book n.instrumentId = .ok ⟨shard.shared, shard.books n.instrumentId⟩ := by
    simp [Shard.book, known, routed]
  split
  · rename_i price
    have valid : ValidOrder n := ⟨self ▸ positive, self ▸ bound, price⟩
    obtain ⟨start, inv⟩ := match_start_rep ⟨shard.shared, shard.books n.instrumentId⟩ o n
      (books n.instrumentId) _
      (rep.each n.instrumentId) order self (fresh _) free valid
    have same : shard.setBook n.instrumentId ⟨shard.shared, shard.books n.instrumentId⟩ = shard := by
      simp [Shard.setBook]
    simp only [startTask, order, known, if_true, book, checked_bind_ok, start, same, resume,
      checked_pure, Except.ok.injEq, Prod.mk.injEq] at done
    obtain ⟨rfl, rfl⟩ := done
    refine ⟨rfl, _, rfl, .matching _ _ n _ ?_ inv (by simp) ⟨rfl, known, routed⟩⟩
    rw [show pendingAt n.side (.outer _) = quiet from rfl, update_quiet]
    exact rep
  · rename_i far
    have start : matchStart ⟨shard.shared, shard.books n.instrumentId⟩ o =
        (⟨shard.shared.deallocate o, shard.books n.instrumentId⟩, .done) := by
      simp [matchStart, order, Nat.not_lt.mp far]
    simp only [startTask, order, known, if_true, book, checked_bind_ok, start, resume, checked_pure,
      Except.ok.injEq, Prod.mk.injEq] at done
    obtain ⟨rfl, rfl⟩ := done
    refine ⟨rfl, rfl, ⟨fun inst => ?_, rep.placed⟩, ?_⟩
    · refine book_rep_frame _ _ _ _ _ (rep.each inst) ?_ rfl fun slot _ => ⟨rfl, rfl, rfl⟩
      simp [Shard.setBook]
    · simp [Shard.setBook, Shared.deallocate, Shared.emit, published]

theorem anticipated_new (shard next : Shard) (after : EnginePc) (books : Nat → Resting)
    (whole : Shard) (o : Slot)
    (lead : Anticipates shard .idle books whole) (self : (shard.shared.order o).internalId = o)
    (positive : 0 < o) (bound : o < maxOrdersLookup)
    (known : (shard.shared.order o).instrumentId < maxInstruments)
    (routed : (shard.shared.order o).instrumentId % numShards = shard.id)
    (absent : liveCount shard o = 0) (quantity : 1 ≤ (shard.shared.order o).quantity)
    (done : startTask shard (.new o) = .ok (next, after)) :
    match shard.operation (.new o) with
    | none => ∃ books', Anticipates next after books' whole
    | some op => ∃ whole', Guarded ShardAdmissible shardStep whole op whole' ∧
        ∃ books', Anticipates next after books' whole' := by
  obtain ⟨sameId, engine, ends, out⟩ := lead
  cases engine with
  | idle rep =>
      have ends : ShardRep whole books allQuiet := ends
      have started := start_new_rep shard next after books o rep self positive bound known routed absent done
      by_cases price : (shard.shared.order o).price < maxPrice
      · rw [if_pos price] at started
        obtain ⟨rfl, pc, rfl, engine⟩ := started
        rw [show next.operation (.new o) = some (.submit (next.shared.order o)) from if_pos price]
        have fresh : ∀ inst, o ∉ ids (books inst) :=
          fun inst => not_live_absent next books _ rep inst o absent
        have unused : whole.shared.ordersById o = none :=
          (ends.each 0).absent o (fresh 0) fun ⟨other, _, member⟩ => fresh other member
        have admissible : ShardAdmissible whole (.submit (next.shared.order o)) := by
          refine ⟨⟨?_, ?_, ?_, price, quantity⟩, known, routed.trans sameId.symm⟩ <;> rwa [self]
        obtain ⟨whole', events, books', result, ends', keeps, change, grown⟩ :=
          shard_submit_refines whole books (next.shared.order o) ends admissible
        cases change with
        | matched _ _ final trace _ =>
            have reference := match_trace_reference _ _ _ _ trace
            refine ⟨whole', ⟨admissible, result⟩, books, keeps.trans sameId, engine, ?_, ?_⟩
            · simpa only [leftover, reference] using ends'
            · rw [grown, published_append, out]
              simp only [leftover, reference, List.flatMap_nil, published, List.filter_nil, List.append_nil]
      · rw [if_neg price] at started
        obtain ⟨id_, rfl, rep', silent⟩ := started
        rw [show shard.operation (.new o) = none from if_neg price]
        exact ⟨books, sameId.trans id_.symm, .idle rep', ends, by rw [out, silent]; rfl⟩

end HftExchange
