import HftExchange.Engine.Shard

set_option autoImplicit false

namespace HftExchange

open Base

-- The tasks an engine receives, with the order of a NEW task written to its
-- slot by the gateway before the engine sees it.
inductive ShardOp where
  | submit (o : Order)
  | cancel (internalId clientOrderId : Nat)
deriving DecidableEq, Repr

def shardStep (shard : Shard) : ShardOp → Checked Shard
  | .submit o => processTask { shard with shared := shard.shared.construct o } (.new o.internalId)
  | .cancel idx token => processTask shard (.cancel idx token)

def ShardAdmissible (shard : Shard) : ShardOp → Prop
  | .submit o => (0 < o.internalId ∧ o.internalId < maxOrdersLookup ∧
      shard.shared.ordersById o.internalId = none ∧
      o.price < maxPrice ∧ 1 ≤ o.quantity) ∧ o.instrumentId < maxInstruments ∧
        o.instrumentId % numShards = shard.id
  | .cancel _ _ => True

instance (shard : Shard) : (op : ShardOp) → Decidable (ShardAdmissible shard op)
  | .submit _ => inferInstanceAs (Decidable (_ ∧ _))
  | .cancel _ _ => inferInstanceAs (Decidable True)

def ShardRun (start : Shard) : List ShardOp → Shard → Prop := Run start (Guarded ShardAdmissible shardStep)

inductive ShardChange (books : Nat → Resting) : ShardOp → List Event → (Nat → Resting) → Prop where
  | matched (o : Order) (events : List Event) (final : Resting)
      (trace : MatchTrace (books o.instrumentId) o events final)
      (fresh : ∀ inst, o.internalId ∉ ids (books inst)) :
      ShardChange books (.submit o) events (Function.update books o.instrumentId final)
  | canceled (r : Order) (inside : r ∈ books r.instrumentId) :
      ShardChange books (.cancel r.internalId r.clientOrderId) [.cancel r]
        (Function.update books r.instrumentId (without (books r.instrumentId) r.internalId))
  | ignored (idx token : Nat) (stale : ∀ inst, ∀ r ∈ books inst, r.internalId = idx →
      r.clientOrderId ≠ token) :
      ShardChange books (.cancel idx token) [] books

theorem update_quiet (inst : Nat) : Function.update allQuiet inst quiet = allQuiet :=
  Function.update_eq_self inst allQuiet

theorem shard_submit_refines (shard : Shard) (books : Nat → Resting) (o : Order)
    (rep : ShardRep shard books allQuiet)
    (admissible : ShardAdmissible shard (.submit o)) :
    ∃ next events books', shardStep shard (.submit o) = .ok next ∧ ShardRep next books' allQuiet ∧
    next.id = shard.id ∧
      ShardChange books (.submit o) events books' ∧ next.shared.out = shard.shared.out ++
        events.flatMap Event.outputs := by
  obtain ⟨⟨positive, slot, unused, price, _⟩, known, routed⟩ := admissible
  have fresh := shard_unindexed shard books allQuiet rep o.internalId unused
  have built := shard_construct_rep shard books allQuiet o rep fresh
  have hand : (shard.shared.construct o).order o.internalId = o := by simp [Shared.construct, Shared.order]
  have free : ¬ liveElsewhere books o.instrumentId o.internalId := by
    rintro ⟨other, _, member⟩
    exact fresh other member
  obtain ⟨st, result, rep', out, frame⟩ :=
    match_order_refines ⟨shard.shared.construct o, shard.books o.instrumentId⟩ o.internalId o
    (books o.instrumentId) _ (built.each o.instrumentId) hand rfl (fresh _) free ⟨positive, slot, price⟩
  have trace := reference_match_trace (books o.instrumentId) o
  refine ⟨({ shard with shared := shard.shared.construct o } : Shard).setBook o.instrumentId st,
    _, _, ?_, ?_, rfl,
    .matched o _ _ trace fresh, ?_⟩
  · simp [shardStep, processTask, hand, known, Shard.book, routed, result]
  · rw [← update_quiet o.instrumentId]
    refine shard_rep_update _ books allQuiet o.instrumentId o.internalId st _ quiet built rep' frame free
      (match_trace_ids _ _ o _ trace) ?_
    exact match_trace_orders _ (fun _ _ h => h) _ _ o _ trace (rep.placed o.instrumentId) ⟨rfl, known, routed⟩
  · exact out

theorem shard_cancel_refines (shard : Shard) (books : Nat → Resting) (idx token : Nat)
    (rep : ShardRep shard books allQuiet)
    (bound : idx < maxOrdersLookup) :
    ∃ next events books', shardStep shard (.cancel idx token) = .ok next ∧
    ShardRep next books' allQuiet ∧ next.id = shard.id ∧
      ShardChange books (.cancel idx token) events books' ∧ next.shared.out = shard.shared.out ++
        events.flatMap Event.outputs ∧
      ∀ slot, (∀ inst, slot ∉ ids (books inst)) → next.shared.order slot = shard.shared.order slot := by
  rcases shard_indexed_iff shard books allQuiet rep idx with ⟨⟨inst, member⟩, present⟩ | ⟨nowhere, absent⟩
  · obtain ⟨r, inside, rfl⟩ := List.mem_map.mp member
    obtain ⟨rfl, known, routed⟩ := rep.placed inst r inside
    have stored : shard.shared.order r.internalId = r := (rep.each _).stored r inside
    by_cases named : r.clientOrderId = token
    · subst named
      have own : ¬ liveElsewhere books r.instrumentId r.internalId := (rep.each _).apart _ member
      obtain ⟨st, result, rep', out, frame⟩ := cancel_order_refines ⟨shard.shared, shard.books r.instrumentId⟩
        (books r.instrumentId) _ r.internalId (rep.each _) own
      rw [reference_cancel_present _ r (rep.each _).distinct inside] at rep' out
      refine ⟨shard.setBook r.instrumentId st, _, _, ?_, ?_, rfl, .canceled r inside, out,
        fun slot nowhere => ?_⟩
      · simp [shardStep, processTask, bound, present, stored, Shard.book, known, routed, result]
      · rw [← update_quiet r.instrumentId]
        refine shard_rep_update shard books allQuiet r.instrumentId r.internalId st _ quiet rep
          rep' frame own ?_ ?_
        · intro slot there
          rw [ids_without] at there
          exact .inl (List.mem_of_mem_filter there)
        · exact fun s there => rep.placed r.instrumentId s (List.mem_of_mem_filter there)
      · exact (frame slot (nowhere _) fun same => nowhere r.instrumentId (same ▸ member)).1
    · refine ⟨shard, [], books, ?_, rep, rfl, .ignored _ _ fun other s there same => ?_,
        by simp, fun _ _ => rfl⟩
      · simp [shardStep, processTask, bound, present, stored, named]
      · have equal : s = r := by
          rw [← (rep.each other).stored s there, same]
          exact stored
        exact equal ▸ named
  · refine ⟨shard, [], books, ?_, rep, rfl, .ignored _ _ fun inst s there same => ?_, by simp, fun _ _ => rfl⟩
    · simp [shardStep, processTask, bound, absent]
    · exact absurd (same ▸ List.mem_map_of_mem there) (nowhere inst)

theorem cancel_bound (shard next : Shard) (idx token : Nat)
    (step : shardStep shard (.cancel idx token) = .ok next) :
    idx < maxOrdersLookup := by
  by_contra outside
  simp [shardStep, processTask, fetch, outside] at step

theorem shard_step_refines (shard next : Shard) (books : Nat → Resting) (op : ShardOp)
    (rep : ShardRep shard books allQuiet)
    (step : Guarded ShardAdmissible shardStep shard op next) :
    ∃ events books', ShardRep next books' allQuiet ∧ next.id = shard.id ∧ ShardChange books op events books' ∧
      next.shared.out = shard.shared.out ++ events.flatMap Event.outputs := by
  obtain ⟨admissible, taken⟩ := step
  cases op with
  | submit o =>
      obtain ⟨other, events, books', result, rest⟩ := shard_submit_refines shard books o rep admissible
      cases taken.symm.trans result
      exact ⟨events, books', rest⟩
  | cancel idx token =>
      obtain ⟨other, events, books', result, rep', keeps, change, out, _⟩ :=
        shard_cancel_refines shard books idx token rep (cancel_bound shard next idx token taken)
      cases taken.symm.trans result
      exact ⟨events, books', rep', keeps, change, out⟩

theorem shard_run_rep (id : Nat) (ops : List ShardOp) (shard : Shard) (run : ShardRun (.init id) ops shard) :
    shard.id = id ∧ ∃ books, ShardRep shard books allQuiet := by
  refine run_invariant (fun shard => shard.id = id ∧ ∃ books, ShardRep shard books allQuiet)
    ⟨rfl, _, initial_shard_rep id⟩ ?_ ops shard run
  rintro state op next ⟨same, books, rep⟩ step
  obtain ⟨events, books', rep', keeps, _, _⟩ := shard_step_refines state next books op rep step
  exact ⟨keeps.trans same, books', rep'⟩

end HftExchange
