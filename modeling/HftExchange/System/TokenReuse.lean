import HftExchange.System.CancelEffect

set_option autoImplicit false

namespace HftExchange

open Base

-- No order is recorded under the token while an earlier order with the token
-- is still in the exchange.
def FreshRecord (workers token : Nat) (s : Exchange) (label : Label) : Prop :=
  ∀ worker conn sh o, label = .record worker → s.gateway worker = .allocated conn sh o →
    o.clientOrderId = token →
    ∀ sh' slot r, Recorded workers s sh' slot r → r.clientOrderId ≠ token

def Findable (workers token : Nat) (s : Exchange) : Prop :=
  ∀ sh slot o, Recorded workers s sh slot o → o.clientOrderId = token →
    s.session.lookupData token = ⟨slot, o.instrumentId, o.clientId⟩

theorem findable_step (workers token : Nat) (s next : Exchange) (label : Label) (inv : ExchangeInv workers s)
    (move : Move workers s label next) (fresh : FreshRecord workers token s label)
    (found : Findable workers token s) :
    Findable workers token next := by
  intro sh slot o present named
  rcases recorded_step workers s next label inv move sh slot o present
    with ⟨before, left, earlier, rfl⟩ | ⟨worker, conn, _, _, rfl, lookup⟩
  · have old : s.session.lookupData token = ⟨slot, before.instrumentId, before.clientId⟩ :=
      found sh slot before earlier named
    cases move with
    | quiet _ _ lanes session gateway admissions connections =>
        rw [session]
        exact old
    | recorded worker conn shard r state lookup =>
        have other : token ≠ r.clientOrderId :=
          fun same => fresh worker conn shard r rfl state same.symm sh slot before earlier named
        rw [lookup, if_neg other]
        exact old
    | admitted | cancelling | pushed | engine => exact old
  · rw [← named]
    exact lookup

theorem findable_run (workers token : Nat) (one : 1 ≤ workers) (sixteen : workers ≤ 16)
    (labels : List Label) (s : Exchange)
    (run : Run (.init workers) (Guarded (FreshRecord workers token) (exchangeStep workers)) labels
      s) : Findable workers token s := by
  refine (run_invariant (fun s => ExchangeInv workers s ∧ Findable workers token s)
    ⟨initial_exchange_inv workers one sixteen, ?_⟩ ?_
    labels s run).2
  · rintro sh slot o (⟨worker, conn, state, _⟩ | ⟨ahead, _⟩)
    · cases state
    · exact absurd rfl ahead
  · rintro state label next ⟨inv, found⟩ ⟨fresh, step⟩
    obtain ⟨inv', move⟩ := exchange_step_next workers one sixteen state inv next label step
    exact ⟨inv', findable_step workers token state next label inv move fresh found⟩

def OnBook (lane : Lane) (slot : Slot) : Prop := ∃ inst side p, slot ∈ lane.shard.slotsAt inst side p

def Drained (s : Exchange) (worker : Nat) : Prop :=
  (s.gateway worker).task = none ∧ ∀ sh < numShards, (s.lanes sh).queues worker = []

instance (s : Exchange) (worker : Nat) : Decidable (Drained s worker) := inferInstanceAs (Decidable (_ ∧ _))

theorem on_book_live (workers sh : Nat) (held : Nat → Option Order) (lane : Lane)
    (inv : LaneInv workers sh held lane) (slot : Slot)
    (resting : OnBook lane slot) :
    liveCount lane.shard slot ≠ 0 ∧
    (lane.shard.shared.order slot).instrumentId % numShards = sh := by
  obtain ⟨books, engine⟩ := inv.rep
  obtain ⟨pending, rep⟩ := engine_pending _ books _ engine
  obtain ⟨inst, side, p, member⟩ := resting
  obtain ⟨inside, self, _, _⟩ := slots_at_order lane.shard books pending rep inst side p slot member
  constructor
  · rcases live_count_iff lane.shard books pending rep slot with ⟨_, one⟩ | ⟨nowhere, _⟩
    · rw [one]
      exact Nat.one_ne_zero
    · exact absurd (List.mem_map.mpr ⟨_, inside, self⟩) (nowhere inst)
  · obtain ⟨same, _, routed⟩ := rep.placed inst _ inside
    rw [same, routed, inv.sameId]

-- The session map keeps one order for each token, the last one recorded. An
-- order whose token is not recorded again while it is in the exchange can be
-- canceled by its owner at any time.
theorem fresh_token_cancel_effective (workers token : Nat) (one : 1 ≤ workers)
    (sixteen : workers ≤ 16) (labels : List Label)
    (s sent final : Exchange)
    (run : Run (.init workers) (Guarded (FreshRecord workers token) (exchangeStep workers)) labels
      s)
    (sh slot conn worker : Nat) (req : OuchCancelOrder) (resting : OnBook (s.lanes sh) slot)
    (named : ((s.lanes sh).shard.shared.order slot).clientOrderId = token)
    (own : ((s.lanes sh).origin slot).conn = conn)
    (ready : s.ready conn = some worker) (asks : decodeOrderToken req.orderToken = token)
    (step : exchangeStep workers s (.cancel conn req) = .ok sent) (after : List Label)
    (later : Run sent (Guarded (fun _ _ => True) (exchangeStep workers)) after final)
    (drained : Drained final worker) :
    ¬ (OnBook (final.lanes sh) slot ∧ (final.lanes sh).origin slot = (s.lanes sh).origin slot) := by
  have plain : ExchangeRun workers labels s :=
    run_mono labels s run fun state label next _ guarded => ⟨trivial, guarded.2⟩
  have inv := exchange_run_inv workers one sixteen labels s plain
  obtain ⟨live, routed⟩ := on_book_live workers sh _ _ (inv.lanes sh) slot resting
  have ahead : s.ahead workers sh slot := by
    rw [Exchange.ahead, Lane.ahead]
    omega
  obtain ⟨_, serial, client⟩ := exchange_run_traced workers one sixteen labels s plain sh slot _
    (.inr ⟨ahead, rfl⟩)
  have found := findable_run workers token one sixteen labels s run sh slot _ (.inr ⟨ahead, rfl⟩) named
  have usable : slot ≠ 0 :=
    Nat.ne_of_gt (tally_usable workers sh _ _ (inv.lanes sh) slot (by rw [Lane.tally]; omega)).1
  -- The lookup leads to the order, so the worker has a cancel for it to push.
  have sentIs : sent = s.setWorker worker (.cancelling conn sh slot token) := by
    simp only [exchangeStep, ready, Exchange.cancel, asks, found, routed, client, own, usable,
      ne_eq, not_false_eq_true, and_self,
      if_true] at step
    exact (Except.ok.inj step).symm
  obtain ⟨inv', _⟩ := exchange_step_next workers one sixteen s inv sent _ step
  have due : CancelDue sent sh slot token worker conn := by
    rw [sentIs]
    exact ⟨live, named, .inl (set_worker_worker ..)⟩
  have earlier : ((s.lanes sh).origin slot).serial < sent.admissions := by
    rw [sentIs]
    exact serial
  obtain ⟨invFinal, outcome⟩ := cancel_run workers one sixteen sent final after inv' later sh slot
    token worker conn _ earlier due
  rintro ⟨still, same⟩
  rcases outcome with ⟨_, _, pending | queued⟩ | other | free
  · rw [Drained, pending] at drained
    cases drained.1
  · have shard : sh < numShards := routed ▸ Nat.mod_lt _ (by decide)
    rw [drained.2 sh shard] at queued
    cases queued
  · exact other same
  · have gone := (free_slot_apart workers sh _ _ (invFinal.lanes sh) slot free).2.2.2
    exact (on_book_live workers sh _ _ (invFinal.lanes sh) slot still).1 gone

def Label.records : Label → Bool
  | .record _ => true
  | _ => false

theorem unrecorded_run (workers : Nat) (one : 1 ≤ workers) (sixteen : workers ≤ 16)
    (labels : List Label) (s : Exchange)
    (run : ExchangeRun workers labels s) (none_ : labels.countP Label.records = 0)
    (sh slot : Nat) (o : Order) :
    ¬ Recorded workers s sh slot o := by
  induction run generalizing o with
  | start =>
      rintro (⟨worker, conn, state, _⟩ | ⟨ahead, _⟩)
      · cases state
      · exact absurd rfl ahead
  | snoc labels label state next previous step ih =>
      rw [List.countP_append, Nat.add_eq_zero_iff] at none_
      have inv := exchange_run_inv workers one sixteen labels state previous
      obtain ⟨_, move⟩ := exchange_step_next workers one sixteen state inv next label step.2
      intro present
      rcases recorded_step workers state next label inv move sh slot o present
        with ⟨before, _, earlier, _⟩ | ⟨worker, conn, rfl, _⟩
      · exact ih none_.1 before earlier
      · cases none_.2

theorem first_record_fresh (workers token : Nat) (one : 1 ≤ workers) (sixteen : workers ≤ 16)
    (labels : List Label) (s : Exchange)
    (run : ExchangeRun workers labels s) (once : labels.countP Label.records ≤ 1) :
    Run (.init workers) (Guarded (FreshRecord workers token) (exchangeStep workers)) labels s := by
  induction run with
  | start => exact .start
  | snoc labels label state next previous step ih =>
      rw [List.countP_append] at once
      refine .snoc labels label state next (ih (by omega)) ⟨?_, step.2⟩
      rintro worker conn sh o rfl _ _ sh' slot r present
      have single : [Label.record worker].countP Label.records = 1 := rfl
      exact absurd present (unrecorded_run workers one sixteen labels state previous (by omega) sh' slot r)

def restOne : List Label :=
  [.accept 0, .enter 0 (enterFrame 5 'S' 10 3 100), .record 0, .push 0, .pop 3 0, .work 3, .work 3]

theorem rest_one_cancel_effective :
    ∃ s sent final, ExchangeRun 1 restOne s ∧ OnBook (s.lanes 3) 1 ∧
    exchangeStep 1 s (.cancel 0 (cancelFrame 5)) = .ok sent ∧
    Run sent (Guarded (fun _ _ => True) (exchangeStep 1)) [.push 0, .pop 3 0] final ∧ Drained final 0 ∧
    ¬ (OnBook (final.lanes 3) 1 ∧ (final.lanes 3).origin 1 = (s.lanes 3).origin 1) := by
  have shape : (execute (fun _ _ => True) (exchangeStep 1) (.init 1) restOne).map (fun s =>
      ((s.lanes 3).shard.slotsAt 3 .sell 100, ((s.lanes 3).shard.shared.order 1).clientOrderId,
        ((s.lanes 3).origin 1).conn, s.ready 0)) =
      some ([1], 5, 0, some 0) := by decide +kernel
  have gone : (execute (fun _ _ => True) (exchangeStep 1) (.init 1)
    (restOne ++ [.cancel 0 (cancelFrame 5)])).map (fun sent =>
      (execute (fun _ _ => True) (exchangeStep 1) sent [.push 0, .pop 3 0]).map fun final =>
        decide (Drained final 0)) =
      some (some true) := by decide +kernel
  obtain ⟨s, result, shape⟩ := Option.map_eq_some_iff.mp shape
  simp only [Prod.mk.injEq] at shape
  obtain ⟨level, named, own, ready⟩ := shape
  obtain ⟨sent, asked, gone⟩ := Option.map_eq_some_iff.mp gone
  obtain ⟨final, pushed, drained⟩ := Option.map_eq_some_iff.mp gone
  have run : ExchangeRun 1 restOne s := execute_run _ _ restOne _ s result
  have step := execute_last _ _ restOne _ (.init 1) s sent result asked
  have later := execute_run _ _ [Label.push 0, Label.pop 3 0] sent final pushed
  have resting : OnBook (s.lanes 3) 1 := ⟨3, .sell, 100, by simp [level]⟩
  have drained : Drained final 0 := of_decide_eq_true drained
  exact ⟨s, sent, final, run, resting, step.2, later, drained,
    fresh_token_cancel_effective 1 5 (by decide) (by decide) restOne s sent final
      (first_record_fresh 1 5 (by decide) (by decide) restOne s run (by decide)) 3 1 0 0
        (cancelFrame 5) resting named own ready
      (by decide) step.2 _ later drained⟩

-- The connection enters two orders with one token. Its cancel removes the
-- second, and the first is left with no way to cancel it.
def reuseToken : List Label :=
  restOne ++ [.enter 0 (enterFrame 5 'S' 10 3 101), .record 0, .push 0, .pop 3 0, .work 3, .work 3]

theorem reused_token_not_canceled :
    ∃ s sent final, ExchangeRun 1 reuseToken s ∧ OnBook (s.lanes 3) 1 ∧
    ((s.lanes 3).shard.shared.order 1).clientOrderId = 5 ∧ ((s.lanes 3).origin 1).conn = 0 ∧
    s.ready 0 = some 0 ∧
    decodeOrderToken (cancelFrame 5).orderToken = 5 ∧
    exchangeStep 1 s (.cancel 0 (cancelFrame 5)) = .ok sent ∧
    Run sent (Guarded (fun _ _ => True) (exchangeStep 1)) [.push 0, .pop 3 0] final ∧
    Drained final 0 ∧ (final.lanes 3).engine = .idle ∧
    OnBook (final.lanes 3) 1 ∧ (final.lanes 3).origin 1 = (s.lanes 3).origin 1 := by
  have shape : (execute (fun _ _ => True) (exchangeStep 1) (.init 1) reuseToken).map (fun s =>
      ((s.lanes 3).shard.slotsAt 3 .sell 100, ((s.lanes 3).shard.shared.order 1).clientOrderId,
        (s.lanes 3).origin 1, s.ready 0)) =
      some ([1], 5, ⟨0, 0⟩, some 0) := by decide +kernel
  have left : (execute (fun _ _ => True) (exchangeStep 1) (.init 1)
    (reuseToken ++ [.cancel 0 (cancelFrame 5)])).map (fun sent =>
      (execute (fun _ _ => True) (exchangeStep 1) sent [.push 0, .pop 3 0]).map fun final =>
        (decide (Drained final 0), (final.lanes 3).engine,
          (final.lanes 3).shard.slotsAt 3 .sell 100, (final.lanes 3).origin 1)) =
      some (some (true, .idle, [1], ⟨0, 0⟩)) := by decide +kernel
  obtain ⟨s, result, shape⟩ := Option.map_eq_some_iff.mp shape
  simp only [Prod.mk.injEq] at shape
  obtain ⟨level, named, origin, ready⟩ := shape
  obtain ⟨sent, asked, left⟩ := Option.map_eq_some_iff.mp left
  obtain ⟨final, pushed, left⟩ := Option.map_eq_some_iff.mp left
  simp only [Prod.mk.injEq] at left
  obtain ⟨drained, idle, level', origin'⟩ := left
  have run : ExchangeRun 1 reuseToken s := execute_run _ _ reuseToken _ s result
  have step := execute_last _ _ reuseToken _ (.init 1) s sent result asked
  have later := execute_run _ _ [Label.push 0, Label.pop 3 0] sent final pushed
  exact ⟨s, sent, final, run, ⟨3, .sell, 100, by simp [level]⟩, named, by rw [origin], ready,
    by decide, step.2, later,
    of_decide_eq_true drained, idle, ⟨3, .sell, 100, by simp [level']⟩, by rw [origin, origin']⟩

end HftExchange
