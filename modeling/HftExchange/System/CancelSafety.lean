import HftExchange.System.Requests
import HftExchange.Engine.Invariant

set_option autoImplicit false

namespace HftExchange

open Base

theorem cancel_pop_effect (lane next : Lane) (books : Nat → Resting) (worker idx token conn : Nat)
    (rest : List Entry)
    (rep : ShardRep lane.shard books allQuiet) (bound : idx < maxOrdersLookup) (idle : lane.engine = .idle)
    (front : lane.queues worker = ⟨.cancel idx token, conn⟩ :: rest)
    (done : lane.pop worker = .ok next) (inst : Nat) (side : Side)
    (p : Nat) (slot : Slot) (before : slot ∈ lane.shard.slotsAt inst side p)
    (after : slot ∉ next.shard.slotsAt inst side p) :
    slot = idx ∧ (lane.shard.shared.order slot).clientOrderId = token := by
  obtain ⟨shard, events, books', result, rep', _, change, _, _⟩ :=
    shard_cancel_refines lane.shard books idx token rep bound
  have result : processTask lane.shard (.cancel idx token) = .ok shard := result
  simp only [Lane.pop, idle, front, startTask, result, checked_bind_ok, checked_pure] at done
  have same := advance_shard _ next shard .idle done
  rw [same, slots_at_eq shard books' allQuiet rep'] at after
  rw [slots_at_eq lane.shard books allQuiet rep] at before
  cases change with
  | ignored _ _ stale => exact absurd before after
  | canceled r inside =>
      have equal : slot = r.internalId := by
        by_contra different
        refine after ?_
        by_cases here : inst = r.instrumentId
        · subst here
          rw [Function.update_self, level_ids_without]
          exact List.mem_filter.mpr ⟨before, by simpa using different⟩
        · rwa [Function.update_of_ne here]
      refine ⟨equal, ?_⟩
      rw [equal, show lane.shard.shared.order r.internalId = r from (rep.each _).stored r inside]

theorem cancel_removes_own_order (workers : Nat) (one : 1 ≤ workers) (sixteen : workers ≤ 16)
    (labels : List Label)
    (s next : Exchange) (run : ExchangeRun workers labels s) (few : s.connections.length < 2 ^ 32 - 1)
    (sh worker idx token conn : Nat) (rest : List Entry) (idle : (s.lanes sh).engine = .idle)
    (front : (s.lanes sh).queues worker = ⟨.cancel idx token, conn⟩ :: rest)
    (step : exchangeStep workers s (.pop sh worker) = .ok next) (inst : Nat) (side : Side)
    (p : Nat) (slot : Slot)
    (before : slot ∈ (s.lanes sh).shard.slotsAt inst side p)
    (after : slot ∉ (next.lanes sh).shard.slotsAt inst side p) :
    (∃ cancel, ServedIn workers labels (.cancel conn cancel) conn worker ∧
      decodeOrderToken cancel.orderToken = ((s.lanes sh).shard.shared.order slot).clientOrderId) ∧
    (∃ enter left, ServedIn workers labels (.enter conn enter) conn worker ∧
      (s.lanes sh).shard.shared.order slot =
        { orderOf enter (clientIdOf conn) worker with internalId := slot, quantity := left }) ∧
    ((s.lanes sh).origin slot).conn = conn ∧ ((s.lanes sh).shard.shared.order slot).clientId =
      clientIdOf conn ∧
      ((s.lanes sh).shard.shared.order slot).clientOrderId = token := by
  have inv := exchange_run_inv workers one sixteen labels s run
  have auth := exchange_run_authority workers one sixteen labels s run few
  have requested := exchange_run_requested workers one sixteen labels s run
  obtain ⟨books, engine⟩ := (inv.lanes sh).rep
  rw [idle] at engine
  cases engine with
  | idle rep =>
      have usable := (inv.lanes sh).cancels worker idx token conn (by simp [front])
      obtain ⟨lane, done, result⟩ := (checked_bind_eq_ok _ _ _).mp step
      cases result
      rw [set_lane_lane] at after
      obtain ⟨rfl, named⟩ := cancel_pop_effect (s.lanes sh) lane books worker idx token conn rest rep
        (usable_bound workers idx one sixteen usable) idle front done inst side p slot before after
      have demand : Demand s sh worker [] slot token conn := .inr ⟨rest, front⟩
      obtain ⟨owner, _, owned⟩ := auth.cancels sh worker [] slot token conn demand
      have live : liveCount (s.lanes sh).shard slot = 1 := by
        rw [slots_at_eq _ books allQuiet rep] at before
        rcases live_count_iff _ books allQuiet rep slot with ⟨_, present⟩ | ⟨nowhere, _⟩
        · exact present
        · exact absurd (level_ids_subset _ _ _ _ before) (nowhere inst)
      have client := owned (by rw [Lane.ahead]; omega) named
      have present : s.ahead workers sh slot := by
        rw [Exchange.ahead, Lane.ahead]
        omega
      obtain ⟨known, _, traced⟩ := exchange_run_traced workers one sixteen labels s run sh slot _
        (.inr ⟨present, rfl⟩)
      have bound := (List.getElem?_eq_some_iff.mp owner).1
      obtain ⟨cancel, asked, sameToken⟩ := requested.cancels sh worker [] slot token conn demand
      obtain ⟨self, other, place, home, enter, left, entered, order⟩ := requested.slots sh slot present
      have sameConn : other = conn := by
        have bound' := (List.getElem?_eq_some_iff.mp home).1
        refine client_id_injective other conn (by omega) (by omega) (Eq.trans ?_ client)
        rw [order]
        rfl
      subst sameConn
      cases owner.symm.trans home
      rw [self] at order
      exact ⟨⟨cancel, asked, sameToken.trans named.symm⟩, ⟨enter, left, entered, order⟩,
        client_id_injective _ _ (by omega) (by omega) (traced.symm.trans client), client, named⟩

def ownCancel : List Label :=
  [.accept 0, .accept 1, .enter 1 (enterFrame 5 'S' 10 3 100), .record 1, .push 1, .pop 3 1, .work 3, .work 3,
    .cancel 1 (cancelFrame 5), .push 1]

theorem own_cancel_removed :
    ∃ s next, ExchangeRun 2 ownCancel s ∧ exchangeStep 2 s (.pop 3 1) = .ok next ∧
    250000 ∈ (s.lanes 3).shard.slotsAt 3 .sell 100 ∧ 250000 ∉ (next.lanes 3).shard.slotsAt 3 .sell 100 ∧
    (∃ cancel, ServedIn 2 ownCancel (.cancel 1 cancel) 1 1 ∧ decodeOrderToken cancel.orderToken = 5) ∧
    ((s.lanes 3).origin 250000).conn = 1 := by
  have shape : (execute (fun _ _ => True) (exchangeStep 2) (.init 2) ownCancel).map (fun s =>
      ((s.lanes 3).shard.slotsAt 3 .sell 100, (s.lanes 3).engine, (s.lanes 3).queues 1,
        s.connections.length)) =
      some ([250000], .idle, [⟨.cancel 250000 5, 1⟩], 2) := by decide +kernel
  have popped : ((execute (fun _ _ => True) (exchangeStep 2) (.init 2)
    (ownCancel ++ [.pop 3 1])).map fun next =>
      (next.lanes 3).shard.slotsAt 3 .sell 100) = some [] := by decide +kernel
  obtain ⟨s, result, shape⟩ := Option.map_eq_some_iff.mp shape
  obtain ⟨next, later, gone⟩ := Option.map_eq_some_iff.mp popped
  simp only [Prod.mk.injEq] at shape
  obtain ⟨resting, idle, queue, count⟩ := shape
  have run : ExchangeRun 2 ownCancel s := execute_run _ _ ownCancel _ s result
  have step := execute_last _ _ ownCancel _ (.init 2) s next result later
  have before : 250000 ∈ (s.lanes 3).shard.slotsAt 3 .sell 100 := by simp [resting]
  have after : 250000 ∉ (next.lanes 3).shard.slotsAt 3 .sell 100 := by simp [gone]
  obtain ⟨⟨cancel, asked, same⟩, _, sender, _, named⟩ := cancel_removes_own_order 2 (by decide)
    (by decide) ownCancel s next run
    (by rw [count]; decide) 3 1 250000 5 1 [] idle queue step.2 3 .sell 100 250000 before after
  exact ⟨s, next, run, step.2, before, after, ⟨cancel, asked, same.trans named⟩, sender⟩

end HftExchange
