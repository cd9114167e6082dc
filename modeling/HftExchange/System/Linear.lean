import HftExchange.System.Invariant
import HftExchange.Engine.Invariant

set_option autoImplicit false

namespace HftExchange

open Base

-- The places of a slot: never handed out, waiting to be reused, held by the
-- worker that admits its order, in a NEW task, in the hand of the engine, or
-- in a book.
inductive Place where
  | untouched
  | recycled
  | admitting
  | queued
  | matching
  | resting
deriving DecidableEq, Repr

def Inside (workers : Nat) (s : Exchange) (sh slot : Nat) : Place → Prop
  | .untouched => slot / sliceOf workers < workers ∧ (s.lanes sh).pool.highWaterMark
      (slot / sliceOf workers) ≤ slot
  | .recycled => ∃ worker, slot ∈ (s.lanes sh).pool.recycleQueues worker
  | .admitting => ∃ worker o, s.held sh worker = some o ∧ o.internalId = slot
  | .queued => ∃ worker, slot ∈ newSlots ((s.lanes sh).queues worker)
  | .matching => (s.lanes sh).engine.slot = some slot
  | .resting => (s.lanes sh).shard.shared.ordersById slot ≠ none ∨ ∃ inst side p,
      slot ∈ (s.lanes sh).shard.slotsAt inst side p

def Once (workers : Nat) (s : Exchange) (sh slot : Nat) : Place → Prop
  | .untouched => True
  | .recycled => ((s.lanes sh).pool.recycleQueues (slot / sliceOf workers)).count slot = 1 ∧
      ∀ worker, slot ∈ (s.lanes sh).pool.recycleQueues worker → worker = slot / sliceOf workers
  | .admitting => ∀ worker o, s.held sh worker = some o → o.internalId = slot →
      worker = slot / sliceOf workers
  | .queued => (newSlots ((s.lanes sh).queues (slot / sliceOf workers))).count slot = 1 ∧
      ∀ worker, slot ∈ newSlots ((s.lanes sh).queues worker) → worker = slot / sliceOf workers
  | .matching => True
  | .resting => (s.lanes sh).shard.shared.ordersById slot = some slot ∧ ∃ inst side p, ∀ inst' side' p',
      ((s.lanes sh).shard.slotsAt inst' side' p').count slot = if inst' = inst ∧ side' = side ∧
        p' = p then 1 else 0

def placeCount (workers : Nat) (s : Exchange) (sh slot : Nat) : Place → Nat
  | .untouched => (s.lanes sh).pool.untouched slot
  | .recycled => ((s.lanes sh).pool.recycleQueues (slot / sliceOf workers)).count slot
  | .admitting => heldCount (s.held sh) (slot / sliceOf workers) slot
  | .queued => (newSlots ((s.lanes sh).queues (slot / sliceOf workers))).count slot
  | .matching => handCount (s.lanes sh).engine slot
  | .resting => liveCount (s.lanes sh).shard slot

section
variable (workers : Nat) (s : Exchange) (inv : ExchangeInv workers s) (sh slot : Nat)
include inv

theorem inside_count (place : Place) (inside : Inside workers s sh slot place) :
    placeCount workers s sh slot place ≠ 0 := by
  have lane := inv.lanes sh
  cases place with
  | untouched =>
      have low : slot / sliceOf workers < workers ∧ (s.lanes sh).pool.highWaterMark
        (slot / sliceOf workers) ≤ slot := inside
      simp [placeCount, MemoryPool.untouched, lane.slices.1, lane.slices.2, low]
  | recycled =>
      obtain ⟨worker, member⟩ := inside
      have home := lane.pool.home worker slot member
      rw [lane.slices.1] at home
      rw [placeCount, home]
      exact Nat.ne_of_gt (List.count_pos_iff.mpr member)
  | admitting =>
      obtain ⟨worker, o, holds, rfl⟩ := inside
      rw [placeCount, (lane.held worker o holds).1.home]
      simp [heldCount, holds]
  | queued =>
      obtain ⟨worker, member⟩ := inside
      rw [placeCount, (lane.queued worker slot member).home]
      exact Nat.ne_of_gt (List.count_pos_iff.mpr member)
  | matching =>
      have hand : (s.lanes sh).engine.slot = some slot := inside
      simp [placeCount, handCount, hand]
  | resting =>
      obtain ⟨books, engine⟩ := lane.rep
      obtain ⟨pending, rep⟩ := engine_pending _ books _ engine
      have live : (s.lanes sh).shard.shared.ordersById slot ≠ none := by
        rcases inside with present | ⟨inst, side, p, member⟩
        · exact present
        · rw [slots_at_eq _ books pending rep] at member
          have present := (rep.each inst).present slot (.inl (level_ids_subset _ _ _ _ member))
          intro absent
          cases present.symm.trans absent
      simp [placeCount, liveCount, live]

theorem tally_places :
    placeCount workers s sh slot .untouched + placeCount workers s sh slot .recycled +
    placeCount workers s sh slot .admitting + placeCount workers s sh slot .queued + placeCount
      workers s sh slot .matching +
    placeCount workers s sh slot .resting = if Usable workers slot then 1 else 0 := by
  have total := (inv.lanes sh).tally slot
  rw [Lane.tally, MemoryPool.free, (inv.lanes sh).slices.1] at total
  simp only [placeCount]
  omega

theorem counted_once (place : Place) (one : placeCount workers s sh slot place = 1) :
    Inside workers s sh slot place ∧ Once workers s sh slot place := by
  have lane := inv.lanes sh
  cases place with
  | untouched =>
      simp only [placeCount, MemoryPool.untouched, lane.slices.1, lane.slices.2] at one
      refine ⟨?_, trivial⟩
      by_contra outside
      have outside : ¬ (slot / sliceOf workers < workers ∧
        (s.lanes sh).pool.highWaterMark (slot / sliceOf workers) ≤ slot) := outside
      simp [outside] at one
  | recycled =>
      rw [placeCount] at one
      refine ⟨⟨_, List.count_pos_iff.mp (Nat.lt_of_lt_of_eq Nat.one_pos one.symm)⟩, one,
        fun worker member => ?_⟩
      rw [← lane.slices.1]
      exact (lane.pool.home worker slot member).symm
  | admitting =>
      have some_ : (s.held sh (slot / sliceOf workers)).map Order.internalId = some slot := by
        by_contra other
        simp [placeCount, heldCount, other] at one
      obtain ⟨o, holds, same⟩ := Option.map_eq_some_iff.mp some_
      refine ⟨⟨_, o, holds, same⟩, fun worker other holds' same' => ?_⟩
      rw [← same']
      exact (lane.held worker other holds').1.home.symm
  | queued =>
      rw [placeCount] at one
      refine ⟨⟨_, List.count_pos_iff.mp (Nat.lt_of_lt_of_eq Nat.one_pos one.symm)⟩, one,
        fun worker member => ?_⟩
      exact (lane.queued worker slot member).home.symm
  | matching =>
      refine ⟨?_, trivial⟩
      by_contra other
      have other : (s.lanes sh).engine.slot ≠ some slot := other
      simp [placeCount, handCount, other] at one
  | resting =>
      obtain ⟨books, engine⟩ := lane.rep
      obtain ⟨pending, rep⟩ := engine_pending _ books _ engine
      rcases live_count_iff _ books pending rep slot with ⟨⟨inst, member⟩, _⟩ | ⟨_, zero⟩
      · have present : (s.lanes sh).shard.shared.ordersById slot = some slot :=
          (rep.each inst).present slot (.inl member)
        refine ⟨.inl (by simp [present]), present, ?_⟩
        obtain ⟨r, inside, rfl⟩ := List.mem_map.mp member
        refine ⟨r.instrumentId, r.side, r.price, fun inst' side' p' => ?_⟩
        have distinct : ((s.lanes sh).shard.slotsAt inst' side' p').Nodup := by
          rw [slots_at_eq _ books pending rep]
          exact level_ids_nodup _ _ _ (rep.each inst').distinct
        rw [distinct.count]
        exact if_congr (slots_at_iff _ books pending rep inst r inside inst' side' p') rfl rfl
      · rw [placeCount] at one
        omega

end

theorem slots_are_linear (workers : Nat) (one : 1 ≤ workers) (sixteen : workers ≤ 16)
    (labels : List Label) (s : Exchange)
    (run : ExchangeRun workers labels s) :
    (∀ sh slot, Usable workers slot → ∃ place, Inside workers s sh slot place ∧ Once workers s sh slot place ∧
      ∀ other, Inside workers s sh slot other → other = place) ∧
    (∀ sh slot, ¬ Usable workers slot → ∀ place, ¬ Inside workers s sh slot place) ∧
    (∀ sh worker idx token conn, ⟨.cancel idx token, conn⟩ ∈ (s.lanes sh).queues worker → 0 < idx ∧
      idx < maxOrdersLookup) ∧
    (∀ label, ∃ next, exchangeStep workers s label = .ok next) := by
  have inv := exchange_run_inv workers one sixteen labels s run
  refine ⟨fun sh slot usable => ?_, fun sh slot unusable place inside => ?_,
    fun sh worker idx token conn member => ?_, fun label => ?_⟩
  · have total := tally_places workers s inv sh slot
    rw [if_pos usable] at total
    have found : ∃ place, placeCount workers s sh slot place = 1 ∧ ∀ other, other ≠ place →
        placeCount workers s sh slot other = 0 := by
      by_contra none_
      push Not at none_
      have every : ∀ place, placeCount workers s sh slot place ≠ 1 := by
        intro place counted
        obtain ⟨other, different, present⟩ := none_ place counted
        cases place <;> cases other <;> first | exact absurd rfl different | omega
      have first := every .untouched
      have second := every .recycled
      have third := every .admitting
      have fourth := every .queued
      have fifth := every .matching
      have sixth := every .resting
      omega
    obtain ⟨place, counted, others⟩ := found
    obtain ⟨inside, once⟩ := counted_once workers s inv sh slot place counted
    refine ⟨place, inside, once, fun other there => ?_⟩
    by_contra different
    exact inside_count workers s inv sh slot other there (others other different)
  · have total := tally_places workers s inv sh slot
    rw [if_neg unusable] at total
    have present := inside_count workers s inv sh slot place inside
    cases place <;> omega
  · have usable := (inv.lanes sh).cancels worker idx token conn member
    exact ⟨usable.1, usable_bound workers idx one sixteen usable⟩
  · obtain ⟨next, done, _⟩ := exchange_step_inv workers one sixteen s inv label
    exact ⟨next, done⟩

def admitOne : List Label := [.accept 1, .enter 0 (enterFrame 5 'S' 10 3 100), .record 1, .push 1]

theorem admitted_slot_linear :
    ∃ s, ExchangeRun 2 admitOne s ∧ newSlots ((s.lanes 3).queues 1) = [250000] ∧
    (∃ place, Inside 2 s 3 250000 place ∧ Once 2 s 3 250000 place ∧
      ∀ other, Inside 2 s 3 250000 other → other = place) ∧
    ∀ place, ¬ Inside 2 s 3 0 place := by
  have shape : (execute (fun _ _ => True) (exchangeStep 2) (.init 2) admitOne).map
    (fun s => newSlots ((s.lanes 3).queues 1)) =
      some [250000] := by decide +kernel
  obtain ⟨s, result, queue⟩ := Option.map_eq_some_iff.mp shape
  have run : ExchangeRun 2 admitOne s := execute_run _ _ admitOne _ s result
  obtain ⟨linear, nowhere, _⟩ := slots_are_linear 2 (by decide) (by decide) admitOne s run
  exact ⟨s, run, queue, linear 3 250000 (by decide), nowhere 3 0 (by decide)⟩

end HftExchange
