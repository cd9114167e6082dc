import HftExchange.Engine.ShardRun

set_option autoImplicit false

namespace HftExchange

open Base

def Shard.slotsAt (shard : Shard) (inst : Nat) (side : Side) (p : Nat) : List Slot :=
  levelSlots ⟨shard.shared, shard.books inst⟩ side p

def BestPrice (shard : Shard) (inst : Nat) (side : Side) : Option Nat → Prop
  | none => ∀ p, shard.slotsAt inst side p = []
  | some p => shard.slotsAt inst side p ≠ [] ∧ ∀ q, shard.slotsAt inst side q ≠ [] → ahead side q p = false

-- The representation invariant of the books, in terms of the members of the
-- data structures alone.
structure ShardInvariant (shard : Shard) : Prop where
  linked : ∀ inst side p, Linked shard.shared.heap.links (((shard.books inst).ladder side).levels p).head
    (((shard.books inst).ladder side).levels p).tail (shard.slotsAt inst side p) ∧
      (shard.slotsAt inst side p).Nodup
  bitmap : ∀ inst side p, ((shard.books inst).ladder side).has p = true ↔
    (((shard.books inst).ladder side).levels p).head ≠ none
  summary : ∀ inst side word, ((shard.books inst).ladder side).summary word = true ↔
    ((shard.books inst).ladder side).bitmap word ≠ 0
  indexed : ∀ slot, shard.shared.ordersById slot ≠ none ↔
    (shard.shared.order slot).internalId = slot ∧ ∀ inst side p, slot ∈ shard.slotsAt inst side p ↔
      inst = (shard.shared.order slot).instrumentId ∧ side = (shard.shared.order slot).side ∧
        p = (shard.shared.order slot).price
  pointers : ∀ inst side p, ∀ slot ∈ shard.slotsAt inst side p, shard.shared.ordersById slot = some slot
  positive : ∀ inst side p, ∀ slot ∈ shard.slotsAt inst side p, 0 < (shard.shared.order slot).quantity
  bestAsk : ∀ inst p, ∀ slot ∈ shard.slotsAt inst .sell p,
    ((shard.books inst).ladder .sell).cachedBest ≤ (shard.shared.order slot).price
  bestBid : ∀ inst p, ∀ slot ∈ shard.slotsAt inst .buy p, (shard.shared.order slot).price ≤
    ((shard.books inst).ladder .buy).cachedBest

section
variable (shard : Shard) (books : Nat → Resting) (pending : Nat → Side → Option Nat)
  (rep : ShardRep shard books pending)
include rep

theorem slots_at_eq (inst : Nat) (side : Side) (p : Nat) :
    shard.slotsAt inst side p = levelIds (books inst) side p :=
  level_slots_eq _ _ _ _ (rep.each inst) side p

theorem slots_at_order (inst : Nat) (side : Side) (p : Nat) (slot : Slot)
    (member : slot ∈ shard.slotsAt inst side p) :
    shard.shared.order slot ∈ books inst ∧ (shard.shared.order slot).internalId = slot ∧
      (shard.shared.order slot).side = side ∧ (shard.shared.order slot).price = p := by
  rw [slots_at_eq shard books pending rep] at member
  obtain ⟨r, inside, onSide, atPrice, rfl⟩ := (mem_level_ids _ _ _ _).mp member
  rw [show shard.shared.order r.internalId = r from (rep.each inst).stored r inside]
  exact ⟨inside, rfl, onSide, atPrice⟩

theorem slots_at_iff (inst : Nat) (r : Order) (inside : r ∈ books inst) (target : Nat)
    (side : Side) (p : Nat) :
    r.internalId ∈ shard.slotsAt target side p ↔ target = r.instrumentId ∧ side = r.side ∧ p = r.price := by
  have here := (rep.placed inst r inside).1
  rw [slots_at_eq shard books pending rep, mem_level_ids]
  constructor
  · rintro ⟨s, there, onSide, atPrice, same⟩
    have equal : s = r := by
      rw [← (rep.each target).stored s there, ← (rep.each inst).stored r inside, same]
    subst equal
    exact ⟨(rep.placed target s there).1.symm, onSide.symm, atPrice.symm⟩
  · rintro ⟨rfl, rfl, rfl⟩
    rw [here]
    exact ⟨r, inside, rfl, rfl, rfl⟩

theorem head_none_iff (inst : Nat) (side : Side) (p : Nat) :
    (((shard.books inst).ladder side).levels p).head = none ↔ levelIds (books inst) side p = [] := by
  rw [((rep.each inst).levels side p).first, List.head?_eq_none_iff]

theorem shard_indexed (slot : Slot) :
    shard.shared.ordersById slot ≠ none ↔
    (shard.shared.order slot).internalId = slot ∧ ∀ inst side p, slot ∈ shard.slotsAt inst side p ↔
      inst = (shard.shared.order slot).instrumentId ∧ side = (shard.shared.order slot).side ∧
        p = (shard.shared.order slot).price := by
  rcases shard_indexed_iff shard books pending rep slot with ⟨⟨inst, member⟩, present⟩ | ⟨nowhere, absent⟩
  · obtain ⟨r, inside, rfl⟩ := List.mem_map.mp member
    rw [show shard.shared.order r.internalId = r from (rep.each inst).stored r inside]
    simp [present, slots_at_iff shard books pending rep inst r inside]
  · refine ⟨fun live => absurd absent live, fun ⟨_, exact_⟩ => ?_⟩
    have member := (exact_ _ _ _).mpr ⟨rfl, rfl, rfl⟩
    rw [slots_at_eq shard books pending rep] at member
    exact absurd (level_ids_subset _ _ _ _ member) (nowhere _)

end

theorem shard_rep_invariant (shard : Shard) (books : Nat → Resting)
    (rep : ShardRep shard books allQuiet) :
    ShardInvariant shard where
  linked inst side p := by
    rw [slots_at_eq shard books allQuiet rep]
    exact ⟨(rep.each inst).levels side p, level_ids_nodup _ _ _ (rep.each inst).distinct⟩
  bitmap inst side p := by
    rw [ne_eq, head_none_iff shard books allQuiet rep]
    exact ⟨fun set => ((rep.each inst).marks side).occupied p set (by simp [allQuiet, quiet]),
      fun nonempty => ((rep.each inst).marks side).marked p nonempty⟩
  summary inst side word := ((rep.each inst).marks side).summarised.l2 word
  indexed := shard_indexed shard books allQuiet rep
  pointers inst side p slot member := by
    rw [slots_at_eq shard books allQuiet rep] at member
    exact (rep.each inst).present slot (.inl (level_ids_subset _ _ _ _ member))
  positive inst side p slot member := (rep.each inst).positive _
    (slots_at_order shard books allQuiet rep inst side p slot member).1
  bestAsk inst p slot member := by
    obtain ⟨inside, _, onSide, _⟩ := slots_at_order shard books allQuiet rep inst .sell p slot member
    simpa [ahead] using ((rep.each inst).marks .sell).best _ inside onSide
  bestBid inst p slot member := by
    obtain ⟨inside, _, onSide, _⟩ := slots_at_order shard books allQuiet rep inst .buy p slot member
    simpa [ahead] using ((rep.each inst).marks .buy).best _ inside onSide

theorem shard_invariant_reachable (id : Nat) (ops : List ShardOp) (shard : Shard)
    (run : ShardRun (.init id) ops shard) :
    ShardInvariant shard ∧
    (∀ o, ShardAdmissible shard (.submit o) → ∃ next, shardStep shard (.submit o) = .ok next) ∧
    ∀ idx token, idx < maxOrdersLookup → ∃ next, shardStep shard (.cancel idx token) = .ok next := by
  obtain ⟨_, books, rep⟩ := shard_run_rep id ops shard run
  refine ⟨shard_rep_invariant shard books rep, fun o admissible => ?_, fun idx token bound => ?_⟩
  · obtain ⟨next, _, _, result, _⟩ := shard_submit_refines shard books o rep admissible
    exact ⟨next, result⟩
  · obtain ⟨next, _, _, result, _⟩ := shard_cancel_refines shard books idx token rep bound
    exact ⟨next, result⟩

-- Two instruments of shard 3, a sweep that empties the only ask level and a
-- cancel of what is left of the other book.
def shardOps : List ShardOp :=
  [.submit ⟨1, 11, 100, 10, 7, 3, 0, .sell⟩, .submit ⟨2, 12, 90, 5, 7, 7, 0, .buy⟩,
    .submit ⟨4, 13, 101, 10, 8, 3, 0, .buy⟩, .submit ⟨5, 14, 80, 1, 9, 3, 0, .sell⟩, .cancel 2 12]

theorem shard_ops_invariant :
    ∃ shard, ShardRun (.init 3) shardOps shard ∧ shard.slotsAt 3 .sell 80 = [5] ∧
    shard.slotsAt 7 .buy 90 = [] ∧ ShardInvariant shard := by
  obtain ⟨shard, result⟩ := Option.isSome_iff_exists.mp
    (show (execute ShardAdmissible shardStep (.init 3) shardOps).isSome = true by decide +kernel)
  have left : (execute ShardAdmissible shardStep (.init 3) shardOps).map
      (fun shard => (shard.slotsAt 3 .sell 80, shard.slotsAt 7 .buy 90)) = some ([5], []) := by decide +kernel
  have run : ShardRun (.init 3) shardOps shard :=
    execute_run ShardAdmissible shardStep shardOps _ shard result
  rw [result] at left
  obtain ⟨here, there⟩ := Prod.mk.inj (Option.some.inj left)
  exact ⟨shard, run, here, there, (shard_invariant_reachable 3 shardOps shard run).1⟩

end HftExchange
