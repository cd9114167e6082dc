import HftExchange.Engine.ShardRun

set_option autoImplicit false

namespace HftExchange

open Base

-- The thread of an engine between two of its steps. It is either about to pop
-- a task or inside match_order with an order that is in no book.
inductive EnginePc where
  | idle
  | matching (inst : Nat) (o : Slot) (pc : MatchPc)
deriving DecidableEq, Repr

def EnginePc.slot : EnginePc → Option Slot
  | idle => none
  | matching _ o _ => some o

def resume (inst : Nat) (o : Slot) : MatchPc → EnginePc
  | .done => .idle
  | pc => .matching inst o pc

-- What an engine does between two points where another thread can see it: a
-- step ends at the latest with the release of a slot.
def startTask (shard : Shard) : EngineTask → Checked (Shard × EnginePc)
  | .new o =>
      let inst := (shard.shared.order o).instrumentId
      if inst < maxInstruments then do
        let st ← shard.book inst
        let (st, pc) := matchStart st o
        pure (shard.setBook inst st, resume inst o pc)
      else pure (shard, .idle)
  | .cancel idx token => do pure (← processTask shard (.cancel idx token), .idle)

def continueTask (shard : Shard) : EnginePc → Checked (Shard × EnginePc)
  | .idle => pure (shard, .idle)
  | .matching inst o pc => do
      let st ← shard.book inst
      let (st, pc) ← matchStep st o pc
      pure (shard.setBook inst st, resume inst o pc)

inductive EngineRep (shard : Shard) (books : Nat → Resting) : EnginePc → Prop where
  | idle (rep : ShardRep shard books allQuiet) : EngineRep shard books .idle
  | matching (inst : Nat) (o : Slot) (n : Order) (pc : MatchPc)
      (rep : ShardRep shard books (Function.update allQuiet inst (pendingAt n.side pc)))
      (inv : MatchRep ⟨shard.shared, shard.books inst⟩ o n (books inst) (liveElsewhere books inst)
        pc) (running : pc ≠ .done)
      (placed : n.instrumentId = inst ∧ inst < maxInstruments ∧ inst % numShards = shard.id) :
      EngineRep shard books (.matching inst o pc)

theorem engine_pending (shard : Shard) (books : Nat → Resting) (engine : EnginePc)
    (rep : EngineRep shard books engine) :
    ∃ pending, ShardRep shard books pending := by
  cases rep with
  | idle rep => exact ⟨_, rep⟩
  | matching inst o n pc rep inv running placed => exact ⟨_, rep⟩

def handCount (engine : EnginePc) (slot : Slot) : Nat := if engine.slot = some slot then 1 else 0

def liveCount (shard : Shard) (slot : Slot) : Nat := if shard.shared.ordersById slot = none then 0 else 1

theorem live_count_iff (shard : Shard) (books : Nat → Resting) (pending : Nat → Side → Option Nat)
    (rep : ShardRep shard books pending) (slot : Slot) :
    (∃ inst, slot ∈ ids (books inst)) ∧ liveCount shard slot = 1 ∨
    (∀ inst, slot ∉ ids (books inst)) ∧ liveCount shard slot = 0 := by
  rcases shard_indexed_iff shard books pending rep slot with ⟨live, present⟩ | ⟨nowhere, absent⟩
  · exact .inl ⟨live, by simp [liveCount, present]⟩
  · exact .inr ⟨nowhere, by simp [liveCount, absent]⟩

theorem live_count_eq (first second : Shard) (books others : Nat → Resting)
    (pending after : Nat → Side → Option Nat)
    (rep : ShardRep first books pending) (rep' : ShardRep second others after) (slot : Slot)
    (same : (∃ inst, slot ∈ ids (books inst)) ↔ ∃ inst, slot ∈ ids (others inst)) :
    liveCount first slot = liveCount second slot := by
  rcases live_count_iff first books pending rep slot with ⟨live, one⟩ | ⟨nowhere, zero⟩ <;>
    rcases live_count_iff second others after rep' slot with ⟨live', one'⟩ | ⟨nowhere', zero'⟩
  · rw [one, one']
  · obtain ⟨inst, member⟩ := same.mp live
    exact absurd member (nowhere' inst)
  · obtain ⟨inst, member⟩ := same.mpr live'
    exact absurd member (nowhere inst)
  · rw [zero, zero']

theorem cursor_frame (st next : BookState) (n : Order) (book : Resting) (pc : MatchPc)
    (same : next.book = st.book)
    (cursor : CursorAt st n book pc) : CursorAt next n book pc := by
  cases pc with
  | outer p =>
      cases p with
      | none => exact cursor
      | some p =>
          rw [CursorAt, same]
          exact cursor
  | inner p =>
      rw [CursorAt, same]
      exact cursor
  | finish => exact cursor
  | done => trivial

theorem engine_construct (shard : Shard) (books : Nat → Resting) (engine : EnginePc) (o : Order)
    (rep : EngineRep shard books engine)
    (absent : liveCount shard o.internalId = 0) (notHand : engine.slot ≠ some o.internalId) :
    EngineRep { shard with shared := shard.shared.construct o } books engine := by
  obtain ⟨pending, any⟩ := engine_pending shard books engine rep
  have fresh : ∀ inst, o.internalId ∉ ids (books inst) := by
    rcases live_count_iff shard books pending any o.internalId with ⟨_, one⟩ | ⟨nowhere, _⟩
    · omega
    · exact nowhere
  cases rep with
  | idle rep => exact .idle (shard_construct_rep shard books allQuiet o rep fresh)
  | matching inst slot n pc rep inv running placed =>
      have other : slot ≠ o.internalId := fun same => notHand (congrArg some same)
      refine .matching inst slot n pc (shard_construct_rep shard books _ o rep fresh)
        ⟨?_, ?_, inv.self, inv.fresh, inv.free, inv.valid, ?_⟩
        running placed
      · refine book_rep_frame _ _ _ _ _ inv.rep rfl rfl fun cell member => ?_
        have different : cell ≠ o.internalId := fun same => fresh inst (same ▸ member)
        simp [Shared.construct, Shared.order, different]
      · have hand : shard.shared.order slot = n := inv.hand
        simpa [Shared.construct, Shared.order, other] using hand
      · exact cursor_frame _ _ n (books inst) pc rfl inv.cursor

-- Everything another thread can observe of one step. Slots move between the
-- hand, the index and the list of released slots; extra is the slot that the
-- step took from a queue.
structure EngineEffect (shard : Shard) (engine : EnginePc) (extra : Option Slot) (next : Shard)
    (after : EnginePc) : Prop where
  rep : ∃ books, EngineRep next books after
  sameId : next.id = shard.id
  grown : ∃ more, next.shared.out = shard.shared.out ++ more ∧
    ∀ slot, handCount engine slot + liveCount shard slot + (if extra = some slot then 1 else 0) =
      handCount after slot + liveCount next slot + (releases more).count slot
  kept : ∀ slot, handCount after slot + liveCount next slot ≠ 0 →
    ∃ left, next.shared.order slot = { shard.shared.order slot with quantity := left }
  frame : ∀ slot, handCount engine slot + liveCount shard slot = 0 → extra ≠ some slot →
    next.shared.order slot = shard.shared.order slot
  hand : ∀ slot, after.slot = some slot → engine.slot = some slot ∨ extra = some slot

section
variable (shard : Shard) (books : Nat → Resting) (pending : Nat → Side → Option Nat)
  (rep : ShardRep shard books pending)
  (inst : Nat) (book : Resting)

def memberCount (book : Resting) (slot : Slot) : Nat := if slot ∈ ids book then 1 else 0

include rep

theorem update_balance (next : Shard) (after : Nat → Side → Option Nat)
    (rep' : ShardRep next (Function.update books inst book) after)
    (slot : Slot) :
    liveCount next slot + memberCount (books inst) slot =
      liveCount shard slot + memberCount book slot := by
  have target : Function.update books inst book inst = book := Function.update_self ..
  by_cases elsewhere : liveElsewhere books inst slot
  · obtain ⟨other, different, member⟩ := elsewhere
    have member' : slot ∈ ids (Function.update books inst book other) := by simpa [different] using member
    have before := live_elsewhere_apart shard books pending rep inst other different slot member
    have later := live_elsewhere_apart next _ after rep' inst other different slot member'
    rw [target] at later
    rw [memberCount, memberCount, if_neg before, if_neg later]
    exact (live_count_eq shard next books _ pending after rep rep' slot
      ⟨fun _ => ⟨other, member'⟩, fun _ => ⟨other, member⟩⟩).symm
  · have first : liveCount shard slot = memberCount (books inst) slot := by
      rcases live_count_iff shard books pending rep slot with ⟨⟨i, member⟩, one⟩ | ⟨nowhere, zero⟩
      · by_cases here : i = inst
        · rw [one, memberCount, if_pos (here ▸ member)]
        · exact absurd ⟨i, here, member⟩ elsewhere
      · rw [zero, memberCount, if_neg (nowhere inst)]
    have second : liveCount next slot = memberCount book slot := by
      rcases live_count_iff next _ after rep' slot with ⟨⟨i, member⟩, one⟩ | ⟨nowhere, zero⟩
      · by_cases here : i = inst
        · rw [here, target] at member
          rw [one, memberCount, if_pos member]
        · exact absurd ⟨i, here, by simpa [here] using member⟩ elsewhere
      · have absent := nowhere inst
        rw [target] at absent
        rw [zero, memberCount, if_neg absent]
    rw [first, second, Nat.add_comm]

theorem not_live_absent (slot : Slot) (zero : liveCount shard slot = 0) : slot ∉ ids (books inst) := by
  rcases live_count_iff shard books pending rep slot with ⟨_, one⟩ | ⟨nowhere, _⟩
  · omega
  · exact nowhere inst

omit rep in
theorem live_after (next : Shard) (after : Nat → Side → Option Nat)
    (rep' : ShardRep next (Function.update books inst book) after)
    (slot : Slot) (live : liveCount next slot ≠ 0) : slot ∈ ids book ∨ liveElsewhere books inst slot := by
  rcases live_count_iff next _ after rep' slot with ⟨⟨i, member⟩, _⟩ | ⟨_, zero⟩
  · by_cases here : i = inst
    · subst here
      exact .inl (by simpa using member)
    · exact .inr ⟨i, here, by simpa [here] using member⟩
  · exact absurd zero live

theorem update_kept (o : Slot) (n : Order) (next : Shared) (hand : shard.shared.order o = n)
    (self : n.internalId = o)
    (free : ¬ liveElsewhere books inst o) (frame : HeapFrame shard.shared next o (books inst))
    (stored : ∀ r ∈ book, next.order r.internalId = r)
    (origin : ∀ r ∈ book, ∃ old, (old ∈ books inst ∨ old = n) ∧
      r = { old with quantity := r.quantity }) (slot : Slot)
    (live : slot ∈ ids book ∨ liveElsewhere books inst slot) :
    ∃ left, next.order slot = { shard.shared.order slot with quantity := left } := by
  rcases live with member | elsewhere
  · obtain ⟨r, inside, rfl⟩ := List.mem_map.mp member
    obtain ⟨old, before, same⟩ := origin r inside
    have sameId : r.internalId = old.internalId := by rw [same]
    have first : shard.shared.order r.internalId = old := by
      rw [sameId]
      rcases before with old' | rfl
      · exact (rep.each inst).stored old old'
      · rw [self, hand]
    exact ⟨r.quantity, by rw [stored r inside, first]; exact same⟩
  · obtain ⟨other, different, member⟩ := elsewhere
    have outside := live_elsewhere_apart shard books pending rep inst other different slot member
    have notHand : slot ≠ o := fun equal => free ⟨other, different, equal ▸ member⟩
    exact ⟨(shard.shared.order slot).quantity, (frame slot outside notHand).1⟩

end

end HftExchange
