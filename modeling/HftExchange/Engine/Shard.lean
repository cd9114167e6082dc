import HftExchange.Book.Run

set_option autoImplicit false

namespace HftExchange

open Base

def numShards : Nat := 4

inductive EngineTask where
  | new (order : Slot)
  | cancel (internalId clientOrderId : Nat)
deriving DecidableEq, Repr

-- The books of all instruments are members of the engine, but only those of
-- its own instruments are connected to the pool and the queues.
structure Shard where
  id : Nat
  shared : Shared
  books : Nat → OrderBook

namespace Shard

def init (id : Nat) : Shard := { id := id, shared := .init, books := fun _ => .init }

def book (shard : Shard) (inst : Nat) : Checked BookState :=
  if inst < maxInstruments then
    if inst % numShards = shard.id then .ok ⟨shard.shared, shard.books inst⟩ else .error .nullPointer
  else .error .outOfBounds

def setBook (shard : Shard) (inst : Nat) (st : BookState) : Shard :=
  { shard with shared := st.shared, books := Function.update shard.books inst st.book }

end Shard

-- The body of the loop of Engine::run for one task.
def processTask (shard : Shard) : EngineTask → Checked Shard
  | .new o =>
      let inst := (shard.shared.order o).instrumentId
      if inst < maxInstruments then do
        let st ← shard.book inst
        pure (shard.setBook inst (← matchOrder st o))
      else pure shard
  | .cancel idx token => do
      match (← fetch maxOrdersLookup shard.shared.ordersById idx) with
      | none => pure shard
      | some o =>
          let c := shard.shared.order o
          if c.clientOrderId = token then do
            let st ← shard.book c.instrumentId
            pure (shard.setBook c.instrumentId (← cancelOrder st idx))
          else pure shard

def liveElsewhere (books : Nat → Resting) (inst : Nat) (slot : Slot) : Prop :=
  ∃ other, other ≠ inst ∧ slot ∈ ids (books other)

def allQuiet : Nat → Side → Option Nat := fun _ => quiet

structure ShardRep (shard : Shard) (books : Nat → Resting) (pending : Nat → Side → Option Nat) : Prop where
  each : ∀ inst, BookRep ⟨shard.shared, shard.books inst⟩ (books inst)
    (liveElsewhere books inst) (pending inst)
  placed : ∀ inst, ∀ r ∈ books inst, r.instrumentId = inst ∧ inst < maxInstruments ∧
    inst % numShards = shard.id

theorem live_elsewhere_update (books : Nat → Resting) (inst : Nat) (book : Resting) (slot : Slot) :
    liveElsewhere (Function.update books inst book) inst slot ↔ liveElsewhere books inst slot := by
  constructor
  · rintro ⟨other, different, member⟩
    exact ⟨other, different, by simpa [different] using member⟩
  · rintro ⟨other, different, member⟩
    exact ⟨other, different, by simpa [different] using member⟩

theorem book_rep_others (st : BookState) (book : Resting) (others rest : Slot → Prop)
    (pending : Side → Option Nat)
    (rep : BookRep st book others pending) (same : ∀ slot, rest slot ↔ others slot) :
    BookRep st book rest pending := by
  have equal : rest = others := funext fun slot => propext (same slot)
  exact equal ▸ rep

theorem live_elsewhere_apart (shard : Shard) (books : Nat → Resting) (pending : Nat → Side → Option Nat)
    (rep : ShardRep shard books pending) (inst other : Nat) (different : other ≠ inst) (slot : Slot)
    (member : slot ∈ ids (books other)) : slot ∉ ids (books inst) :=
  fun here => (rep.each other).apart slot member ⟨inst, different.symm, here⟩

theorem shard_rep_update (shard : Shard) (books : Nat → Resting) (pending : Nat → Side → Option Nat)
    (inst : Nat) (o : Slot)
    (next : BookState) (book : Resting) (after : Side → Option Nat) (rep : ShardRep shard books pending)
    (changed : BookRep next book (liveElsewhere books inst) after)
    (frame : HeapFrame shard.shared next.shared o (books inst))
    (free : ¬ liveElsewhere books inst o) (grown : ∀ slot ∈ ids book, slot ∈ ids (books inst) ∨ slot = o)
    (placed : ∀ r ∈ book, r.instrumentId = inst ∧ inst < maxInstruments ∧ inst % numShards = shard.id) :
    ShardRep (shard.setBook inst next) (Function.update books inst book)
    (Function.update pending inst after) := by
  refine ⟨fun target => ?_, fun target r member => ?_⟩
  · by_cases same : target = inst
    · subst same
      simp only [Shard.setBook, Function.update_self]
      exact book_rep_others _ _ _ _ _ changed (live_elsewhere_update books target book)
    · have old := rep.each target
      have apart : ∀ slot ∈ ids (books target), slot ∉ ids (books inst) ∧ slot ≠ o := fun slot member =>
        ⟨live_elsewhere_apart shard books pending rep inst target same slot member,
          fun equal => free ⟨target, same, equal ▸ member⟩⟩
      simp only [Shard.setBook, Function.update_of_ne same]
      refine ⟨fun r member => ?_, old.distinct, old.valid, old.positive, ?_, old.marks, fun slot live => ?_,
        fun slot absent free' => ?_, fun slot member => ?_⟩
      · obtain ⟨outside, other⟩ := apart r.internalId (List.mem_map_of_mem member)
        exact (frame _ outside other).1.trans (old.stored r member)
      · exact levels_frame _ _ _ _ old.levels fun slot member =>
          (frame slot (apart slot member).1 (apart slot member).2).2
      · rcases live with own | ⟨other, different, member⟩
        · exact changed.present slot (.inr ⟨target, same, own⟩)
        · by_cases here : other = inst
          · subst here
            exact changed.present slot (.inl (by simpa using member))
          · exact changed.present slot (.inr ⟨other, here, by simpa [here] using member⟩)
      · refine changed.absent slot (fun member => free' ⟨inst, Ne.symm same, by simpa using member⟩) ?_
        rintro ⟨other, different, member⟩
        by_cases here : other = target
        · exact absent (here ▸ member)
        · exact free' ⟨other, here, by simpa [different] using member⟩
      · rintro ⟨other, different, there⟩
        by_cases here : other = inst
        · subst here
          rcases grown slot (by simpa using there) with before | fresh
          · exact (apart slot member).1 before
          · exact (apart slot member).2 fresh
        · exact old.apart slot member ⟨other, different, by simpa [here] using there⟩
  · by_cases same : target = inst
    · subst same
      exact placed r (by simpa using member)
    · exact rep.placed target r (by simpa [same] using member)

theorem shard_indexed_iff (shard : Shard) (books : Nat → Resting) (pending : Nat → Side → Option Nat)
    (rep : ShardRep shard books pending) (slot : Slot) :
    (∃ inst, slot ∈ ids (books inst)) ∧ shard.shared.ordersById slot = some slot ∨
      (∀ inst, slot ∉ ids (books inst)) ∧ shard.shared.ordersById slot = none := by
  by_cases live : ∃ inst, slot ∈ ids (books inst)
  · obtain ⟨inst, member⟩ := live
    exact .inl ⟨⟨inst, member⟩, (rep.each inst).present slot (.inl member)⟩
  · have nowhere : ∀ inst, slot ∉ ids (books inst) := fun inst member => live ⟨inst, member⟩
    exact .inr ⟨nowhere, (rep.each 0).absent slot (nowhere 0) fun ⟨other, _, member⟩ => nowhere other member⟩

theorem shard_unindexed (shard : Shard) (books : Nat → Resting) (pending : Nat → Side → Option Nat)
    (rep : ShardRep shard books pending) (slot : Slot)
    (unused : shard.shared.ordersById slot = none) (inst : Nat) :
    slot ∉ ids (books inst) := by
  rcases shard_indexed_iff shard books pending rep slot with ⟨_, present⟩ | ⟨nowhere, _⟩
  · rw [unused] at present
    cases present
  · exact nowhere inst

theorem shard_construct_rep (shard : Shard) (books : Nat → Resting)
    (pending : Nat → Side → Option Nat) (o : Order)
    (rep : ShardRep shard books pending) (fresh : ∀ inst, o.internalId ∉ ids (books inst)) :
    ShardRep { shard with shared := shard.shared.construct o } books pending := by
  refine ⟨fun inst => ?_, rep.placed⟩
  refine book_rep_frame ⟨shard.shared, shard.books inst⟩ _ _ _ _ (rep.each inst) rfl rfl fun slot member => ?_
  have different : slot ≠ o.internalId := fun same => fresh inst (same ▸ member)
  simp [Shared.construct, Shared.order, different]

theorem initial_shard_rep (id : Nat) : ShardRep (.init id) (fun _ => []) allQuiet := by
  refine ⟨fun inst => book_rep_others _ _ _ _ _ initial_book_rep fun slot => ?_, by simp⟩
  simp [liveElsewhere, ids]

theorem match_trace_orders (Kind : Order → Prop) (stable : ∀ r qty, Kind r → Kind (reduced r qty))
    (book final : Resting)
    (n : Order) (events : List Event) (trace : MatchTrace book n events final)
    (all : ∀ r ∈ book, Kind r) (own : Kind n) :
    ∀ r ∈ final, Kind r := by
  induction trace with
  | ended book next n event step =>
      cases step with
      | reject r live best same => exact all
      | filled spent => exact all
      | rest live absent =>
          intro r member
          rcases List.mem_append.mp member with before | last
          · exact all r before
          · exact List.mem_singleton.mp last ▸ own
  | traded book next final n left event events step rest ih =>
      cases step with
      | trade r live best other =>
          refine ih (fun s member => ?_) (stable n _ own)
          obtain ⟨old, inside, rfl | rfl⟩ := settle_origin book _ _ s member
          · exact all s inside
          · exact stable old _ (all old inside)

theorem match_trace_ids (book final : Resting) (n : Order) (events : List Event)
    (trace : MatchTrace book n events final)
    (slot : Slot) (member : slot ∈ ids final) : slot ∈ ids book ∨ slot = n.internalId := by
  obtain ⟨r, inside, rfl⟩ := List.mem_map.mp member
  exact match_trace_orders (fun r => r.internalId ∈ ids book ∨ r.internalId = n.internalId)
    (fun _ _ h => h) book final n
    events trace (fun r inside => .inl (List.mem_map_of_mem inside)) (.inr rfl) r inside

end HftExchange
