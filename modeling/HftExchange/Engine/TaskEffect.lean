import HftExchange.Book.Locality
import HftExchange.Engine.ShardRun

set_option autoImplicit false

namespace HftExchange

open Base

def EngineTask.slot : EngineTask → Slot
  | .new o => o
  | .cancel idx _ => idx

def EngineTask.target (shard : Shard) : EngineTask → Option Nat
  | .new o => some (shard.shared.order o).instrumentId
  | .cancel idx token =>
      match shard.shared.ordersById idx with
      | some o => if (shard.shared.order o).clientOrderId = token then some
          (shard.shared.order o).instrumentId else none
      | none => none

-- What holds of a task in the queues of a shard. The order of a NEW task is in
-- its slot and in no book; its price may be off the ladder.
def Awaits (shard : Shard) : EngineTask → Prop
  | .new o => 0 < o ∧ o < maxOrdersLookup ∧ (shard.shared.order o).internalId = o ∧
      shard.shared.ordersById o = none ∧
      (shard.shared.order o).instrumentId < maxInstruments ∧
        (shard.shared.order o).instrumentId % numShards = shard.id
  | .cancel idx _ => idx < maxOrdersLookup

def Event.orders : Event → List Order
  | .trade taker maker => [taker, maker]
  | .reject o => [o]
  | .rest o => [o]
  | .filled o => [o]
  | .cancel o => [o]

-- A property that survives a fill and holds of the orders of a book and of the
-- incoming order holds of every order the matching mentions.
theorem match_trace_events (Kind : Order → Prop) (stable : ∀ r qty, Kind r → Kind (reduced r qty))
    (book final : Resting)
    (n : Order) (events : List Event) (trace : MatchTrace book n events final)
    (all : ∀ r ∈ book, Kind r) (own : Kind n) :
    ∀ e ∈ events, ∀ r ∈ e.orders, Kind r := by
  induction trace with
  | ended book next n event step =>
      intro e member r inside
      obtain rfl := List.mem_singleton.mp member
      cases step with
      | reject s live best same => exact List.mem_singleton.mp inside ▸ own
      | filled spent => exact List.mem_singleton.mp inside ▸ own
      | rest live absent => exact List.mem_singleton.mp inside ▸ own
  | traded book next final n left event events step rest ih =>
      intro e member r inside
      cases step with
      | trade s live best other =>
          rcases List.mem_cons.mp member with rfl | later
          · simp only [Event.orders, List.mem_cons, List.not_mem_nil, or_false] at inside
            rcases inside with rfl | rfl
            · exact own
            · exact all r (best_opposite_mem n r book best)
          · refine ih (fun t there => ?_) (stable n _ own) e later r inside
            obtain ⟨old, before, rfl | rfl⟩ := settle_origin book _ _ t there
            · exact all t before
            · exact stable old _ (all old before)

-- The task on the reference book of its instrument. An order with a price off
-- the ladder gives its slot back at once.
def referenceTask (book : Resting) (o : Order) : EngineTask → Resting × List Event
  | .new _ => if o.price < maxPrice then referenceMatch book o else (book, [.filled o])
  | .cancel idx token => if ∃ r ∈ book, r.internalId = idx ∧
      r.clientOrderId = token then referenceCancel book idx else (book, [])

structure TaskEffect (shard next : Shard) (books books' : Nat → Resting) (task : EngineTask)
    (inst : Nat) (events : List Event) :
    Prop where
  self : (shard.shared.order task.slot).internalId = task.slot ∧
    (shard.shared.order task.slot).instrumentId = inst
  home : ∀ other, other ≠ inst → task.slot ∉ ids (books other)
  rep : ShardRep next books' allQuiet
  id : next.id = shard.id
  out : next.shared.out = shard.shared.out ++ events.flatMap Event.outputs
  book : next.books = Function.update shard.books inst (next.books inst)
  reference : referenceTask (books inst) (shard.shared.order task.slot) task = (books' inst, events)
  elsewhere : ∀ other, other ≠ inst → books' other = books other
  frame : HeapFrame shard.shared next.shared task.slot (books inst)
  orders : ∀ Kind : Order → Prop, (∀ r qty, Kind r → Kind (reduced r qty)) → (∀ r ∈ books inst, Kind r) →
    Kind (shard.shared.order task.slot) → (∀ r ∈ books' inst, Kind r) ∧ ∀ e ∈ events, ∀ r ∈ e.orders, Kind r

theorem book_within (st : BookState) (book : Resting) (others : Slot → Prop) (pending : Side → Option Nat)
    (rep : BookRep st book others pending) : Within (fun slot => slot ∈ ids book) st := by
  constructor
  · intro side p h first
    have linked := rep.levels side p
    rw [linked.first] at first
    exact level_ids_subset book side p h (List.mem_of_head? first)
  · intro slot t live follows
    obtain ⟨r, inside, rfl⟩ := List.mem_map.mp live
    have linked := rep.levels r.side r.price
    have member : r.internalId ∈ levelIds book r.side r.price :=
      (mem_level_ids _ _ _ _).mpr ⟨r, inside, rfl, rfl, rfl⟩
    obtain ⟨left, right, split⟩ := List.append_of_mem member
    rw [split] at linked
    have next := (linked_neighbours _ _ _ left right r.internalId linked).2
    rw [next] at follows
    refine level_ids_subset book r.side r.price t ?_
    rw [split]
    exact List.mem_append_right _ (List.mem_cons_of_mem _ (List.mem_of_head? follows))

section
variable (shard : Shard) (books : Nat → Resting) (rep : ShardRep shard books allQuiet)
include rep

theorem new_effect (o : Slot) (awaits : Awaits shard (.new o)) :
    ∃ next books' events, processTask shard (.new o) = .ok next ∧
    TaskEffect shard next books books' (.new o) (shard.shared.order o).instrumentId events := by
  obtain ⟨positive, bound, self, unused, known, routed⟩ := awaits
  generalize hand : shard.shared.order o = n at *
  have fresh := shard_unindexed shard books allQuiet rep o unused
  have free : ¬ liveElsewhere books n.instrumentId o := fun ⟨other, _, member⟩ => fresh other member
  have open_ : shard.book n.instrumentId = .ok ⟨shard.shared, shard.books n.instrumentId⟩ :=
    by simp [Shard.book, known, routed]
  by_cases price : n.price < maxPrice
  · obtain ⟨st, result, rep', out, frame⟩ :=
      match_order_refines ⟨shard.shared, shard.books n.instrumentId⟩ o n (books n.instrumentId) _
      (rep.each n.instrumentId) hand self (fresh _) free ⟨self ▸ positive, self ▸ bound, price⟩
    have trace := reference_match_trace (books n.instrumentId) n
    refine ⟨shard.setBook n.instrumentId st,
      Function.update books n.instrumentId (referenceMatch (books n.instrumentId) n).1, _, ?_,
      ⟨hand ▸ self, congrArg Order.instrumentId hand⟩, fun other _ => fresh other, ?_, rfl, out, ?_,
        ?_, ?_, frame, ?_⟩
    · simp only [processTask, hand, known, if_true, open_, checked_bind_ok, result, checked_pure]
    · rw [← update_quiet n.instrumentId]
      refine shard_rep_update shard books allQuiet n.instrumentId o st _ quiet rep rep' frame free
        (fun slot there => self ▸ match_trace_ids _ _ n _ trace slot there) ?_
      exact match_trace_orders _ (fun _ _ h => h) _ _ n _ trace (rep.placed n.instrumentId)
        ⟨rfl, known, routed⟩
    · simp [Shard.setBook]
    · simp [referenceTask, EngineTask.slot, hand, price]
    · exact fun other apart => Function.update_of_ne apart ..
    · intro Kind stable all own
      have own : Kind n := hand ▸ own
      rw [Function.update_self]
      exact ⟨match_trace_orders Kind stable _ _ n _ trace all own,
        match_trace_events Kind stable _ _ n _ trace all own⟩
  · -- the order gives its slot back and the book stays as it is
    have start : matchOrder ⟨shard.shared, shard.books n.instrumentId⟩ o =
        .ok ⟨shard.shared.deallocate o, shard.books n.instrumentId⟩ := by
      simp only [matchOrder, matchStart, hand, if_pos (show maxOrdersLookup ≤ n.internalId ∨
        maxPrice ≤ n.price from
        .inr (Nat.le_of_not_lt price))]
      rfl
    refine ⟨shard.setBook n.instrumentId ⟨shard.shared.deallocate o, shard.books n.instrumentId⟩,
      books, [.filled n], ?_,
      ⟨hand ▸ self, congrArg Order.instrumentId hand⟩, fun other _ => fresh other, ?_, rfl, ?_, ?_,
        ?_, fun _ _ => rfl,
      fun _ _ _ => ⟨rfl, rfl, rfl⟩, ?_⟩
    · simp only [processTask, hand, known, if_true, open_, checked_bind_ok, start, checked_pure]
    · refine ⟨fun inst => ?_, rep.placed⟩
      have same : Function.update shard.books n.instrumentId (shard.books n.instrumentId) =
        shard.books := Function.update_eq_self ..
      simp only [Shard.setBook, same]
      exact book_rep_frame ⟨shard.shared, shard.books inst⟩ _ _ _ _ (rep.each inst) rfl rfl
        fun slot _ => ⟨rfl, rfl, rfl⟩
    · simp [Shard.setBook, Shared.deallocate, Shared.emit, Event.outputs, self]
    · simp [Shard.setBook]
    · simp [referenceTask, EngineTask.slot, hand, price]
    · intro Kind stable all own
      refine ⟨all, fun e member r inside => ?_⟩
      obtain rfl := List.mem_singleton.mp member
      exact List.mem_singleton.mp inside ▸ hand ▸ own

theorem cancel_effect (idx token : Nat) (bound : idx < maxOrdersLookup) :
    (∃ r, r.internalId = idx ∧ r.clientOrderId = token ∧ r ∈ books r.instrumentId ∧
      EngineTask.target shard (.cancel idx token) = some r.instrumentId ∧
      ∃ next books' events, processTask shard (.cancel idx token) = .ok next ∧
        TaskEffect shard next books books' (.cancel idx token) r.instrumentId events) ∨
    (EngineTask.target shard (.cancel idx token) = none ∧ processTask shard (.cancel idx token) = .ok shard ∧
      ∀ inst, ∀ r ∈ books inst, r.internalId = idx → r.clientOrderId ≠ token) := by
  rcases shard_indexed_iff shard books allQuiet rep idx with ⟨⟨inst, member⟩, present⟩ | ⟨nowhere, absent⟩
  · obtain ⟨r, inside, rfl⟩ := List.mem_map.mp member
    obtain ⟨rfl, known, routed⟩ := rep.placed inst r inside
    have stored : shard.shared.order r.internalId = r := (rep.each _).stored r inside
    by_cases named : r.clientOrderId = token
    · subst named
      have own : ¬ liveElsewhere books r.instrumentId r.internalId := (rep.each _).apart _ member
      obtain ⟨st, result, rep', out, frame⟩ := cancel_order_refines ⟨shard.shared, shard.books r.instrumentId⟩
        (books r.instrumentId) _ r.internalId (rep.each _) own
      rw [reference_cancel_present _ r (rep.each _).distinct inside] at rep' out
      refine .inl ⟨r, rfl, rfl, inside, by simp [EngineTask.target, present, stored],
        shard.setBook r.instrumentId st,
        Function.update books r.instrumentId (without (books r.instrumentId) r.internalId), _, ?_,
        ⟨congrArg Order.internalId stored, congrArg Order.instrumentId stored⟩,
          fun other apart there => own ⟨other, apart, there⟩, ?_, rfl, out,
        ?_, ?_, ?_, frame, ?_⟩
      · simp [processTask, bound, present, stored, Shard.book, known, routed, result]
      · rw [← update_quiet r.instrumentId]
        refine shard_rep_update shard books allQuiet r.instrumentId r.internalId st _ quiet rep
          rep' frame own ?_ ?_
        · intro slot there
          rw [ids_without] at there
          exact .inl (List.mem_of_mem_filter there)
        · exact fun s there => rep.placed r.instrumentId s (List.mem_of_mem_filter there)
      · simp [Shard.setBook]
      · rw [referenceTask, if_pos ⟨r, inside, rfl, rfl⟩,
          reference_cancel_present _ r (rep.each _).distinct inside, Function.update_self]
      · exact fun other apart => Function.update_of_ne apart ..
      · intro Kind _ all _
        rw [Function.update_self]
        refine ⟨fun s there => all s (List.mem_of_mem_filter there), fun e member s there => ?_⟩
        obtain rfl := List.mem_singleton.mp member
        exact List.mem_singleton.mp there ▸ all r inside
    · refine .inr ⟨by simp [EngineTask.target, present, stored, named],
        by simp [processTask, bound, present, stored, named],
        fun other s there same => ?_⟩
      have equal : s = r := by
        rw [← (rep.each other).stored s there, same]
        exact stored
      exact equal ▸ named
  · refine .inr ⟨by simp [EngineTask.target, absent], by simp [processTask, bound, absent],
      fun inst s there same => ?_⟩
    exact absurd (same ▸ List.mem_map_of_mem there) (nowhere inst)

theorem task_effect (task : EngineTask) (awaits : Awaits shard task) :
    (∃ inst next books' events, task.target shard = some inst ∧ processTask shard task = .ok next ∧
      TaskEffect shard next books books' task inst events) ∨
    ∃ idx token, task = .cancel idx token ∧ task.target shard = none ∧ processTask shard task = .ok shard ∧
      ∀ inst, ∀ r ∈ books inst, r.internalId = idx → r.clientOrderId ≠ token := by
  cases task with
  | new o =>
      obtain ⟨next, books', events, result, effect⟩ := new_effect shard books rep o awaits
      exact .inl ⟨_, next, books', events, rfl, result, effect⟩
  | cancel idx token =>
      rcases cancel_effect shard books rep idx token awaits with ⟨r, _, _, _, target, next, books',
        events, result, effect⟩ | ⟨target, result, stale⟩
      · exact .inl ⟨_, next, books', events, target, result, effect⟩
      · exact .inr ⟨idx, token, rfl, target, result, stale⟩

section
variable (next : Shard) (books' : Nat → Resting) (task : EngineTask) (inst : Nat) (events : List Event)
  (effect : TaskEffect shard next books books' task inst events)
include effect

omit rep in
theorem effect_ids (slot : Slot) (member : slot ∈ ids (books' inst)) :
    slot ∈ ids (books inst) ∨ slot = task.slot := by
  obtain ⟨r, inside, rfl⟩ := List.mem_map.mp member
  exact (effect.orders (fun r => r.internalId ∈ ids (books inst) ∨ r.internalId = task.slot) (fun _ _ h => h)
    (fun s there => .inl (List.mem_map_of_mem there)) (.inr effect.self.1)).1 r inside

theorem effect_index (slot : Slot) (outside : slot ∉ ids (books inst)) (other : slot ≠ task.slot) :
    next.shared.ordersById slot = shard.shared.ordersById slot := by
  have here : slot ∉ ids (books' inst) :=
    fun member => (effect_ids shard books next books' task inst events effect slot member).elim
    outside other
  rcases shard_indexed_iff shard books allQuiet rep slot
    with ⟨⟨place, member⟩, present⟩ | ⟨nowhere, absent⟩ <;>
    rcases shard_indexed_iff next books' allQuiet effect.rep slot
      with ⟨⟨place', member'⟩, present'⟩ | ⟨nowhere', absent'⟩
  · rw [present, present']
  · have away : place ≠ inst := fun same => outside (same ▸ member)
    exact absurd (effect.elsewhere place away ▸ member) (nowhere' place)
  · have away : place' ≠ inst := fun same => here (same ▸ member')
    exact absurd (effect.elsewhere place' away ▸ member') (nowhere place')
  · rw [absent, absent']

theorem effect_leaves_twin (slots : Slot → Prop) (apart : ∀ slot, slots slot →
    slot ∉ ids (books inst) ∧ slot ≠ task.slot) :
    Twin slots shard.shared.out next.shared.out shard.shared next.shared where
  order slot inside := (effect.frame slot (apart slot inside).1 (apart slot inside).2).1
  next slot inside := (effect.frame slot (apart slot inside).1 (apart slot inside).2).2.1
  prev slot inside := (effect.frame slot (apart slot inside).1 (apart slot inside).2).2.2
  byId slot inside := effect_index shard books rep next books' task inst events effect slot
    (apart slot inside).1 (apart slot inside).2
  out := ⟨[], by simp, by simp⟩

end

def Footprint (books : Nat → Resting) (inst : Nat) (task : EngineTask) : Slot → Prop :=
  Reach (fun slot => slot ∈ ids (books inst)) task.slot

theorem task_twin (task : EngineTask) (awaits : Awaits shard task) (inst : Nat)
    (target : task.target shard = some inst) (next : Shard)
    (done : processTask shard task = .ok next) (other : Shard) (sameId : other.id = shard.id)
    (sameBook : other.books inst = shard.books inst)
    (twin : Twin (Footprint books inst task) shard.shared.out other.shared.out shard.shared other.shared) :
    ∃ final, processTask other task = .ok final ∧ final.id = other.id ∧ task.target other = some inst ∧
      final.books = Function.update other.books inst (next.books inst) ∧
      Twin (Footprint books inst task) shard.shared.out other.shared.out next.shared final.shared := by
  have own : Footprint books inst task task.slot := .inr rfl
  cases task with
  | new o =>
      obtain ⟨_, _, _, _, known, routed⟩ := awaits
      have order : other.shared.order o = shard.shared.order o := twin.order o own
      obtain rfl : (shard.shared.order o).instrumentId = inst := Option.some.inj target
      have within := book_within _ _ _ _ (rep.each (shard.shared.order o).instrumentId)
      have open_ : shard.book (shard.shared.order o).instrumentId =
          .ok ⟨shard.shared, shard.books (shard.shared.order o).instrumentId⟩ := by
        simp [Shard.book, known, routed]
      have open' : other.book (shard.shared.order o).instrumentId =
          .ok ⟨other.shared, shard.books (shard.shared.order o).instrumentId⟩ := by
        simp [Shard.book, known, routed, sameId, sameBook]
      simp only [processTask, known, if_true, open_, checked_bind_ok] at done
      obtain ⟨st, matched, result⟩ := (checked_bind_eq_ok _ _ _).mp done
      cases result
      obtain ⟨b, matched', twin'⟩ :=
        match_order_twin _ o _ _ ⟨shard.shared, shard.books (shard.shared.order o).instrumentId⟩
        other.shared twin
        within st matched
      refine ⟨other.setBook (shard.shared.order o).instrumentId ⟨b, st.book⟩, ?_, rfl, ?_, ?_, twin'⟩
      · simp only [processTask, order, known, if_true, open', checked_bind_ok, matched', checked_pure]
      · simp only [EngineTask.target, order]
      · simp [Shard.setBook]
  | cancel idx token =>
      have bound : idx < maxOrdersLookup := awaits
      have index : other.shared.ordersById idx = shard.shared.ordersById idx := twin.byId idx own
      have order : other.shared.order idx = shard.shared.order idx := twin.order idx own
      rcases shard_indexed_iff shard books allQuiet rep idx with ⟨⟨place, member⟩, present⟩ | ⟨_, absent⟩
      · obtain ⟨r, inside, rfl⟩ := List.mem_map.mp member
        obtain ⟨rfl, known, routed⟩ := rep.placed place r inside
        have stored : shard.shared.order r.internalId = r := (rep.each _).stored r inside
        by_cases named : r.clientOrderId = token
        · have aim : r.instrumentId = inst :=
            by simpa [EngineTask.target, present, stored, named] using target
          subst aim
          simp only [processTask, fetch_ok _ _ _ bound, checked_bind_ok, present, stored, named,
            if_true, Shard.book, known, routed] at done
          obtain ⟨st, canceled, result⟩ := (checked_bind_eq_ok _ _ _).mp done
          cases result
          obtain ⟨b, canceled', twin'⟩ :=
            cancel_order_twin _ _ _ ⟨shard.shared, shard.books r.instrumentId⟩ other.shared
            twin r.internalId own
            (fun slot found => (Option.some.inj (present.symm.trans found)).symm) st canceled
          refine ⟨other.setBook r.instrumentId ⟨b, st.book⟩, ?_, rfl, ?_, ?_, twin'⟩
          · simp only [processTask, fetch_ok _ _ _ bound, checked_bind_ok, index, present, order,
              stored, named, if_true, Shard.book, known,
              routed, sameId, sameBook, canceled', checked_pure]
          · simp [EngineTask.target, index, present, order, stored, named]
          · simp [Shard.setBook]
        · simp [EngineTask.target, present, stored, named] at target
      · simp [EngineTask.target, absent] at target

end

end HftExchange
