import HftExchange.Book.Cancel
import HftExchange.Base.Runs

set_option autoImplicit false

namespace HftExchange

open Base

theorem settle_ids_subset (book : Resting) (id qty slot : Nat)
    (member : slot ∈ ids (settle book id qty)) : slot ∈ ids book := by
  obtain ⟨r, inside, rfl⟩ := List.mem_map.mp member
  obtain ⟨old, here, rfl | rfl⟩ := settle_origin book id qty r inside
  · exact List.mem_map_of_mem here
  · exact List.mem_map.mpr ⟨old, here, rfl⟩

theorem heap_frame_trans (first second third : Shared) (o : Slot) (book next : Resting)
    (subset : ∀ slot ∈ ids next, slot ∈ ids book) (before : HeapFrame first second o book)
    (after : HeapFrame second third o next) :
    HeapFrame first third o book := by
  intro slot outside different
  obtain ⟨order, nextLink, prevLink⟩ := before slot outside different
  obtain ⟨order', nextLink', prevLink'⟩ := after slot (fun member => outside (subset slot member)) different
  exact ⟨order'.trans order, nextLink'.trans nextLink, prevLink'.trans prevLink⟩

-- The loop performs the events of the reference matching one by one. The
-- number of control points left to visit bounds its iterations.
theorem match_loop_refines (fuel : Nat) (st : BookState) (o : Slot) (n : Order) (book : Resting)
    (others : Slot → Prop)
    (pc : MatchPc) (inv : MatchRep st o n book others pc) (running : pc ≠ .done)
    (enough : remaining n book pc < fuel) :
    ∃ next, matchLoop fuel st o pc = .ok next ∧ BookRep next (referenceMatch book n).1 others quiet ∧
      next.shared.out = st.shared.out ++ (referenceMatch book n).2.flatMap Event.outputs ∧
      HeapFrame st.shared next.shared o book := by
  induction fuel generalizing st n book pc with
  | zero => omega
  | succ fuel ih =>
      obtain ⟨mid, after, step, result⟩ := match_step_refines st o n book others pc inv running
      have unfold_ : matchLoop (fuel + 1) st o pc = matchLoop fuel mid o after := by
        cases pc with
        | done => exact absurd rfl running
        | outer cursor => simp [matchLoop, step]
        | inner p => simp [matchLoop, step]
        | finish => simp [matchLoop, step]
      rw [unfold_]
      cases result with
      | moved frame out rep live smaller =>
          obtain ⟨next, done, nextRep, nextOut, nextFrame⟩ := ih mid n book after rep live (by omega)
          exact ⟨next, done, nextRep, by rw [nextOut, out],
            heap_frame_trans _ _ _ o book book (fun _ h => h) frame nextFrame⟩
      | traded r frame event out rep live smaller =>
          obtain ⟨next, done, nextRep, nextOut, nextFrame⟩ := ih mid _ _ after rep live (by omega)
          rw [reference_match_step _ _ _ _ _ event]
          refine ⟨next, done, nextRep, ?_,
            heap_frame_trans _ _ _ o book _ (settle_ids_subset book _ _) frame nextFrame⟩
          rw [nextOut, out, List.append_assoc]
          rfl
      | ended event left frame event' out rep finished =>
          subst finished
          rw [reference_match_step _ _ _ _ _ event']
          have room : ∃ rest, fuel = rest + 1 := ⟨fuel - 1, by
            have positive : 0 < remaining n book pc := by
              cases pc with
              | done => exact absurd rfl running
              | finish => simp [remaining]
              | inner p => simp only [remaining]; omega
              | outer cursor => cases cursor <;> simp only [remaining] <;> omega
            omega⟩
          obtain ⟨rest, rfl⟩ := room
          refine ⟨mid, rfl, rep, ?_, frame⟩
          simpa [continueMatch] using out

theorem span_bound (side : Side) (p : Nat) (bound : p < maxPrice) : span side p ≤ maxPrice := by
  cases side <;> simp only [span] <;> omega

theorem match_start_rep (st : BookState) (o : Slot) (n : Order) (book : Resting) (others : Slot → Prop)
    (rep : BookRep st book others quiet) (hand : st.shared.order o = n) (self : n.internalId = o)
    (fresh : o ∉ ids book)
    (free : ¬ others o) (valid : ValidOrder n) :
    matchStart st o = (st, .outer (some (st.book.ladder n.side.opposite).cachedBest)) ∧
      MatchRep st o n book others (.outer (some (st.book.ladder n.side.opposite).cachedBest)) := by
  refine ⟨?_, rep, hand, self, fresh, free, valid, rfl⟩
  have accepted : ¬ (maxOrdersLookup ≤ n.internalId ∨ maxPrice ≤ n.price) := by
    have slot := valid.2.1
    have price := valid.2.2
    omega
  simp only [matchStart, hand, if_neg accepted]

theorem match_order_refines (st : BookState) (o : Slot) (n : Order) (book : Resting) (others : Slot → Prop)
    (rep : BookRep st book others quiet) (hand : st.shared.order o = n) (self : n.internalId = o)
    (fresh : o ∉ ids book)
    (free : ¬ others o) (valid : ValidOrder n) :
    ∃ next, matchOrder st o = .ok next ∧ BookRep next (referenceMatch book n).1 others quiet ∧
      next.shared.out = st.shared.out ++ (referenceMatch book n).2.flatMap Event.outputs ∧
      HeapFrame st.shared next.shared o book := by
  obtain ⟨start, inv⟩ := match_start_rep st o n book others rep hand self fresh free valid
  rw [matchOrder, start]
  apply match_loop_refines matchFuel st o n book others _ inv (by simp)
  have size := book_length_bound st book others quiet rep
  have width := span_bound n.side _ (rep.marks n.side.opposite).inside
  have most := open_count_le n
  simp only [remaining, matchFuel]
  omega

-- Operations on a single book. A submitted order is constructed in its slot
-- by the pool before match_order sees it.
inductive BookOp where
  | submit (o : Order)
  | cancel (id : Nat)
deriving DecidableEq, Repr

def Shared.construct (shared : Shared) (o : Order) : Shared :=
  { shared with
    heap :=
      { order := Function.update shared.heap.order o.internalId o
        links :=
          { next := Function.update shared.heap.links.next o.internalId none
            prev := Function.update shared.heap.links.prev o.internalId none } } }

def bookStep (st : BookState) : BookOp → Checked BookState
  | .submit o => matchOrder { st with shared := st.shared.construct o } o.internalId
  | .cancel id => cancelOrder st id

def Admissible (st : BookState) : BookOp → Prop
  | .submit o => 0 < o.internalId ∧ o.internalId < maxOrdersLookup ∧
      st.shared.ordersById o.internalId = none ∧
      o.price < maxPrice ∧ 1 ≤ o.quantity
  | .cancel _ => True

instance (st : BookState) : (op : BookOp) → Decidable (Admissible st op)
  | .submit _ => inferInstanceAs (Decidable (_ ∧ _))
  | .cancel _ => inferInstanceAs (Decidable True)

def emptyOrder : Order := ⟨0, 0, 0, 0, 0, 0, 0, .buy⟩

def Shared.init : Shared :=
  { heap := { order := fun _ => emptyOrder, links := ⟨fun _ => none, fun _ => none⟩ },
    ordersById := fun _ => none, out := [] }

def BookState.init : BookState := { shared := .init, book := .init }

def BookRun : List BookOp → BookState → Prop := Run BookState.init (Guarded Admissible bookStep)

def referenceStep (state : Resting × List Event) : BookOp → Resting × List Event
  | .submit o => ((referenceMatch state.1 o).1, state.2 ++ (referenceMatch state.1 o).2)
  | .cancel id => ((referenceCancel state.1 id).1, state.2 ++ (referenceCancel state.1 id).2)

def referenceRun (ops : List BookOp) : Resting × List Event := ops.foldl referenceStep ([], [])

def walk (links : Links) : Nat → Option Slot → List Slot
  | 0, _ => []
  | _ + 1, none => []
  | fuel + 1, some slot => slot :: walk links fuel (links.next slot)

def levelSlots (st : BookState) (side : Side) (p : Nat) : List Slot :=
  walk st.shared.heap.links maxOrdersLookup ((st.book.ladder side).levels p).head

def restingAt (st : BookState) (side : Side) (p : Nat) : List Order :=
    (levelSlots st side p).map st.shared.order

def itchSequence (out : List Output) : List ItchMessage :=
  out.filterMap fun | .itch m => some m | _ => none

def dropCopySequence (out : List Output) : List DropCopyMessage :=
  out.filterMap fun | .dropCopy m => some m | _ => none

def ackSequence (out : List Output) : List (Nat × OutboundAck) :=
  out.filterMap fun | .ack worker m => some (worker, m) | _ => none

def releases (out : List Output) : List Slot :=
  out.filterMap fun | .release slot => some slot | _ => none

theorem walk_segment (links : Links) (fuel : Nat) (before : Option Slot) (cells : List Slot)
    (chain : Segment links before cells none) (enough : cells.length ≤ fuel) :
    walk links fuel cells.head? = cells := by
  induction cells generalizing before fuel with
  | nil => cases fuel <;> rfl
  | cons cell rest ih =>
      cases fuel with
      | zero => simp at enough
      | succ fuel =>
          have next : links.next cell = rest.head? := by simpa using chain.2.1
          simp only [List.head?_cons, walk, next]
          rw [ih fuel (some cell) chain.2.2 (by simpa using enough)]

theorem level_slots_eq (st : BookState) (book : Resting) (others : Slot → Prop) (pending : Side → Option Nat)
    (rep : BookRep st book others pending) (side : Side) (p : Nat) :
    levelSlots st side p = levelIds book side p := by
  have linked := rep.levels side p
  have short : (levelIds book side p).length ≤ maxOrdersLookup := by
    have bound := book_length_bound st book others pending rep
    have sub := List.length_filter_le (onLevel side p) book
    simp only [levelIds, ids, levelOrders, List.length_map]
    omega
  rw [levelSlots, linked.first, walk_segment _ _ none _ linked.chain short]

theorem resting_at_eq (st : BookState) (book : Resting) (others : Slot → Prop) (pending : Side → Option Nat)
    (rep : BookRep st book others pending) (side : Side) (p : Nat) :
    restingAt st side p = levelOrders book side p := by
  rw [restingAt, level_slots_eq st book others pending rep, levelIds, ids, List.map_map]
  conv_rhs => rw [← List.map_id (levelOrders book side p)]
  apply List.map_congr_left
  intro r member
  exact rep.stored r (List.mem_of_mem_filter member)

theorem initial_book_rep : BookRep BookState.init [] (fun _ => False) quiet := by
  refine ⟨by simp, by simp [ids], by simp, by simp, ?_, ?_, by simp [ids], fun _ _ _ => rfl, by simp [ids]⟩
  · intro side p
    cases side <;> exact ⟨rfl, rfl, trivial⟩
  · intro side
    have summarised : ∀ best, Summarised (Ladder.empty best) := by
      intro best
      refine ⟨fun word => ?_, fun price present => ?_⟩
      · simp [Ladder.summary, Ladder.empty]
      · simp [Ladder.has, Ladder.empty] at present
    have clear : ∀ best p, (Ladder.empty best).has p = false := by
      intro best p
      simp [Ladder.has, Ladder.empty]
    cases side with
    | buy =>
        exact ⟨summarised 0, fun p nonempty => absurd rfl nonempty, fun p present _ =>
          by simp [OrderBook.init, BookState.init, clear] at present,
          by simp, by simp [BookState.init, OrderBook.init, Ladder.empty, maxPrice]⟩
    | sell =>
        exact ⟨summarised _, fun p nonempty => absurd rfl nonempty, fun p present _ =>
          by simp [OrderBook.init, BookState.init, clear] at present,
          by simp, by simp [BookState.init, OrderBook.init, Ladder.empty, maxPrice]⟩

def Refines (st : BookState) (reference : Resting × List Event) : Prop :=
  BookRep st reference.1 (fun _ => False) quiet ∧ st.shared.out = reference.2.flatMap Event.outputs

theorem construct_rep (st : BookState) (book : Resting) (others : Slot → Prop) (o : Order)
    (rep : BookRep st book others quiet) (fresh : o.internalId ∉ ids book) :
    BookRep { st with shared := st.shared.construct o } book others quiet := by
  refine book_rep_frame st _ book others quiet rep rfl rfl (fun slot member => ?_)
  have different : slot ≠ o.internalId := fun same => fresh (same ▸ member)
  simp [Shared.construct, Shared.order, different]

theorem fresh_slot (st : BookState) (book : Resting) (others : Slot → Prop)
    (pending : Side → Option Nat) (slot : Slot)
    (rep : BookRep st book others pending) (unused : st.shared.ordersById slot = none) : slot ∉ ids book := by
  intro member
  rw [rep.present slot (.inl member)] at unused
  cases unused

theorem book_step_refines (st : BookState) (op : BookOp) (reference : Resting × List Event)
    (refines : Refines st reference)
    (admissible : Admissible st op) :
    ∃ next, bookStep st op = .ok next ∧ Refines next (referenceStep reference op) := by
  obtain ⟨rep, out⟩ := refines
  cases op with
  | submit o =>
      obtain ⟨positive, slot, unused, price, _⟩ := admissible
      have fresh := fresh_slot st reference.1 _ _ o.internalId rep unused
      obtain ⟨next, result, nextRep, nextOut, _⟩ :=
        match_order_refines { st with shared := st.shared.construct o } o.internalId o
        reference.1 (fun _ => False) (construct_rep st reference.1 _ o rep fresh)
          (by simp [Shared.construct, Shared.order]) rfl fresh
        (fun h => h) ⟨positive, slot, price⟩
      refine ⟨next, result, nextRep, ?_⟩
      rw [nextOut]
      simp [Shared.construct, out, referenceStep]
  | cancel id =>
      obtain ⟨next, result, nextRep, nextOut, _⟩ := cancel_order_refines st reference.1
        (fun _ => False) id rep (fun h => h)
      refine ⟨next, result, nextRep, ?_⟩
      rw [nextOut, out]
      simp [referenceStep]

theorem book_run_refines (ops : List BookOp) (st : BookState) (run : BookRun ops st) :
    Refines st (referenceRun ops) := by
  refine run_simulates Refines ([], []) referenceStep ⟨initial_book_rep, rfl⟩ ?_ ops st run
  intro state op next reference refines step
  obtain ⟨other, result, after⟩ := book_step_refines state op reference refines step.1
  cases step.2.symm.trans result
  exact after

theorem order_book_refines_reference (ops : List BookOp) (st : BookState) (run : BookRun ops st) :
    (∀ side p, restingAt st side p = levelOrders (referenceRun ops).1 side p) ∧
    (∀ slot, (st.shared.ordersById slot).isSome ↔ slot ∈ ids (referenceRun ops).1) ∧
    itchSequence st.shared.out = itchSequence ((referenceRun ops).2.flatMap Event.outputs) ∧
    dropCopySequence st.shared.out = dropCopySequence ((referenceRun ops).2.flatMap Event.outputs) ∧
    ackSequence st.shared.out = ackSequence ((referenceRun ops).2.flatMap Event.outputs) ∧
    ∀ op, Admissible st op → ∃ next, bookStep st op = .ok next := by
  obtain ⟨rep, out⟩ := book_run_refines ops st run
  refine ⟨resting_at_eq st _ _ _ rep, fun slot => ?_, by rw [out], by rw [out], by rw [out],
    fun op admissible => ?_⟩
  · by_cases member : slot ∈ ids (referenceRun ops).1
    · simp [rep.present slot (.inl member), member]
    · simp [rep.absent slot member (fun h => h), member]
  · obtain ⟨next, result, _⟩ := book_step_refines st op _ ⟨rep, out⟩ admissible
    exact ⟨next, result⟩

def sampleOps : List BookOp :=
    [.submit ⟨1, 11, 100, 10, 7, 3, 0, .sell⟩, .submit ⟨2, 12, 101, 4, 8, 3, 0, .buy⟩]

theorem sample_ops_refine :
    ∃ st, BookRun sampleOps st ∧ restingAt st .sell 100 = [⟨1, 11, 100, 6, 7, 3, 0, .sell⟩] ∧
    restingAt st .sell 100 = levelOrders (referenceRun sampleOps).1 .sell 100 := by
  obtain ⟨st, result⟩ := Option.isSome_iff_exists.mp
    (show (execute Admissible bookStep .init sampleOps).isSome = true by decide +kernel)
  have left : (execute Admissible bookStep .init sampleOps).map (restingAt · .sell 100) =
      some [⟨1, 11, 100, 6, 7, 3, 0, .sell⟩] := by decide +kernel
  have run : BookRun sampleOps st := execute_run Admissible bookStep sampleOps .init st result
  rw [result] at left
  exact ⟨st, run, Option.some.inj left, (order_book_refines_reference sampleOps st run).1 .sell 100⟩

end HftExchange
