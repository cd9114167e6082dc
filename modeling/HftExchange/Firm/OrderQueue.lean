import HftExchange.Base.Ring
import HftExchange.Base.Runs

set_option autoImplicit false

namespace HftExchange

open Base

-- send_order between two of its accesses to the queue: it samples the size and
-- then calls enqueue until that succeeds.
inductive SendOrderPc (T : Type) where
  | idle
  | sampledTail (action : T) (t : Nat)
  | attempt (action : T)
  | loadedTail (action : T) (t : Nat)
  | write (action : T) (t : Nat)
  | publish (action : T) (t : Nat)

inductive DequeuePc (T : Type) where
  | idle
  | loadedHead (h : Nat)
  | read (h : Nat)
  | publish (item : T) (h : Nat)

-- The SPSCQueue with its two threads, and the sizes that send_order has noted.
-- The rest is history: the actions given to send_order, those that went in and
-- came out, and how many the queue held when it was sampled, found full or
-- found empty.
structure SpscQueue (T : Type) where
  tail : Nat
  head : Nat
  entries : Nat → T
  producer : SendOrderPc T
  consumer : DequeuePc T
  occupancies : List Nat
  sent : List T
  enqueued : List T
  dequeued : List T
  sampled : List Nat
  foundFull : List Nat
  foundEmpty : List Nat

inductive SpscLabel (T : Type) where
  | send (action : T)
  | producer
  | dequeue
  | consumer

def SendOrderPc.pending {T : Type} : SendOrderPc T → List T
  | .idle => []
  | .sampledTail action _ => [action]
  | .attempt action => [action]
  | .loadedTail action _ => [action]
  | .write action _ => [action]
  | .publish action _ => [action]

def counterSub (first second : Nat) : Nat := (first + 2 ^ 64 - second) % 2 ^ 64

def counterSucc (counter : Nat) : Nat := (counter + 1) % 2 ^ 64

namespace SpscQueue

section
variable {T : Type}

def init (entries : Nat → T) : SpscQueue T :=
  { tail := 0, head := 0, entries := entries, producer := .idle, consumer := .idle,
    occupancies := [], sent := [], enqueued := [], dequeued := []
    sampled := [], foundFull := [], foundEmpty := [] }

def occupancy (q : SpscQueue T) : Nat := q.enqueued.length - q.dequeued.length

-- size() with the two counters that it has loaded.
def sizeOf (t h : Nat) : Nat := if h < t then counterSub t h else 0

variable (n : Nat)

def producerStep (q : SpscQueue T) : Checked (SpscQueue T) :=
  match q.producer with
  | .idle => pure q
  | .sampledTail action t =>
      pure { q with producer := .attempt action, occupancies := q.occupancies ++ [sizeOf t q.head],
                    sampled := q.sampled ++ [q.occupancy] }
  | .attempt action => pure { q with producer := .loadedTail action q.tail }
  | .loadedTail action t =>
      if n ≤ counterSub t q.head
        then pure { q with producer := .attempt action, foundFull := q.foundFull ++ [q.occupancy] }
      else pure { q with producer := .write action t }
  | .write action t =>
      do pure { q with entries := (← store n q.entries (t &&& (n - 1)) action), producer := .publish action t }
  | .publish action t =>
      pure { q with tail := counterSucc t, producer := .idle, enqueued := q.enqueued ++ [action] }

def consumerStep (q : SpscQueue T) : Checked (SpscQueue T) :=
  match q.consumer with
  | .idle => pure q
  | .loadedHead h =>
      if h = q.tail then
        pure { q with consumer := .idle, foundEmpty := q.foundEmpty ++ [q.occupancy] }
      else pure { q with consumer := .read h }
  | .read h => do pure { q with consumer := .publish (← fetch n q.entries (h &&& (n - 1))) h }
  | .publish item h =>
      pure { q with head := counterSucc h, consumer := .idle, dequeued := q.dequeued ++ [item] }

def step (q : SpscQueue T) : SpscLabel T → Checked (SpscQueue T)
  | .send action =>
      match q.producer with
      | .idle => pure { q with producer := .sampledTail action q.tail, sent := q.sent ++ [action] }
      | _ => pure q
  | .producer => q.producerStep n
  | .dequeue =>
      match q.consumer with
      | .idle => pure { q with consumer := .loadedHead q.head }
      | _ => pure q
  | .consumer => q.consumerStep n

end

end SpscQueue

def SpscRun {T : Type} (n : Nat) (entries : Nat → T) : List (SpscLabel T) → SpscQueue T → Prop :=
  Run (.init entries) (Guarded (fun _ _ => True) (SpscQueue.step n))

def SendAt {T : Type} (n : Nat) (q : SpscQueue T) : SendOrderPc T → Prop
  | .idle => True
  | .attempt _ => True
  | .sampledTail _ t => t = q.tail
  | .loadedTail _ t => t = q.tail
  | .write _ t => t = q.tail ∧ q.occupancy < n
  | .publish action t => t = q.tail ∧ q.occupancy < n ∧ q.entries (q.enqueued.length % n) = action

def TakeAt {T : Type} (q : SpscQueue T) : DequeuePc T → Prop
  | .idle => True
  | .loadedHead h => h = q.head
  | .read h => h = q.head ∧ 0 < q.occupancy
  | .publish item h => h = q.head ∧ ∃ rest, q.enqueued = q.dequeued ++ item :: rest

structure SpscInv {T : Type} (n : Nat) (q : SpscQueue T) : Prop where
  tail : q.tail = q.enqueued.length % 2 ^ 64
  head : q.head = q.dequeued.length % 2 ^ 64
  room : q.occupancy ≤ n
  held : q.enqueued = q.dequeued ++ ringContents n q.entries q.dequeued.length q.occupancy
  given : q.sent = q.enqueued ++ q.producer.pending
  producer : SendAt n q q.producer
  consumer : TakeAt q q.consumer
  foundFull : ∀ count ∈ q.foundFull, count = n
  foundEmpty : ∀ count ∈ q.foundEmpty, count = 0
  sampled : ∀ count ∈ q.sampled, count ≤ n
  occupancies : q.enqueued.length < 2 ^ 64 → q.occupancies = q.sampled

section
variable {T : Type} (k : Nat) (word : k < 64) (q : SpscQueue T) (inv : SpscInv (2 ^ k) q)
include inv

theorem spsc_lengths : q.enqueued.length = q.dequeued.length + q.occupancy := by
  have lengths := congrArg List.length inv.held
  rwa [List.length_append, ring_contents_length] at lengths

theorem spsc_next (item : T) (cell : q.entries (q.enqueued.length % 2 ^ k) = item) :
    q.enqueued ++ [item] = q.dequeued ++ ringContents (2 ^ k) q.entries q.dequeued.length
    (q.occupancy + 1) := by
  rw [ring_push, ← spsc_lengths k q inv, cell, ← List.append_assoc, ← inv.held]

include word

theorem spsc_distance : counterSub q.tail q.head = q.occupancy := by
  have lengths := spsc_lengths k q inv
  have lap : 2 ^ k < 2 ^ 64 := Nat.pow_lt_pow_right (by decide) word
  have small := Nat.lt_of_le_of_lt inv.room lap
  rw [counterSub, inv.tail, inv.head, lengths]
  omega

omit inv in
theorem counter_index (count : Nat) : count % 2 ^ 64 &&& (2 ^ k - 1) = count % 2 ^ k := by
  rw [Nat.and_two_pow_sub_one_eq_mod, Nat.mod_mod_of_dvd _ (Nat.pow_dvd_pow 2 (Nat.le_of_lt word))]

theorem sampled_inv (action : T) (t : Nat) (state : q.producer = .sampledTail action t) :
    SpscInv (2 ^ k) { q with
      producer := .attempt action, occupancies := q.occupancies ++ [SpscQueue.sizeOf t q.head],
      sampled := q.sampled ++ [q.occupancy] } := by
  have own := inv.producer
  have given := inv.given
  rw [state] at own given
  have lengths := spsc_lengths k q inv
  have distance := spsc_distance k word q inv
  refine { inv with
    given := given
    producer := trivial
    sampled := List.forall_mem_append.mpr ⟨inv.sampled, fun count member =>
      List.mem_singleton.mp member ▸ inv.room⟩
    occupancies := fun few => ?_ }
  have few : q.enqueued.length < 2 ^ 64 := few
  have tail : q.tail = q.enqueued.length := inv.tail.trans (Nat.mod_eq_of_lt few)
  have head : q.head = q.dequeued.length := inv.head.trans (Nat.mod_eq_of_lt (by omega))
  have size : SpscQueue.sizeOf t q.head = q.occupancy := by
    rw [SpscQueue.sizeOf, show t = q.tail from own]
    by_cases some_ : q.head < q.tail
    · rw [if_pos some_, distance]
    · rw [if_neg some_]
      omega
  rw [size, inv.occupancies few]

theorem spsc_producer_inv : ∃ next, q.producerStep (2 ^ k) = .ok next ∧ SpscInv (2 ^ k) next := by
  have own := inv.producer
  have given := inv.given
  have lengths := spsc_lengths k q inv
  unfold SpscQueue.producerStep
  cases state : q.producer with
  | idle => exact ⟨q, rfl, inv⟩
  | sampledTail action t => exact ⟨_, rfl, sampled_inv k word q inv action t state⟩
  | attempt action =>
      rw [state] at given
      exact ⟨_, rfl, { inv with given := given, producer := rfl }⟩
  | loadedTail action t =>
      rw [state] at own given
      have distance := spsc_distance k word q inv
      rw [← show t = q.tail from own] at distance
      dsimp only
      split
      · rename_i full
        have all : q.occupancy = 2 ^ k := by
          have room := inv.room
          omega
        exact ⟨_, rfl, { inv with
          given := given
          producer := trivial
          foundFull := List.forall_mem_append.mpr ⟨inv.foundFull, fun count member =>
            (List.mem_singleton.mp member).trans all⟩ }⟩
      · rename_i free
        have more : q.occupancy < 2 ^ k := by omega
        exact ⟨_, rfl, { inv with given := given, producer := ⟨own, more⟩ }⟩
  | write action t =>
      rw [state] at own given
      obtain ⟨tail, free⟩ := own
      have cell : t &&& (2 ^ k - 1) = (q.dequeued.length + q.occupancy) % 2 ^ k := by
        rw [tail, inv.tail, counter_index k word, lengths]
      have bound : (q.dequeued.length + q.occupancy) % 2 ^ k < 2 ^ k := Nat.mod_lt _ (Nat.two_pow_pos k)
      have kept := ring_store (2 ^ k) q.entries q.dequeued.length q.occupancy action free
      dsimp only
      rw [cell, store_ok _ _ _ _ bound]
      refine ⟨_, rfl, { inv with
        held := inv.held.trans (congrArg (q.dequeued ++ ·) kept.symm)
        given := given
        producer := ⟨tail, free, ?_⟩ }⟩
      rw [lengths]
      exact Function.update_self ..
  | publish action t =>
      rw [state] at own given
      obtain ⟨tail, free, cell⟩ := own
      have consumer := inv.consumer
      have more : (q.enqueued ++ [action]).length - q.dequeued.length = q.occupancy + 1 := by
        rw [List.length_append, List.length_singleton, lengths]
        omega
      refine ⟨_, rfl, { inv with
        tail := ?_
        room := ?_
        held := ?_
        given := given.trans (List.append_nil _).symm
        producer := trivial
        consumer := ?_
        occupancies := fun few => inv.occupancies ?_ }⟩
      · rw [counterSucc, tail, inv.tail, Nat.mod_add_mod, List.length_append, List.length_singleton]
      · rw [SpscQueue.occupancy, more]
        exact free
      · rw [SpscQueue.occupancy, more]
        exact spsc_next k q inv action cell
      · cases taking : q.consumer with
        | idle => trivial
        | loadedHead h =>
            rw [taking] at consumer
            exact consumer
        | read h =>
            rw [taking] at consumer
            refine ⟨consumer.1, ?_⟩
            rw [SpscQueue.occupancy, more]
            exact Nat.succ_pos _
        | publish item h =>
            rw [taking] at consumer
            obtain ⟨head, rest, front⟩ := consumer
            exact ⟨head, rest ++ [action], by rw [front, List.append_assoc, List.cons_append]⟩
      · rw [List.length_append] at few
        omega

theorem spsc_consumer_inv : ∃ next, q.consumerStep (2 ^ k) = .ok next ∧ SpscInv (2 ^ k) next := by
  have own := inv.consumer
  have lengths := spsc_lengths k q inv
  have lap : 2 ^ k < 2 ^ 64 := Nat.pow_lt_pow_right (by decide) word
  have room := inv.room
  unfold SpscQueue.consumerStep
  cases state : q.consumer with
  | idle => exact ⟨q, rfl, inv⟩
  | loadedHead h =>
      rw [state] at own
      have distance := spsc_distance k word q inv
      rw [← show h = q.head from own] at distance
      have tail := inv.tail
      have head : h = q.dequeued.length % 2 ^ 64 := own.trans inv.head
      dsimp only
      split
      · rename_i same
        have none_ : q.occupancy = 0 := by
          rw [counterSub] at distance
          omega
        exact ⟨_, rfl, { inv with
          consumer := trivial
          foundEmpty := List.forall_mem_append.mpr ⟨inv.foundEmpty, fun count member =>
            (List.mem_singleton.mp member).trans none_⟩ }⟩
      · rename_i apart
        have some_ : 0 < q.occupancy := by
          refine Nat.pos_of_ne_zero fun zero => apart ?_
          rw [head, tail, lengths, zero, Nat.add_zero]
        exact ⟨_, rfl, { inv with consumer := ⟨own, some_⟩ }⟩
  | read h =>
      rw [state] at own
      obtain ⟨head, some_⟩ := own
      have cell : h &&& (2 ^ k - 1) = q.dequeued.length % 2 ^ k :=
        by rw [head, inv.head, counter_index k word]
      have bound : q.dequeued.length % 2 ^ k < 2 ^ k := Nat.mod_lt _ (Nat.two_pow_pos k)
      have front := ring_pop (2 ^ k) q.entries q.dequeued.length (q.occupancy - 1)
      rw [Nat.sub_add_cancel some_] at front
      dsimp only
      rw [cell, fetch_ok _ _ _ bound]
      exact ⟨_, rfl, { inv with consumer := ⟨head, _, inv.held.trans (congrArg (q.dequeued ++ ·) front)⟩ }⟩
  | publish item h =>
      rw [state] at own
      obtain ⟨head, rest, front⟩ := own
      have producer := inv.producer
      have whole := inv.held
      have count : q.occupancy = rest.length + 1 := by
        have both := congrArg List.length front
        rw [List.length_append, List.length_cons] at both
        omega
      have fewer : q.enqueued.length - (q.dequeued ++ [item]).length = rest.length := by
        rw [List.length_append, List.length_singleton]
        omega
      have contents : item :: rest = q.entries (q.dequeued.length % 2 ^ k) :: ringContents
          (2 ^ k) q.entries (q.dequeued.length + 1) rest.length := by
        rw [← ring_pop, ← count]
        exact List.append_cancel_left (front.symm.trans whole)
      refine ⟨_, rfl, { inv with
        head := ?_
        room := ?_
        held := ?_
        producer := ?_
        consumer := trivial }⟩
      · rw [counterSucc, head, inv.head, Nat.mod_add_mod, List.length_append, List.length_singleton]
      · rw [SpscQueue.occupancy, fewer]
        omega
      · rw [SpscQueue.occupancy, fewer, List.length_append, List.length_singleton,
          ← (List.cons.inj contents).2, List.append_assoc, front]
        rfl
      · have less : q.enqueued.length - (q.dequeued ++ [item]).length ≤ q.occupancy := by
          rw [fewer]
          omega
        cases sending : q.producer with
        | idle => trivial
        | attempt action => trivial
        | sampledTail action t =>
            rw [sending] at producer
            exact producer
        | loadedTail action t =>
            rw [sending] at producer
            exact producer
        | write action t =>
            rw [sending] at producer
            exact ⟨producer.1, Nat.lt_of_le_of_lt less producer.2⟩
        | publish action t =>
            rw [sending] at producer
            exact ⟨producer.1, Nat.lt_of_le_of_lt less producer.2.1, producer.2.2⟩

end

theorem spsc_step_inv {T : Type} (k : Nat) (word : k < 64) (q : SpscQueue T)
    (inv : SpscInv (2 ^ k) q) (label : SpscLabel T) :
    ∃ next, q.step (2 ^ k) label = .ok next ∧ SpscInv (2 ^ k) next := by
  cases label with
  | send action =>
      have given := inv.given
      unfold SpscQueue.step
      cases state : q.producer with
      | idle =>
          rw [state] at given
          have more : q.sent ++ [action] = q.enqueued ++ [action] :=
            by rw [given, SendOrderPc.pending, List.append_nil]
          exact ⟨_, rfl, { inv with given := more, producer := rfl }⟩
      | sampledTail | attempt | loadedTail | write | publish => exact ⟨q, rfl, inv⟩
  | producer => exact spsc_producer_inv k word q inv
  | dequeue =>
      unfold SpscQueue.step
      cases state : q.consumer with
      | idle => exact ⟨_, rfl, { inv with consumer := rfl }⟩
      | loadedHead | read | publish => exact ⟨q, rfl, inv⟩
  | consumer => exact spsc_consumer_inv k word q inv

theorem spsc_run_inv {T : Type} (k : Nat) (word : k < 64) (entries : Nat → T)
    (labels : List (SpscLabel T)) (q : SpscQueue T)
    (run : SpscRun (2 ^ k) entries labels q) : SpscInv (2 ^ k) q := by
  refine run_invariant (SpscInv (2 ^ k)) ?_ ?_ labels q run
  · exact ⟨rfl, rfl, Nat.zero_le _, rfl, rfl, trivial, trivial, by simp [SpscQueue.init],
      by simp [SpscQueue.init], by simp [SpscQueue.init],
      fun _ => rfl⟩
  · rintro state label next inv ⟨_, step⟩
    obtain ⟨other, result, inv'⟩ := spsc_step_inv k word state inv label
    cases step.symm.trans result
    exact inv'

-- The queue between the strategy and the transmit thread, under any
-- interleaving of single loads and stores. Every action given to send_order
-- goes in once and comes out in order; all the cells can be used; a thread is
-- told "full" or "empty" only if that was so; the sizes noted are right until
-- the counters wrap; and the two threads are never at the same cell.
theorem order_queue_fifo {T : Type} (k : Nat) (word : k < 64) (entries : Nat → T)
    (labels : List (SpscLabel T)) (q : SpscQueue T)
    (run : SpscRun (2 ^ k) entries labels q) :
    q.sent = q.dequeued ++ ringContents (2 ^ k) q.entries q.dequeued.length q.occupancy ++
      q.producer.pending ∧ q.occupancy ≤ 2 ^ k ∧
      (∀ count ∈ q.foundFull, count = 2 ^ k) ∧ (∀ count ∈ q.foundEmpty, count = 0) ∧
      (q.sent.length < 2 ^ 64 → q.occupancies = q.sampled ∧ ∀ count ∈ q.occupancies, count ≤ 2 ^ k) ∧
      (∀ action t h, q.producer = .write action t → q.consumer = .read h →
        t &&& (2 ^ k - 1) ≠ h &&& (2 ^ k - 1)) ∧
      ∀ label, ∃ next, q.step (2 ^ k) label = .ok next := by
  have inv := spsc_run_inv k word entries labels q run
  have lengths := spsc_lengths k q inv
  refine ⟨inv.held ▸ inv.given, inv.room, inv.foundFull, inv.foundEmpty, fun few => ?_,
    fun action t h writing reading => ?_, fun label => ?_⟩
  · have fewer : q.enqueued.length < 2 ^ 64 := by
      rw [inv.given, List.length_append] at few
      omega
    have same := inv.occupancies fewer
    exact ⟨same, same ▸ inv.sampled⟩
  · have producer := inv.producer
    have consumer := inv.consumer
    rw [writing] at producer
    rw [reading] at consumer
    obtain ⟨tail, free⟩ := producer
    obtain ⟨head, some_⟩ := consumer
    rw [tail, inv.tail, head, inv.head, counter_index k word, counter_index k word, lengths]
    exact (ring_apart (2 ^ k) q.dequeued.length 0 q.occupancy some_ (by omega)).symm
  · obtain ⟨next, step, _⟩ := spsc_step_inv k word q inv label
    exact ⟨next, step⟩

def threeActions : List (SpscLabel Nat) :=
  let send (action : Nat) : List (SpscLabel Nat) := [.send action, .producer, .producer, .producer]
  send 7 ++ [.producer, .producer] ++ send 8 ++ [.producer, .producer] ++ send 9 ++
    [.dequeue, .consumer, .consumer, .consumer, .producer,
    .producer, .producer, .producer]

theorem third_action_waits :
    ∃ q, SpscRun (2 ^ 1) (fun _ => 0) threeActions q ∧ q.dequeued = [7] ∧
    q.occupancy = 2 ∧ q.foundFull = [2] ∧
    q.occupancies = [0, 1, 2] ∧ q.sent = [7] ++ ringContents 2 q.entries 1 2 ++ q.producer.pending := by
  have result : (execute (fun _ _ => True) (SpscQueue.step (2 ^ 1)) (.init fun _ => 0) threeActions).map
      (fun q => (q.dequeued, q.occupancy, q.foundFull, q.occupancies)) = some
        ([7], 2, [2], [0, 1, 2]) := by decide
  obtain ⟨q, found, facts⟩ := Option.map_eq_some_iff.mp result
  simp only [Prod.mk.injEq] at facts
  obtain ⟨dequeued, occupancy, full, occupancies⟩ := facts
  have run : SpscRun (2 ^ 1) (fun _ => 0) threeActions q := execute_run _ _ _ _ q found
  have fifo := (order_queue_fifo 1 (by decide) _ threeActions q run).1
  rw [dequeued, occupancy] at fifo
  exact ⟨q, run, dequeued, occupancy, full, occupancies, fifo⟩

end HftExchange
