import HftExchange.Base.Runs

set_option autoImplicit false

namespace HftExchange

open Base

-- The producer between two of its accesses. The occupancy that a control point
-- carries is history: how many items the queue held when head was loaded.
inductive PushPc (T : Type) where
  | idle
  | loadedTail (item : T) (t : Nat)
  | loadHead (item : T) (t : Nat)
  | loadedHead (item : T) (t occupancy : Nat)
  | write (item : T) (t : Nat)
  | publish (item : T) (t : Nat)

inductive PopPc (T : Type) where
  | idle
  | loadedHead (h : Nat)
  | loadTail (h : Nat)
  | loadedTail (h occupancy : Nat)
  | read (h : Nat)
  | publish (item : T) (h : Nat)

-- The members of the queue, its two threads, and the history of their calls:
-- the items of the pushes and pops that returned true, and the occupancy seen by
-- those that returned false.
structure LockFreeQueue (T : Type) where
  buffer : Nat → T
  head : Nat
  cachedTail : Nat
  tail : Nat
  cachedHead : Nat
  producer : PushPc T
  consumer : PopPc T
  pushed : List T
  popped : List T
  failedPushes : List Nat
  failedPops : List Nat

inductive QueueLabel (T : Type) where
  | push (item : T)
  | producer
  | pop
  | consumer

namespace LockFreeQueue

section
variable {T : Type}

def init (buffer : Nat → T) : LockFreeQueue T :=
  { buffer := buffer, head := 0, cachedTail := 0, tail := 0, cachedHead := 0, producer := .idle,
    consumer := .idle, pushed := [], popped := []
    failedPushes := [], failedPops := [] }

def occupancy (q : LockFreeQueue T) : Nat := q.pushed.length - q.popped.length

variable (capacity : Nat)

def nextIndex (index : Nat) : Nat := (index + 1) &&& (capacity - 1)

def producerStep (q : LockFreeQueue T) : Checked (LockFreeQueue T) :=
  match q.producer with
  | .idle => pure q
  | .loadedTail item t =>
      if nextIndex capacity t = q.cachedHead then pure { q with producer := .loadHead item t }
        else pure { q with producer := .write item t }
  | .loadHead item t => pure { q with cachedHead := q.head, producer := .loadedHead item t q.occupancy }
  | .loadedHead item t occupancy =>
      if nextIndex capacity t = q.cachedHead then
        pure { q with producer := .idle, failedPushes := q.failedPushes ++ [occupancy] }
      else pure { q with producer := .write item t }
  | .write item t =>
      do pure { q with buffer := (← store capacity q.buffer t item), producer := .publish item t }
  | .publish item t =>
      pure { q with tail := nextIndex capacity t, producer := .idle, pushed := q.pushed ++ [item] }

def consumerStep (q : LockFreeQueue T) : Checked (LockFreeQueue T) :=
  match q.consumer with
  | .idle => pure q
  | .loadedHead h => if h = q.cachedTail then pure { q with consumer := .loadTail h }
      else pure { q with consumer := .read h }
  | .loadTail h => pure { q with cachedTail := q.tail, consumer := .loadedTail h q.occupancy }
  | .loadedTail h occupancy =>
      if h = q.cachedTail then pure { q with consumer := .idle, failedPops := q.failedPops ++ [occupancy] }
      else pure { q with consumer := .read h }
  | .read h => do pure { q with consumer := .publish (← fetch capacity q.buffer h) h }
  | .publish item h =>
      pure { q with head := nextIndex capacity h, consumer := .idle, popped := q.popped ++ [item] }

-- A call begins with the load of its own index, once the thread's last call has
-- returned.
def step (q : LockFreeQueue T) : QueueLabel T → Checked (LockFreeQueue T)
  | .push item =>
      match q.producer with
      | .idle => pure { q with producer := .loadedTail item q.tail }
      | _ => pure q
  | .producer => q.producerStep capacity
  | .pop =>
      match q.consumer with
      | .idle => pure { q with consumer := .loadedHead q.head }
      | _ => pure q
  | .consumer => q.consumerStep capacity

end

end LockFreeQueue

def QueueRun {T : Type} (capacity : Nat) (buffer : Nat → T) : List (QueueLabel T) → LockFreeQueue T → Prop :=
  Run (.init buffer) (Guarded (fun _ _ => True) (LockFreeQueue.step capacity))

def PushAt {T : Type} (capacity : Nat) (q : LockFreeQueue T) (c : Nat) : PushPc T → Prop
  | .idle => True
  | .loadedTail _ t => t = q.tail
  | .loadHead _ t => t = q.tail
  | .loadedHead _ t occupancy => t = q.tail ∧ occupancy = q.pushed.length - c
  | .write _ t => t = q.tail ∧ q.pushed.length + 1 < c + capacity
  | .publish item t => t = q.tail ∧ q.pushed.length + 1 < c + capacity ∧ q.buffer t = item

def PopAt {T : Type} (q : LockFreeQueue T) (p : Nat) : PopPc T → Prop
  | .idle => True
  | .loadedHead h => h = q.head
  | .loadTail h => h = q.head
  | .loadedTail h occupancy => h = q.head ∧ occupancy = p - q.popped.length
  | .read h => h = q.head ∧ q.popped.length < p
  | .publish item h => h = q.head ∧ q.popped.length < p ∧ q.pushed[q.popped.length]? = some item

structure QueueInv {T : Type} (capacity : Nat) (q : LockFreeQueue T) (c p : Nat) : Prop where
  tail : q.tail = q.pushed.length % capacity
  head : q.head = q.popped.length % capacity
  cachedHead : q.cachedHead = c % capacity
  cachedTail : q.cachedTail = p % capacity
  seenPops : c ≤ q.popped.length
  room : q.pushed.length < c + capacity
  seenPushes : p ≤ q.pushed.length
  behind : q.popped.length ≤ p
  items : ∀ (i : Nat) (item : T), q.popped.length ≤ i → q.pushed[i]? = some item →
    q.buffer (i % capacity) = item
  order : q.popped <+: q.pushed
  producer : PushAt capacity q c q.producer
  consumer : PopAt q p q.consumer
  failedPushes : ∀ occupancy ∈ q.failedPushes, occupancy = capacity - 1
  failedPops : ∀ occupancy ∈ q.failedPops, occupancy = 0

theorem next_index_mod (k index : Nat) : LockFreeQueue.nextIndex (2 ^ k) index = (index + 1) % 2 ^ k :=
  Nat.and_two_pow_sub_one_eq_mod _ k

theorem same_lap (capacity first second : Nat) (low : first ≤ second) (high : second < first + capacity)
    (same : first % capacity = second % capacity) : first = second := by
  have positive : 0 < capacity := by omega
  have one := Nat.div_add_mod first capacity
  have two := Nat.div_add_mod second capacity
  have steps : first / capacity ≤ second / capacity := Nat.div_le_div_right low
  rcases Nat.lt_or_ge (first / capacity) (second / capacity) with less | equal
  · have lap := Nat.mul_le_mul_left capacity (Nat.succ_le_of_lt less)
    rw [Nat.mul_succ] at lap
    omega
  · rw [Nat.le_antisymm steps equal, same] at one
    omega

section
variable {T : Type} (k : Nat) (q : LockFreeQueue T) (c p : Nat) (inv : QueueInv (2 ^ k) q c p)

include inv

theorem full_iff (t : Nat) (own : t = q.tail) :
    LockFreeQueue.nextIndex (2 ^ k) t = q.cachedHead ↔ q.pushed.length + 1 = c + 2 ^ k := by
  have seen := inv.seenPops
  have between := inv.behind
  have published := inv.seenPushes
  have room := inv.room
  rw [next_index_mod, own, inv.tail, inv.cachedHead, Nat.mod_add_mod]
  constructor
  · intro same
    by_contra other
    have equal := same_lap (2 ^ k) c (q.pushed.length + 1) (by omega) (by omega) same.symm
    omega
  · intro lap
    rw [lap, Nat.add_mod_right]

theorem empty_iff (h : Nat) (own : h = q.head) : h = q.cachedTail ↔ q.popped.length = p := by
  have seen := inv.seenPops
  have published := inv.seenPushes
  have room := inv.room
  rw [own, inv.head, inv.cachedTail]
  constructor
  · intro same
    exact same_lap (2 ^ k) q.popped.length p inv.behind (by omega) same
  · intro equal
    rw [equal]

theorem producer_inv (positive : 1 ≤ k) :
    ∃ next, q.producerStep (2 ^ k) = .ok next ∧ ∃ c' p', QueueInv (2 ^ k) next c' p' := by
  have lap : 2 ≤ 2 ^ k := by
    rw [show 2 = 2 ^ 1 from rfl]
    exact Nat.pow_le_pow_right (by decide) positive
  have own := inv.producer
  unfold LockFreeQueue.producerStep
  cases state : q.producer with
  | idle => exact ⟨q, rfl, c, p, inv⟩
  | loadedTail item t =>
      rw [state] at own
      dsimp only
      split
      · exact ⟨_, rfl, c, p, { inv with producer := own }⟩
      · rename_i free
        rw [full_iff k q c p inv t own] at free
        have room := inv.room
        have more : q.pushed.length + 1 < c + 2 ^ k := by omega
        exact ⟨_, rfl, c, p, { inv with producer := ⟨own, more⟩ }⟩
  | loadHead item t =>
      rw [state] at own
      have seen := inv.seenPops
      have between := inv.behind
      have published := inv.seenPushes
      have room := inv.room
      have more : q.pushed.length < q.popped.length + 2 ^ k := by omega
      exact ⟨_, rfl, q.popped.length, p, { inv with
        cachedHead := inv.head
        seenPops := Nat.le_refl _
        room := more
        producer := ⟨own, rfl⟩ }⟩
  | loadedHead item t occupancy =>
      rw [state] at own
      obtain ⟨tail, seen⟩ := own
      dsimp only
      split
      · rename_i full
        rw [full_iff k q c p inv t tail] at full
        refine ⟨_, rfl, c, p, { inv with producer := trivial, failedPushes := fun other member => ?_ }⟩
        rcases List.mem_append.mp member with before | last
        · exact inv.failedPushes other before
        · rw [List.mem_singleton.mp last, seen]
          omega
      · rename_i free
        rw [full_iff k q c p inv t tail] at free
        have room := inv.room
        have more : q.pushed.length + 1 < c + 2 ^ k := by omega
        exact ⟨_, rfl, c, p, { inv with producer := ⟨tail, more⟩ }⟩
  | write item t =>
      rw [state] at own
      obtain ⟨tail, free⟩ := own
      have seen := inv.seenPops
      have bound : t < 2 ^ k := by
        rw [tail, inv.tail]
        exact Nat.mod_lt _ (by omega)
      dsimp only
      rw [store_ok _ _ _ _ bound]
      refine ⟨_, rfl, c, p, { inv with
        items := fun i other low found => ?_
        producer := ⟨tail, free, Function.update_self ..⟩ }⟩
      have early : i < q.pushed.length := (List.getElem?_eq_some_iff.mp found).1
      have apart : i % 2 ^ k ≠ t := by
        rw [tail, inv.tail]
        intro same
        have low : q.popped.length ≤ i := low
        have equal := same_lap (2 ^ k) i q.pushed.length (Nat.le_of_lt early) (by omega) same
        omega
      exact (Function.update_of_ne apart _ _).trans (inv.items i other low found)
  | publish item t =>
      rw [state] at own
      obtain ⟨tail, free, written⟩ := own
      have consumer := inv.consumer
      refine ⟨_, rfl, c, p, { inv with
        tail := ?_
        room := ?_
        seenPushes := ?_
        items := fun i other low found => ?_
        order := inv.order.trans (List.prefix_append _ _)
        producer := trivial
        consumer := ?_ }⟩
      · rw [next_index_mod, tail, inv.tail, Nat.mod_add_mod, List.length_append, List.length_singleton]
      · rw [List.length_append, List.length_singleton]
        exact free
      · exact Nat.le_trans inv.seenPushes (by simp)
      · by_cases early : i < q.pushed.length
        · rw [List.getElem?_append_left early] at found
          exact inv.items i other low found
        · rw [List.getElem?_append_right (Nat.le_of_not_lt early)] at found
          obtain ⟨last, same⟩ := List.getElem?_eq_some_iff.mp found
          rw [List.length_singleton] at last
          have here : i = q.pushed.length := by omega
          subst here
          simp only [Nat.sub_self, List.getElem_cons_zero] at same
          rw [← inv.tail, ← tail, ← same]
          exact written
      · cases popping : q.consumer with
        | publish other h =>
            rw [popping] at consumer
            obtain ⟨head, ahead, front⟩ := consumer
            exact ⟨head, ahead,
              by rw [List.getElem?_append_left (List.getElem?_eq_some_iff.mp front).1]; exact front⟩
        | idle | loadedHead | loadTail | loadedTail | read =>
            rw [popping] at consumer
            exact consumer

theorem consumer_inv : ∃ next, q.consumerStep (2 ^ k) = .ok next ∧ ∃ c' p', QueueInv (2 ^ k) next c' p' := by
  have positive : 0 < 2 ^ k := Nat.two_pow_pos k
  have own := inv.consumer
  unfold LockFreeQueue.consumerStep
  cases state : q.consumer with
  | idle => exact ⟨q, rfl, c, p, inv⟩
  | loadedHead h =>
      rw [state] at own
      dsimp only
      split
      · exact ⟨_, rfl, c, p, { inv with consumer := own }⟩
      · rename_i some
        rw [empty_iff k q c p inv h own] at some
        exact ⟨_, rfl, c, p, { inv with consumer := ⟨own, Nat.lt_of_le_of_ne inv.behind some⟩ }⟩
  | loadTail h =>
      rw [state] at own
      exact ⟨_, rfl, c, q.pushed.length, { inv with
        cachedTail := inv.tail
        seenPushes := Nat.le_refl _
        behind := Nat.le_trans inv.behind inv.seenPushes
        consumer := ⟨own, rfl⟩ }⟩
  | loadedTail h occupancy =>
      rw [state] at own
      obtain ⟨head, seen⟩ := own
      dsimp only
      split
      · rename_i empty
        rw [empty_iff k q c p inv h head] at empty
        refine ⟨_, rfl, c, p, { inv with consumer := trivial, failedPops := fun other member => ?_ }⟩
        rcases List.mem_append.mp member with before | last
        · exact inv.failedPops other before
        · rw [List.mem_singleton.mp last, seen, empty, Nat.sub_self]
      · rename_i some
        rw [empty_iff k q c p inv h head] at some
        exact ⟨_, rfl, c, p, { inv with consumer := ⟨head, Nat.lt_of_le_of_ne inv.behind some⟩ }⟩
  | read h =>
      rw [state] at own
      obtain ⟨head, ahead⟩ := own
      have bound : h < 2 ^ k := by
        rw [head, inv.head]
        exact Nat.mod_lt _ positive
      have early : q.popped.length < q.pushed.length := Nat.lt_of_lt_of_le ahead inv.seenPushes
      have front := List.getElem?_eq_getElem early
      have stored := inv.items _ _ (Nat.le_refl _) front
      rw [← inv.head, ← head] at stored
      dsimp only
      rw [fetch_ok _ _ _ bound]
      exact ⟨_, rfl, c, p, { inv with consumer := ⟨head, ahead, by rw [stored]; exact front⟩ }⟩
  | publish item h =>
      rw [state] at own
      obtain ⟨head, ahead, front⟩ := own
      have producer := inv.producer
      obtain ⟨early, same⟩ := List.getElem?_eq_some_iff.mp front
      refine ⟨_, rfl, c, p, { inv with
        head := ?_
        seenPops := Nat.le_trans inv.seenPops (by simp)
        behind := by rw [List.length_append, List.length_singleton]; exact ahead
        items := fun i other low found => ?_
        order := ?_
        producer := ?_
        consumer := trivial }⟩
      · rw [next_index_mod, head, inv.head, Nat.mod_add_mod, List.length_append, List.length_singleton]
      · rw [List.length_append, List.length_singleton] at low
        exact inv.items i other (by omega) found
      · obtain ⟨rest, whole⟩ := inv.order
        rw [← whole, List.getElem?_append_right (Nat.le_refl _), Nat.sub_self] at front
        cases rest with
        | nil => cases front
        | cons first rest =>
            cases front
            exact ⟨rest, by rw [List.append_assoc, List.singleton_append, whole]⟩
      · cases pushing : q.producer with
        | idle | loadedTail | loadHead | loadedHead | write | publish =>
            rw [pushing] at producer
            exact producer

theorem queue_step_inv (positive : 1 ≤ k) (label : QueueLabel T) :
    ∃ next, q.step (2 ^ k) label = .ok next ∧ ∃ c' p', QueueInv (2 ^ k) next c' p' := by
  cases label with
  | push item =>
      unfold LockFreeQueue.step
      cases state : q.producer with
      | idle => exact ⟨_, rfl, c, p, { inv with producer := rfl }⟩
      | loadedTail | loadHead | loadedHead | write | publish => exact ⟨q, rfl, c, p, inv⟩
  | producer => exact producer_inv k q c p inv positive
  | pop =>
      unfold LockFreeQueue.step
      cases state : q.consumer with
      | idle => exact ⟨_, rfl, c, p, { inv with consumer := rfl }⟩
      | loadedHead | loadTail | loadedTail | read | publish => exact ⟨q, rfl, c, p, inv⟩
  | consumer => exact consumer_inv k q c p inv

end

theorem queue_run_inv {T : Type} (k : Nat) (positive : 1 ≤ k) (buffer : Nat → T)
    (labels : List (QueueLabel T)) (q : LockFreeQueue T)
    (run : QueueRun (2 ^ k) buffer labels q) : ∃ c p, QueueInv (2 ^ k) q c p := by
  refine run_invariant (fun q => ∃ c p, QueueInv (2 ^ k) q c p) ⟨0, 0, ?_⟩ ?_ labels q run
  · have zero : 0 = 0 % 2 ^ k := (Nat.zero_mod _).symm
    exact ⟨zero, zero, zero, zero, Nat.le_refl 0, by simp [LockFreeQueue.init], Nat.le_refl 0, Nat.le_refl 0,
      fun i item _ found => by
        simp [LockFreeQueue.init] at found, List.prefix_rfl, trivial, trivial, by simp [LockFreeQueue.init],
      by simp [LockFreeQueue.init]⟩
  · rintro state label next ⟨c, p, inv⟩ ⟨_, step⟩
    obtain ⟨other, result, inv'⟩ := queue_step_inv k state c p inv positive label
    cases step.symm.trans result
    exact inv'

-- Both threads work with a copy of the other's index that may be old, and the
-- indices wrap. Yet what is popped is what was pushed, in order, and neither
-- thread is told "full" or "empty" unless that was so when it looked.
theorem lock_free_queue_fifo {T : Type} (k : Nat) (positive : 1 ≤ k) (buffer : Nat → T)
    (labels : List (QueueLabel T)) (q : LockFreeQueue T)
    (run : QueueRun (2 ^ k) buffer labels q) :
    q.popped <+: q.pushed ∧ (∀ h, q.consumer = .read h → q.pushed[q.popped.length]? = some (q.buffer h)) ∧
      q.pushed.length - q.popped.length ≤ 2 ^ k - 1 ∧
      (∀ occupancy ∈ q.failedPushes, occupancy = 2 ^ k - 1) ∧ (∀ occupancy ∈ q.failedPops, occupancy = 0) ∧
      ∀ label, ∃ next, q.step (2 ^ k) label = .ok next := by
  obtain ⟨c, p, inv⟩ := queue_run_inv k positive buffer labels q run
  have seen := inv.seenPops
  have between := inv.behind
  have published := inv.seenPushes
  have room := inv.room
  refine ⟨inv.order, fun h reading => ?_, by omega, inv.failedPushes, inv.failedPops, fun label => ?_⟩
  · have own := inv.consumer
    rw [reading] at own
    obtain ⟨head, ahead⟩ := own
    have front := List.getElem?_eq_getElem (Nat.lt_of_lt_of_le ahead inv.seenPushes)
    rw [front, head, inv.head, inv.items _ _ (Nat.le_refl _) front]
  · obtain ⟨next, step, _⟩ := queue_step_inv k q c p inv positive label
    exact ⟨next, step⟩

def twoSlots : List (QueueLabel Nat) :=
  [.push 7, .producer, .producer, .producer, .push 8, .producer, .producer, .producer, .pop,
    .consumer, .consumer, .consumer, .consumer,
    .consumer, .pop, .consumer, .consumer, .consumer]

theorem two_slot_queue_fifo :
    ∃ q, QueueRun (2 ^ 1) (fun _ => 0) twoSlots q ∧ q.pushed = [7] ∧
    q.popped = [7] ∧ q.failedPushes = [1] ∧
    q.failedPops = [0] ∧ q.popped <+: q.pushed := by
  have result : (execute (fun _ _ => True) (LockFreeQueue.step (2 ^ 1)) (.init fun _ => 0) twoSlots).map
      (fun q => (q.pushed, q.popped, q.failedPushes, q.failedPops)) = some ([7], [7], [1], [0]) := by decide
  obtain ⟨q, found, facts⟩ := Option.map_eq_some_iff.mp result
  simp only [Prod.mk.injEq] at facts
  have run : QueueRun (2 ^ 1) (fun _ => 0) twoSlots q := execute_run _ _ _ _ q found
  exact ⟨q, run, facts.1, facts.2.1, facts.2.2.1, facts.2.2.2,
    (lock_free_queue_fifo 1 (by decide) _ twoSlots q run).1⟩

end HftExchange
