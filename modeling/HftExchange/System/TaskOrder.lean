import HftExchange.Engine.TaskOrder
import HftExchange.System.Invariant

set_option autoImplicit false

namespace HftExchange

open Base

def Pending (lane : Lane) (task : EngineTask) : Prop := ∃ worker conn, ⟨task, conn⟩ ∈ lane.queues worker

-- The tasks in the order in which the loop over the queues takes them. A
-- queue that is empty is passed over.
def served : (Nat → List Entry) → List Nat → List EngineTask
  | _, [] => []
  | queues, worker :: picks =>
      match queues worker with
      | [] => served queues picks
      | entry :: rest => entry.task :: served (Function.update queues worker rest) picks

def ownTasks (memory : Slot → Order) (inst : Nat) (tasks : List EngineTask) : List EngineTask :=
  tasks.filter fun task => task.home memory = inst

structure SameShard (shard other : Shard) : Prop where
  books : other.books = shard.books
  ordersById : other.shared.ordersById = shard.shared.ordersById
  heap : other.shared.heap = shard.shared.heap

def EitherOrder (shard : Shard) (task task' : EngineTask) : Prop :=
  ∃ final final' events events', runTasks shard [task, task'] = .ok final ∧
    runTasks shard [task', task] = .ok final' ∧
    SameShard final final' ∧
    final.shared.out = shard.shared.out ++ events.flatMap Event.outputs ∧
    final'.shared.out = shard.shared.out ++ events'.flatMap Event.outputs ∧
    (releases (events.flatMap Event.outputs)).Perm (releases (events'.flatMap Event.outputs)) ∧
    ∀ inst, SameStreams shard.shared.order inst events events'

def SameFor (shard : Shard) (inst : Nat) (tasks tasks' : List EngineTask) : Prop :=
  ∃ final final' events events', runTasks shard tasks = .ok final ∧ runTasks shard tasks' = .ok final' ∧
    final'.books inst = final.books inst ∧
    final.shared.out = shard.shared.out ++ events.flatMap Event.outputs ∧
    final'.shared.out = shard.shared.out ++ events'.flatMap Event.outputs ∧
    onInstrument inst events = onInstrument inst events' ∧ SameStreams shard.shared.order inst events events'

section
variable (memory : Slot → Order) (shard : Shard) (books : Nat → Resting) (tasks tasks' : List EngineTask)
  (ready : Ready memory shard books tasks) (ready' : Ready memory shard books tasks') (inst : Nat)
  (same : ownTasks memory inst tasks = ownTasks memory inst tasks')
include ready ready' same

theorem own_tasks_events :
    onInstrument inst (referenceTasks memory books tasks).2 = onInstrument inst
    (referenceTasks memory books tasks').2 := by
  rw [← (reference_projection memory inst shard books books tasks ready rfl).2,
    ← (reference_projection memory inst shard books books tasks' ready' rfl).2]
  exact congrArg (fun own => (referenceTasks memory books own).2) same

theorem own_tasks_agree (final final' : Shard) (run : runTasks shard tasks = .ok final)
    (run' : runTasks shard tasks' = .ok final') :
    Agree memory inst final final' := by
  have own := ready_filter memory shard books tasks (fun task => task.home memory = inst) ready
  have own' := ready_filter memory shard books tasks' (fun task => task.home memory = inst) ready'
  obtain ⟨middle, project, _⟩ := run_refines memory shard books _ own
  have project' : runTasks shard (ownTasks memory inst tasks') = .ok middle := same ▸ project
  have first := run_projection memory inst shard shard books books tasks ready own rfl
    (agree_self memory inst shard) final middle run project
  have second := run_projection memory inst shard shard books books tasks' ready' own' rfl
    (agree_self memory inst shard) final' middle run' project'
  exact agree_trans memory inst final middle final' first (agree_symm memory inst final' middle second)

end

theorem agree_everywhere (memory : Slot → Order) (shard other : Shard)
    (agree : ∀ inst, Agree memory inst shard other) : SameShard shard other where
  books := funext fun inst => (agree inst).book
  ordersById := funext fun slot => (agree _).cells.byId slot rfl
  heap := by
    have order : other.shared.heap.order = shard.shared.heap.order := funext fun slot =>
      (agree _).cells.order slot rfl
    have next : other.shared.heap.links.next = shard.shared.heap.links.next := funext fun slot =>
      (agree _).cells.next slot rfl
    have prev : other.shared.heap.links.prev = shard.shared.heap.links.prev := funext fun slot =>
      (agree _).cells.prev slot rfl
    generalize other.shared.heap = theirs at order next prev
    generalize shard.shared.heap = ours at order next prev
    obtain ⟨order', next', prev'⟩ := theirs
    obtain ⟨order'', next'', prev''⟩ := ours
    simp_all

-- A cancel that finds nothing finds nothing after a task of another slot.
theorem stale_after (shard next : Shard) (books books' : Nat → Resting) (task : EngineTask)
    (inst idx token : Nat) (events : List Event)
    (effect : TaskEffect shard next books books' task inst events) (bound : idx < maxOrdersLookup)
    (apart : idx ≠ task.slot)
    (stale : ∀ inst, ∀ r ∈ books inst, r.internalId = idx → r.clientOrderId ≠ token) :
    processTask next (.cancel idx token) = .ok next := by
  rcases cancel_effect next books' effect.rep idx token bound
    with ⟨r, same, named, inside, _⟩ | ⟨_, result, _⟩
  · have kept : ∀ r ∈ books' inst, r.internalId = idx → r.clientOrderId ≠ token :=
      (effect.orders (fun r => r.internalId = idx → r.clientOrderId ≠ token) (fun _ _ h => h) (stale inst)
        (fun here => absurd (here.symm.trans effect.self.1) apart)).1
    by_cases here : r.instrumentId = inst
    · exact absurd named (kept r (here ▸ inside) same)
    · exact absurd named (stale r.instrumentId r (effect.elsewhere _ here ▸ inside) same)
  · exact result

theorem either_order_symm (shard : Shard) (task task' : EngineTask)
    (either : EitherOrder shard task task') : EitherOrder shard task' task := by
  obtain ⟨final, final', events, events', run, run', same, out, out', released, streams⟩ := either
  exact ⟨final', final, events', events, run', run,
    ⟨same.books.symm, same.ordersById.symm, same.heap.symm⟩, out', out, released.symm,
    fun inst => ⟨(streams inst).itch.symm, (streams inst).dropCopies.symm, fun slot own =>
      ((streams inst).acks slot own).symm⟩⟩

section
variable (shard : Shard) (books : Nat → Resting) (task task' : EngineTask)
  (ready : Ready shard.shared.order shard books [task, task'])
  (apart : task.slot ≠ task'.slot)
include ready

theorem ready_swap : Ready shard.shared.order shard books [task', task] where
  rep := ready.rep
  awaits other member := ready.awaits other (by simpa [or_comm] using member)
  distinct := ((List.Perm.swap task' task []).filterMap _).nodup_iff.mp ready.distinct
  live := ready.live
  carried o member := ready.carried o (by simpa [or_comm] using member)

include apart

theorem stale_either_order (none_ : task.target shard = none) : EitherOrder shard task task' := by
  rcases task_effect shard books ready.rep task (ready.awaits task (by simp))
    with ⟨_, _, _, _, found, _⟩ | ⟨idx, token, rfl, _, result, stale⟩
  · cases none_.symm.trans found
  · obtain ⟨final, run, _, _, out, _⟩ := run_refines _ shard books [task']
      (ready_tail _ shard books _ _ ready)
    have bound : idx < maxOrdersLookup := ready.awaits (.cancel idx token) (by simp)
    have first : processTask shard task' = .ok final := by
      cases taken : processTask shard task' with
      | ok next => rwa [run_tasks_cons shard next task' [] taken] at run
      | error fault => simp [runTasks, taken] at run
    have again : processTask final (.cancel idx token) = .ok final := by
      rcases task_effect shard books ready.rep task' (ready.awaits task' (by simp))
        with ⟨inst, _, books', events, _, done, effect⟩ | ⟨_, _, _, _, done, _⟩
      · cases first.symm.trans done
        exact stale_after shard final books books' task' inst idx token events effect bound apart stale
      · cases first.symm.trans done
        exact result
    refine ⟨final, final, _, _, (run_tasks_cons shard shard _ [task'] result).trans run, ?_,
      ⟨rfl, rfl, rfl⟩, out, out, .refl _,
      fun inst => ⟨rfl, rfl, fun _ _ => rfl⟩⟩
    rw [run_tasks_cons shard final task' _ first, run_tasks_cons final final _ [] again]
    rfl

theorem either_order (different : ∀ inst, task.target shard = some inst →
    task'.target shard ≠ some inst) : EitherOrder shard task task' := by
  have swapped := ready_swap shard books task task' ready
  cases target : task.target shard with
  | none => exact stale_either_order shard books task task' ready apart target
  | some i =>
      cases target' : task'.target shard with
      | none =>
          exact either_order_symm shard task' task
            (stale_either_order shard books task' task swapped apart.symm target')
      | some j =>
          have home := target_home _ shard books task _ ready i target
          have home' := target_home _ shard books task' _ swapped j target'
          have other : i ≠ j := fun same => different i target (same ▸ target')
          have own (inst : Nat) : ownTasks shard.shared.order inst [task, task'] =
              ownTasks shard.shared.order inst [task', task] := by
            simp only [ownTasks, List.filter_cons, List.filter_nil, home, home', decide_eq_true_eq]
            by_cases first : i = inst <;> by_cases second : j = inst
            · exact absurd (first.trans second.symm) other
            all_goals simp [first, second]
          obtain ⟨final, run, _, _, out, homed⟩ := run_refines _ shard books _ ready
          obtain ⟨final', run', _, _, out', homed'⟩ := run_refines _ shard books _ swapped
          have events (inst : Nat) := own_tasks_events _ shard books _ _ ready swapped inst (own inst)
          exact ⟨final, final', _, _, run, run', agree_everywhere _ final final' fun inst =>
            own_tasks_agree _ shard books _ _ ready swapped inst (own inst) final final' run run',
              out, out', same_releases _ _ events,
            fun inst => same_streams _ inst _ _ homed homed' (events inst)⟩

end

theorem same_for (shard : Shard) (books : Nat → Resting) (tasks tasks' : List EngineTask)
    (ready : Ready shard.shared.order shard books tasks)
    (ready' : Ready shard.shared.order shard books tasks') (inst : Nat)
    (same : ownTasks shard.shared.order inst tasks = ownTasks shard.shared.order inst tasks') :
    SameFor shard inst tasks tasks' := by
  obtain ⟨final, run, _, _, out, homed⟩ := run_refines _ shard books tasks ready
  obtain ⟨final', run', _, _, out', homed'⟩ := run_refines _ shard books tasks' ready'
  have events := own_tasks_events _ shard books tasks tasks' ready ready' inst same
  exact ⟨final, final', _, _, run, run',
    (own_tasks_agree _ shard books tasks tasks' ready ready' inst same final final' run run').book,
    out, out',
    events, same_streams _ inst _ _ homed homed' events⟩

section
variable (workers sh : Nat) (one : 1 ≤ workers) (sixteen : workers ≤ 16)
  (held : Nat → Option Order) (lane : Lane)
  (inv : LaneInv workers sh held lane)
include one sixteen inv

theorem pending_awaits (task : EngineTask) (pending : Pending lane task) : Awaits lane.shard task := by
  obtain ⟨worker, conn, member⟩ := pending
  cases task with
  | new o =>
      have queued : o ∈ newSlots (lane.queues worker) := List.mem_filterMap.mpr ⟨_, member, rfl⟩
      obtain ⟨self, _, known, routed⟩ := inv.queued worker o queued
      have count := queued_count workers sh held lane inv worker o queued
      have bound := tally_le_one workers sh held lane inv o
      have usable := tally_usable workers sh held lane inv o (by rw [Lane.tally]; omega)
      refine ⟨usable.1, usable_bound workers o one sixteen usable, self, ?_, known, inv.sameId ▸ routed⟩
      rw [Lane.tally] at bound
      have absent : liveCount lane.shard o = 0 := by omega
      by_contra present
      simp [liveCount, present] at absent
  | cancel idx token => exact usable_bound workers idx one sixteen (inv.cancels worker idx token conn member)

theorem pending_ready (idle : lane.engine = .idle) :
    ∃ books, ∀ tasks, (∀ task ∈ tasks, Pending lane task) →
    (tasks.filterMap EngineTask.carried).Nodup → Ready lane.shard.shared.order lane.shard books tasks := by
  obtain ⟨books, rep⟩ := inv.rep
  rw [idle] at rep
  cases rep with
  | idle rep =>
      refine ⟨books, fun tasks pending distinct =>
        ⟨rep, fun task member => pending_awaits workers sh one sixteen held lane inv task
        (pending task member), distinct, fun inst r inside => ?_, fun _ _ => rfl⟩⟩
      rw [show lane.shard.shared.order r.internalId = r from (rep.each inst).stored r inside]
      exact (rep.placed inst r inside).1

end

theorem served_member (queues : Nat → List Entry) (picks : List Nat) (task : EngineTask)
    (taken : task ∈ served queues picks) :
    ∃ worker conn, ⟨task, conn⟩ ∈ queues worker := by
  induction picks generalizing queues with
  | nil => cases taken
  | cons worker picks ih =>
      rw [served] at taken
      split at taken
      · exact ih queues taken
      · rename_i entry rest front
        rcases List.mem_cons.mp taken with rfl | later
        · exact ⟨worker, entry.sender, by simp [front]⟩
        · obtain ⟨other, conn, member⟩ := ih _ later
          refine ⟨other, conn, ?_⟩
          by_cases here : other = worker
          · subst here
            rw [Function.update_self] at member
            exact front ▸ List.mem_cons_of_mem _ member
          · rwa [Function.update_of_ne here] at member

theorem served_count (queues : Nat → List Entry) (picks : List Nat) (home : Nat) (slot : Slot)
    (only : ∀ worker, slot ∈ newSlots (queues worker) → worker = home) :
    ((served queues picks).filterMap EngineTask.carried).count slot ≤
    (newSlots (queues home)).count slot := by
  induction picks generalizing queues with
  | nil => simp [served]
  | cons worker picks ih =>
      rw [served]
      split
      · exact ih queues only
      · rename_i entry rest front
        have slots : newSlots (queues worker) = (newSlot entry).toList ++ newSlots rest := by
          rw [front, newSlots, List.filterMap_cons]
          cases newSlot entry <;> rfl
        have later := ih (Function.update queues worker rest) fun other member => by
          by_cases here : other = worker
          · subst here
            rw [Function.update_self] at member
            exact only other (slots ▸ List.mem_append_right _ member)
          · rw [Function.update_of_ne here] at member
            exact only other member
        have carried : entry.task.carried = newSlot entry := by
          obtain ⟨task, conn⟩ := entry
          cases task <;> rfl
        have taken : ((entry.task :: served (Function.update queues worker rest) picks).filterMap
          EngineTask.carried).count slot =
            (newSlot entry).toList.count
              slot + ((served (Function.update queues worker rest) picks).filterMap
              EngineTask.carried).count slot := by
          rw [List.filterMap_cons, carried, ← List.count_append]
          cases newSlot entry <;> rfl
        rw [taken]
        by_cases here : worker = home
        · subst here
          rw [Function.update_self] at later
          rw [slots, List.count_append]
          omega
        · rw [Function.update_of_ne (Ne.symm here)] at later
          have absent : (newSlot entry).toList.count slot = 0 := by
            refine List.count_eq_zero.mpr fun member => here (only worker ?_)
            rw [slots]
            exact List.mem_append_left _ member
          omega

theorem served_distinct (workers sh : Nat) (held : Nat → Option Order) (lane : Lane)
    (inv : LaneInv workers sh held lane) (picks : List Nat) :
    ((served lane.queues picks).filterMap EngineTask.carried).Nodup := by
  rw [List.nodup_iff_count_le_one]
  intro slot
  have bound := tally_le_one workers sh held lane inv slot
  have count := served_count lane.queues picks (slot / lane.pool.sliceCapacity) slot fun worker member => by
    rw [inv.slices.1]
    exact (inv.queued worker slot member).home.symm
  rw [Lane.tally] at bound
  omega

theorem tasks_commute (workers : Nat) (one : 1 ≤ workers) (sixteen : workers ≤ 16)
    (labels : List Label) (s : Exchange)
    (run : ExchangeRun workers labels s) (sh : Nat) (idle : (s.lanes sh).engine = .idle) :
    (∀ task task', Pending (s.lanes sh) task → Pending (s.lanes sh) task' → task.slot ≠ task'.slot →
      (∀ inst, task.target (s.lanes sh).shard = some inst → task'.target (s.lanes sh).shard ≠ some inst) →
      EitherOrder (s.lanes sh).shard task task') ∧
    ∀ inst picks picks', ownTasks (s.lanes sh).shard.shared.order inst (served (s.lanes sh).queues picks) =
        ownTasks (s.lanes sh).shard.shared.order inst (served (s.lanes sh).queues picks') →
      SameFor (s.lanes sh).shard inst (served (s.lanes sh).queues picks)
      (served (s.lanes sh).queues picks') := by
  have inv := (exchange_run_inv workers one sixteen labels s run).lanes sh
  obtain ⟨books, ready⟩ := pending_ready workers sh one sixteen _ _ inv idle
  constructor
  · intro task task' pending pending' apart different
    refine either_order _ books task task' (ready _ (fun other member => ?_) ?_) apart different
    · rcases List.mem_pair.mp member with rfl | rfl
      · exact pending
      · exact pending'
    · rcases task with o | ⟨idx, token⟩ <;> rcases task' with p | ⟨idx', token'⟩
      · exact List.nodup_cons.mpr ⟨fun same => apart (List.mem_singleton.mp same), List.nodup_singleton p⟩
      · exact List.nodup_singleton o
      · exact List.nodup_singleton p
      · exact List.nodup_nil
  · intro inst picks picks' same
    have entries (picks : List Nat) := ready (served (s.lanes sh).queues picks)
      (fun task member => served_member _ picks task member) (served_distinct workers sh _ _ inv picks)
    exact same_for _ books _ _ (entries picks) (entries picks') inst same

def twoQueued : List Label :=
  [.accept 0, .accept 1, .enter 0 (enterFrame 5 'B' 10 3 100), .record 0, .push 0,
    .enter 1 (enterFrame 6 'S' 10 7 100), .record 1, .push 1]

theorem two_queued_commute :
    ∃ s, ExchangeRun 2 twoQueued s ∧ EitherOrder (s.lanes 3).shard (.new 1) (.new 250000) ∧
    SameFor (s.lanes 3).shard 3 [.new 1, .new 250000] [.new 250000, .new 1] := by
  have shape : (execute (fun _ _ => True) (exchangeStep 2) (.init 2) twoQueued).map (fun s =>
      ((s.lanes 3).engine, (s.lanes 3).queues 0, (s.lanes 3).queues 1,
        ((s.lanes 3).shard.shared.order 1).instrumentId,
        ((s.lanes 3).shard.shared.order 250000).instrumentId)) =
      some (.idle, [⟨.new 1, 0⟩], [⟨.new 250000, 1⟩], 3, 7) := by decide +kernel
  obtain ⟨s, result, shape⟩ := Option.map_eq_some_iff.mp shape
  simp only [Prod.mk.injEq] at shape
  obtain ⟨idle, first, second, three, seven⟩ := shape
  have run : ExchangeRun 2 twoQueued s := execute_run _ _ twoQueued _ s result
  obtain ⟨either, own⟩ := tasks_commute 2 (by decide) (by decide) twoQueued s run 3 idle
  have forward : served (s.lanes 3).queues [0, 1] = [.new 1, .new 250000] := by simp [served, first, second]
  have backward : served (s.lanes 3).queues [1, 0] = [.new 250000, .new 1] := by simp [served, first, second]
  refine ⟨s, run, either _ _ ⟨0, 0, by simp [first]⟩ ⟨1, 1, by simp [second]⟩ (by decide) ?_, ?_⟩
  · simp [EngineTask.target, three, seven]
  · rw [← forward, ← backward]
    refine own 3 [0, 1] [1, 0] ?_
    rw [forward, backward]
    simp [ownTasks, EngineTask.home, EngineTask.slot, three, seven]

end HftExchange
