import HftExchange.Engine.Streams

set_option autoImplicit false

namespace HftExchange

open Base

def runTasks (shard : Shard) (tasks : List EngineTask) : Checked Shard := tasks.foldlM processTask shard

theorem run_tasks_cons (shard next : Shard) (task : EngineTask) (tasks : List EngineTask)
    (first : processTask shard task = .ok next) :
    runTasks shard (task :: tasks) = runTasks next tasks := by
  rw [runTasks, List.foldlM_cons, first]
  rfl

def EngineTask.home (memory : Slot → Order) (task : EngineTask) : Nat := (memory task.slot).instrumentId

def EngineTask.carried : EngineTask → Option Slot
  | .new o => some o
  | .cancel _ _ => none

-- The reference books under a list of tasks. The memory is that of the start:
-- matching changes quantities only, and no order on its way is touched.
def referenceTasks (memory : Slot → Order) : (Nat → Resting) → List EngineTask → (Nat → Resting) × List Event
  | books, [] => (books, [])
  | books, task :: tasks =>
      let inst := task.home memory
      let one := referenceTask (books inst) (memory task.slot) task
      let rest := referenceTasks memory (Function.update books inst one.1) tasks
      (rest.1, one.2 ++ rest.2)

structure Ready (memory : Slot → Order) (shard : Shard) (books : Nat → Resting)
    (tasks : List EngineTask) : Prop where
  rep : ShardRep shard books allQuiet
  awaits : ∀ task ∈ tasks, Awaits shard task
  distinct : (tasks.filterMap EngineTask.carried).Nodup
  live : ∀ inst, ∀ r ∈ books inst, (memory r.internalId).instrumentId = inst
  carried : ∀ o, .new o ∈ tasks → shard.shared.order o = memory o

structure StaysHome (memory : Slot → Order) (inst : Nat) (shard next : Shard)
    (events : List Event) : Prop where
  id : next.id = shard.id
  books : ∀ other, other ≠ inst → next.books other = shard.books other
  cells : Twin (fun slot => (memory slot).instrumentId ≠ inst) shard.shared.out next.shared.out
    shard.shared next.shared
  out : next.shared.out = shard.shared.out ++ events.flatMap Event.outputs
  homed : ∀ e ∈ events, e.instrument = inst ∧ Homed memory e

theorem twin_self (slots : Slot → Prop) (a : Shared) : Twin slots a.out a.out a a :=
  ⟨fun _ _ => rfl, fun _ _ => rfl, fun _ _ => rfl, fun _ _ => rfl, [], by simp, by simp⟩

theorem twin_glue (slots reached : Slot → Prop) (base base' : List Output)
    (before before' after after' : Shared)
    (both : Twin slots before.out before'.out before before')
    (left : Twin (fun slot => ¬ reached slot) before.out after.out before after)
    (right : Twin (fun slot => ¬ reached slot) before'.out after'.out before' after')
    (inner : Twin reached base base' after after') :
    Twin slots after.out after'.out after after' where
  order slot here := by
    by_cases inside : reached slot
    · exact inner.order slot inside
    · rw [right.order slot inside, left.order slot inside, both.order slot here]
  next slot here := by
    by_cases inside : reached slot
    · exact inner.next slot inside
    · rw [right.next slot inside, left.next slot inside, both.next slot here]
  prev slot here := by
    by_cases inside : reached slot
    · exact inner.prev slot inside
    · rw [right.prev slot inside, left.prev slot inside, both.prev slot here]
  byId slot here := by
    by_cases inside : reached slot
    · exact inner.byId slot inside
    · rw [right.byId slot inside, left.byId slot inside, both.byId slot here]
  out := ⟨[], by simp, by simp⟩

theorem ready_filter (memory : Slot → Order) (shard : Shard) (books : Nat → Resting)
    (tasks : List EngineTask) (keep : EngineTask → Bool)
    (ready : Ready memory shard books tasks) : Ready memory shard books (tasks.filter keep) where
  rep := ready.rep
  awaits task member := ready.awaits task (List.mem_of_mem_filter member)
  distinct := ready.distinct.sublist (List.filter_sublist.filterMap _)
  live := ready.live
  carried o member := ready.carried o (List.mem_of_mem_filter member)

section
variable (memory : Slot → Order) (shard : Shard) (books : Nat → Resting) (task : EngineTask)
  (tasks : List EngineTask)
  (ready : Ready memory shard books (task :: tasks))
include ready

theorem ready_tail : Ready memory shard books tasks where
  rep := ready.rep
  awaits other member := ready.awaits other (List.mem_cons_of_mem _ member)
  distinct := ready.distinct.sublist ((List.sublist_cons_self task tasks).filterMap _)
  live := ready.live
  carried o member := ready.carried o (List.mem_cons_of_mem _ member)

theorem effect_step (next : Shard) (books' : Nat → Resting) (inst : Nat) (events : List Event)
    (effect : TaskEffect shard next books books' task inst events) (home : task.home memory = inst)
    (fresh : ∀ o, .new o ∈ tasks → o ≠ task.slot) :
    Ready memory next books' tasks ∧ StaysHome memory inst shard next events := by
  have kept (slot : Slot) (unused : slot ∉ ids (books inst)) (other : slot ≠ task.slot) :
      next.shared.order slot = shard.shared.order slot :=
    (effect.frame slot unused other).1
  have waits (o : Slot) (member : .new o ∈ tasks) : o ∉ ids (books inst) ∧ o ≠ task.slot := by
    obtain ⟨_, _, _, unused, _⟩ := ready.awaits (.new o) (List.mem_cons_of_mem _ member)
    exact ⟨shard_unindexed shard books allQuiet ready.rep o unused inst, fresh o member⟩
  refine ⟨⟨effect.rep, fun other member => ?_,
    (ready_tail memory shard books task tasks ready).distinct, fun place r inside => ?_,
    fun o member => ?_⟩, effect.id, fun other apart => ?_, ?_, effect.out, fun e told =>
      event_homed memory inst e ?_⟩
  · have before := ready.awaits other (List.mem_cons_of_mem _ member)
    cases other with
    | new o =>
        obtain ⟨unused, apart⟩ := waits o member
        have index := effect_index shard books ready.rep next books' task inst events effect o unused apart
        simp only [Awaits, kept o unused apart, index, effect.id]
        exact before
    | cancel idx token => exact before
  · by_cases here : place = inst
    · subst here
      exact (effect.orders (fun r => (memory r.internalId).instrumentId = place) (fun _ _ h => h)
        (ready.live place)
        (by rw [effect.self.1]; exact home)).1 r inside
    · exact ready.live place r (effect.elsewhere place here ▸ inside)
  · obtain ⟨unused, apart⟩ := waits o member
    exact (kept o unused apart).trans (ready.carried o (List.mem_cons_of_mem _ member))
  · rw [effect.book, Function.update_of_ne apart]
  · refine effect_leaves_twin shard books ready.rep next books' task inst events effect _
      fun slot away => ⟨fun member => ?_, fun same => ?_⟩
    · obtain ⟨r, inside, rfl⟩ := List.mem_map.mp member
      exact away (ready.live inst r inside)
    · exact away (same ▸ home)
  · refine (effect.orders (fun r => r.instrumentId = inst ∧ (memory r.internalId).instrumentId =
      inst) (fun _ _ h => h)
      (fun r inside => ⟨(ready.rep.placed inst r inside).1, ready.live inst r inside⟩)
        ⟨effect.self.2, ?_⟩).2 e told
    rw [effect.self.1]
    exact home

theorem ready_step :
    ∃ next, processTask shard task = .ok next ∧
    Ready memory next (Function.update books (task.home memory)
      (referenceTask (books (task.home memory)) (memory task.slot) task).1) tasks ∧
    StaysHome memory (task.home memory) shard next
    (referenceTask (books (task.home memory)) (memory task.slot) task).2 := by
  have affected (inst : Nat) (next : Shard) (books' : Nat → Resting) (events : List Event)
    (result : processTask shard task = .ok next)
      (effect : TaskEffect shard next books books' task inst events) (home : task.home memory = inst)
      (fresh : ∀ o, .new o ∈ tasks → o ≠ task.slot)
      (same : referenceTask (books inst) (memory task.slot) task = referenceTask (books inst)
        (shard.shared.order task.slot) task) :
      ∃ next, processTask shard task = .ok next ∧
        Ready memory next (Function.update books (task.home memory)
          (referenceTask (books (task.home memory)) (memory task.slot) task).1) tasks ∧
        StaysHome memory (task.home memory) shard next
          (referenceTask (books (task.home memory)) (memory task.slot) task).2 := by
    obtain ⟨rest, stays⟩ := effect_step memory shard books task tasks ready next books' inst events
      effect home fresh
    have updated : Function.update books inst (books' inst) = books' := by
      funext other
      by_cases here : other = inst
      · rw [here, Function.update_self]
      · rw [Function.update_of_ne here, effect.elsewhere other here]
    rw [home, same, effect.reference, updated]
    exact ⟨next, result, rest, stays⟩
  cases task with
  | new o =>
      obtain ⟨next, books', events, result, effect⟩ := new_effect shard books ready.rep o
        (ready.awaits _ List.mem_cons_self)
      have stored : shard.shared.order o = memory o := ready.carried o List.mem_cons_self
      refine affected _ next books' events result effect (congrArg Order.instrumentId stored.symm)
        (fun p member same => ?_) ?_
      · subst same
        exact (List.nodup_cons.mp ready.distinct).1 (List.mem_filterMap.mpr ⟨_, member, rfl⟩)
      · rw [show shard.shared.order (EngineTask.slot (.new o)) = memory o from stored]
        rfl
  | cancel idx token =>
      rcases cancel_effect shard books ready.rep idx token (ready.awaits _ List.mem_cons_self) with
        ⟨r, rfl, _, inside, _, next, books', events, result, effect⟩ | ⟨_, result, stale⟩
      · refine affected _ next books' events result effect (ready.live _ r inside)
          (fun o member same => ?_) rfl
        obtain ⟨_, _, _, unused, _⟩ := ready.awaits (.new o) (List.mem_cons_of_mem _ member)
        subst same
        exact shard_unindexed shard books allQuiet ready.rep _ unused _ (List.mem_map_of_mem inside)
      · -- nothing to take out: the shard stays as it is
        have nothing : referenceTask (books (EngineTask.home memory (.cancel idx token)))
          (memory idx) (.cancel idx token) =
            (books (EngineTask.home memory (.cancel idx token)), []) :=
          if_neg fun ⟨r, inside, same, named⟩ => stale _ r inside same named
        rw [show EngineTask.slot (.cancel idx token) = idx from rfl, nothing, Function.update_eq_self]
        exact ⟨shard, result, ready_tail memory shard books _ tasks ready, rfl, fun _ _ => rfl,
          twin_self _ _, by simp, by simp⟩

end

theorem run_refines (memory : Slot → Order) (shard : Shard) (books : Nat → Resting) (tasks : List EngineTask)
    (ready : Ready memory shard books tasks) :
    ∃ final, runTasks shard tasks = .ok final ∧ final.id = shard.id ∧
      ShardRep final (referenceTasks memory books tasks).1 allQuiet ∧
      final.shared.out = shard.shared.out ++ (referenceTasks memory books tasks).2.flatMap Event.outputs ∧
      ∀ e ∈ (referenceTasks memory books tasks).2, Homed memory e := by
  induction tasks generalizing shard books with
  | nil => exact ⟨shard, rfl, rfl, ready.rep, by simp [referenceTasks], by simp [referenceTasks]⟩
  | cons task tasks ih =>
      obtain ⟨next, result, ready', stays⟩ := ready_step memory shard books task tasks ready
      obtain ⟨final, rest, sameId, rep, out, homed⟩ := ih next _ ready'
      refine ⟨final, (run_tasks_cons shard next task tasks result).trans rest,
        sameId.trans stays.id, rep, ?_, fun e told => ?_⟩
      · rw [out, stays.out, referenceTasks, List.flatMap_append, List.append_assoc]
      · rcases List.mem_append.mp told with now | later
        · exact (stays.homed e now).2
        · exact homed e later

theorem reference_projection (memory : Slot → Order) (inst : Nat) (shard : Shard)
    (books others : Nat → Resting) (tasks : List EngineTask)
    (ready : Ready memory shard books tasks) (same : others inst = books inst) :
    (referenceTasks memory others (tasks.filter fun task => task.home memory = inst)).1 inst =
    (referenceTasks memory books tasks).1 inst ∧
      (referenceTasks memory others (tasks.filter fun task => task.home memory = inst)).2 =
        onInstrument inst (referenceTasks memory books tasks).2 := by
  induction tasks generalizing shard books others with
  | nil => exact ⟨same, rfl⟩
  | cons task tasks ih =>
      obtain ⟨next, result, ready', stays⟩ := ready_step memory shard books task tasks ready
      by_cases own : task.home memory = inst
      · subst own
        obtain ⟨book, events⟩ := ih next _ (Function.update others (task.home memory)
          (referenceTask (books (task.home memory)) (memory task.slot) task).1) ready' (by simp)
        rw [List.filter_cons_of_pos (by simp)]
        simp only [referenceTasks, same]
        refine ⟨book, ?_⟩
        rw [events, on_instrument_append, on_instrument_own _ _ fun e told => (stays.homed e told).1]
      · obtain ⟨book, events⟩ := ih next _ others ready' (by rw [Function.update_of_ne (Ne.symm own), same])
        rw [List.filter_cons_of_neg (by simpa using own)]
        refine ⟨book, ?_⟩
        rw [events, referenceTasks, on_instrument_append, on_instrument_other _ _ fun e told here =>
          own ((stays.homed e told).1 ▸ here)]
        rfl

structure Agree (memory : Slot → Order) (inst : Nat) (shard other : Shard) : Prop where
  id : other.id = shard.id
  book : other.books inst = shard.books inst
  cells : Twin (fun slot => (memory slot).instrumentId = inst) shard.shared.out other.shared.out
    shard.shared other.shared

theorem agree_self (memory : Slot → Order) (inst : Nat) (shard : Shard) :
    Agree memory inst shard shard := ⟨rfl, rfl, twin_self _ _⟩

theorem agree_symm (memory : Slot → Order) (inst : Nat) (shard other : Shard)
    (agree : Agree memory inst shard other) :
    Agree memory inst other shard where
  id := agree.id.symm
  book := agree.book.symm
  cells := ⟨fun slot own => (agree.cells.order slot own).symm, fun slot own =>
    (agree.cells.next slot own).symm,
    fun slot own => (agree.cells.prev slot own).symm, fun slot own =>
      (agree.cells.byId slot own).symm, [], by simp, by simp⟩

theorem agree_trans (memory : Slot → Order) (inst : Nat) (first second third : Shard)
    (one : Agree memory inst first second)
    (two : Agree memory inst second third) : Agree memory inst first third where
  id := two.id.trans one.id
  book := two.book.trans one.book
  cells := ⟨fun slot own => (two.cells.order slot own).trans (one.cells.order slot own),
    fun slot own => (two.cells.next slot own).trans (one.cells.next slot own),
    fun slot own => (two.cells.prev slot own).trans (one.cells.prev slot own),
    fun slot own => (two.cells.byId slot own).trans (one.cells.byId slot own), [], by simp, by simp⟩

theorem other_agrees (memory : Slot → Order) (inst away : Nat) (shard next : Shard)
    (events : List Event) (apart : away ≠ inst)
    (stays : StaysHome memory away shard next events) : Agree memory inst shard next where
  id := stays.id
  book := stays.books inst (Ne.symm apart)
  cells :=
    have differs (slot : Slot) (own : (memory slot).instrumentId = inst) :
        (memory slot).instrumentId ≠ away := fun same =>
      apart (same.symm.trans own)
    ⟨fun slot own => stays.cells.order slot (differs slot own), fun slot own =>
      stays.cells.next slot (differs slot own),
      fun slot own => stays.cells.prev slot (differs slot own), fun slot own =>
        stays.cells.byId slot (differs slot own), [], by simp, by simp⟩

section
variable (memory : Slot → Order) (shard : Shard) (books : Nat → Resting)

theorem target_home (task : EngineTask) (tasks : List EngineTask)
    (ready : Ready memory shard books (task :: tasks)) (inst : Nat)
    (target : task.target shard = some inst) : task.home memory = inst := by
  cases task with
  | new o =>
      rw [EngineTask.home, EngineTask.slot, ← ready.carried o List.mem_cons_self]
      exact Option.some.inj target
  | cancel idx token =>
      rcases cancel_effect shard books ready.rep idx token (ready.awaits _ List.mem_cons_self)
        with ⟨r, rfl, _, inside, found, _⟩ | ⟨found, _⟩
      · rw [found] at target
        exact (ready.live _ r inside).trans (Option.some.inj target)
      · cases found.symm.trans target

theorem own_agrees (task : EngineTask) (tasks tasks' : List EngineTask)
    (ready : Ready memory shard books (task :: tasks))
    (other next next' : Shard) (others : Nat → Resting) (ready' : Ready memory other others (task :: tasks'))
    (same : others (task.home memory) = books (task.home memory)) (done : processTask shard task = .ok next)
    (done' : processTask other task = .ok next') (agree : Agree memory (task.home memory) shard other) :
    Agree memory (task.home memory) next next' := by
  have awaits := ready.awaits task List.mem_cons_self
  have awaits' := ready'.awaits task List.mem_cons_self
  rcases task_effect shard books ready.rep task awaits with ⟨inst, _, books', events, target,
    result, effect⟩ | ⟨idx, token, rfl, target, result, _⟩
  · cases done.symm.trans result
    have home := target_home memory shard books task tasks ready inst target
    subst home
    have own (slot : Slot) (reached : Footprint books (task.home memory) task slot) :
        (memory slot).instrumentId = task.home memory := by
      rcases reached with member | same
      · obtain ⟨r, inside, rfl⟩ := List.mem_map.mp member
        exact ready.live _ r inside
      · rw [same]
        rfl
    have twin : Twin (Footprint books (task.home memory) task) shard.shared.out other.shared.out
        shard.shared other.shared :=
      ⟨fun slot here => agree.cells.order slot (own slot here), fun slot here =>
        agree.cells.next slot (own slot here),
        fun slot here => agree.cells.prev slot (own slot here), fun slot here =>
          agree.cells.byId slot (own slot here), [], by simp, by simp⟩
    obtain ⟨final, result', sameId, target', book, twin'⟩ :=
      task_twin shard books ready.rep task awaits _ target next done other agree.id agree.book twin
    cases done'.symm.trans result'
    rcases task_effect other others ready'.rep task awaits' with ⟨inst, _, others', events', found,
      result', effect'⟩ | ⟨_, _, _, found, _⟩
    · cases done'.symm.trans result'
      cases target'.symm.trans found
      have left := effect_leaves_twin shard books ready.rep next books' task _ events effect
        (fun slot => ¬ Footprint books (task.home memory) task slot)
        fun slot outside => not_or.mp outside
      have right := effect_leaves_twin other others ready'.rep next' others' task _ events' effect'
        (fun slot => ¬ Footprint books (task.home memory) task slot) fun slot outside => by
          rw [same]
          exact not_or.mp outside
      exact ⟨sameId.trans (agree.id.trans effect.id.symm), by rw [book, Function.update_self],
        twin_glue _ _ _ _ _ _ _ _ agree.cells left right twin'⟩
    · cases found.symm.trans target'
  · cases done.symm.trans result
    have index : other.shared.ordersById idx = shard.shared.ordersById idx := agree.cells.byId idx rfl
    have order : other.shared.order idx = shard.shared.order idx := agree.cells.order idx rfl
    have target' : EngineTask.target other (.cancel idx token) = none := by
      rcases shard_indexed_iff shard books allQuiet ready.rep idx with ⟨_, present⟩ | ⟨_, absent⟩
      · simpa only [EngineTask.target, index, present, order] using target
      · simp only [EngineTask.target, index, absent]
    rcases task_effect other others ready'.rep _ awaits' with ⟨inst, _, _, _, found, _⟩ | ⟨_, _,
      _, _, result', _⟩
    · cases found.symm.trans target'
    · cases done'.symm.trans result'
      exact agree

end

theorem run_projection (memory : Slot → Order) (inst : Nat) (shard other : Shard)
    (books others : Nat → Resting) (tasks : List EngineTask)
    (ready : Ready memory shard books tasks)
    (ready' : Ready memory other others (tasks.filter fun task => task.home memory = inst))
    (same : others inst = books inst) (agree : Agree memory inst shard other) (final final' : Shard)
    (run : runTasks shard tasks = .ok final)
    (run' : runTasks other (tasks.filter fun task => task.home memory = inst) = .ok final') :
    Agree memory inst final final' := by
  induction tasks generalizing shard other books others with
  | nil =>
      cases run
      cases run'
      exact agree
  | cons task tasks ih =>
      obtain ⟨next, result, rest, stays⟩ := ready_step memory shard books task tasks ready
      rw [run_tasks_cons shard next task tasks result] at run
      by_cases own : task.home memory = inst
      · subst own
        rw [List.filter_cons_of_pos (by simp)] at ready' run'
        obtain ⟨next', result', rest', _⟩ := ready_step memory other others task _ ready'
        rw [run_tasks_cons other next' task _ result'] at run'
        refine ih next next' _ _ rest rest' (by simp [same]) ?_ run run'
        exact own_agrees memory shard books task tasks _ ready other next next' others ready' same
          result result' agree
      · rw [List.filter_cons_of_neg (by simpa using own)] at ready' run'
        refine ih next other _ others rest ready'
          (by rw [Function.update_of_ne (Ne.symm own), same]) ?_ run run'
        exact agree_trans memory inst next shard other
          (agree_symm memory inst shard next (other_agrees memory inst _ shard next _ own stays))
          agree

end HftExchange
