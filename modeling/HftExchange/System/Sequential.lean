import HftExchange.Engine.Sequential
import HftExchange.System.Flight

set_option autoImplicit false

namespace HftExchange

open Base

def Lane.task (lane : Lane) (worker : Nat) : Option Entry :=
  match lane.engine, lane.queues worker with
  | .idle, entry :: _ => some entry
  | _, _ => none

section
variable (sh worker : Nat)

-- A step as one operation on a shard that takes each task as a whole.
def Exchange.operation (s : Exchange) : Label → Option ShardOp
  | .pop shard worker => if shard = sh then ((s.lanes sh).task worker).bind fun entry =>
      (s.lanes sh).shard.operation entry.task else none
  | _ => none

def Exchange.taken (s : Exchange) : Label → Option Entry
  | .pop shard other => if shard = sh ∧ other = worker then (s.lanes sh).task worker else none
  | _ => none

def Exchange.given (s : Exchange) : Label → Option Entry
  | .push other =>
      match (s.gateway other).task with
      | some (shard, entry) =>
          if shard = sh ∧ other = worker ∧ ((s.lanes shard).queues other).length + 1 < queueCapacity
            then some entry else none
      | none => none
  | _ => none

end

-- The lane is, to everyone outside, the shard that takes each task as a whole,
-- but for the end of the match in hand.
def Follows (lane : Lane) (whole : Shard) : Prop := ∃ books, Anticipates lane.shard lane.engine books whole

theorem task_some (lane : Lane) (worker : Nat) (entry : Entry) (rest : List Entry)
    (idle : lane.engine = .idle)
    (front : lane.queues worker = entry :: rest) : lane.task worker = some entry := by
  rw [Lane.task, idle, front]

theorem task_front (lane : Lane) (worker : Nat) (entry : Entry) (found : lane.task worker = some entry) :
    lane.engine = .idle ∧ ∃ rest, lane.queues worker = entry :: rest := by
  unfold Lane.task at found
  split at found
  · rename_i first rest idle front
    cases found
    exact ⟨idle, rest, front⟩
  · cases found

theorem pop_nothing (lane next : Lane) (worker : Nat) (nothing : lane.task worker = none)
    (done : lane.pop worker = .ok next) :
    next = lane := by
  cases engine : lane.engine with
  | matching inst o pc => exact pop_busy lane next worker (by simp [engine]) done
  | idle =>
      cases queue : lane.queues worker with
      | nil => exact pop_empty lane next worker queue done
      | cons entry rest => cases nothing.symm.trans (task_some lane worker entry rest engine queue)

theorem pop_something (lane next : Lane) (worker : Nat) (entry : Entry)
    (found : lane.task worker = some entry)
    (done : lane.pop worker = .ok next) :
    ∃ rest, lane.queues worker = entry :: rest ∧ next.queues = Function.update lane.queues worker rest := by
  obtain ⟨idle, rest, front⟩ := task_front lane worker entry found
  rcases (pop_queues lane next worker done).2 with ⟨_, busy | empty⟩ | ⟨first, tail, front', queues⟩
  · exact absurd idle busy
  · cases front.symm.trans empty
  · cases front.symm.trans front'
    exact ⟨rest, front, queues⟩

section
variable (workers sh : Nat) (held : Nat → Option Order) (lane next : Lane)
  (inv : LaneInv workers sh held lane) (whole : Shard)
  (follows : Follows lane whole)
include inv follows

theorem follows_lane_step (label : Label) (step : LaneStep sh lane label next)
    (noPop : ∀ worker, label ≠ .pop sh worker) :
    Follows next whole := by
  cases step with
  | same _ => exact follows
  | pushed worker entry room => exact follows
  | popped worker _ done => exact absurd rfl (noPop worker)
  | admitted conn req o who pool wasFree =>
      obtain ⟨_, _, notHand, notLive⟩ := free_slot_apart workers sh held lane inv o.internalId wasFree
      obtain ⟨books, lead⟩ := follows
      exact ⟨books, anticipated_construct lane.shard lane.engine books whole lead o notLive notHand⟩
  | worked _ done =>
      obtain ⟨⟨shard, after⟩, step, moved⟩ := (checked_bind_eq_ok _ _ _).mp done
      obtain ⟨rfl, rfl, _⟩ := advance_engine lane next shard after moved
      obtain ⟨books, lead⟩ := follows
      exact anticipated_continue lane.shard next.shard lane.engine next.engine books whole lead step

theorem follows_pop (one : 1 ≤ workers) (sixteen : workers ≤ 16) (worker : Nat)
    (live : ∀ slot ∈ newSlots (lane.queues worker), 1 ≤ (lane.shard.shared.order slot).quantity)
    (done : lane.pop worker = .ok next) :
    match (lane.task worker).bind fun entry => lane.shard.operation entry.task with
    | none => Follows next whole
    | some op => ∃ whole', Guarded ShardAdmissible shardStep whole op whole' ∧ Follows next whole' := by
  cases found : lane.task worker with
  | none =>
      rw [pop_nothing lane next worker found done]
      exact follows
  | some entry =>
      obtain ⟨idle, rest, front⟩ := task_front lane worker entry found
      simp only [Lane.pop, idle, front] at done
      obtain ⟨⟨shard, after⟩, step, moved⟩ := (checked_bind_eq_ok _ _ _).mp done
      obtain ⟨rfl, rfl, _⟩ := advance_engine _ next shard after moved
      obtain ⟨books, lead⟩ := follows
      rw [idle] at lead
      rw [Option.bind_some]
      cases task : entry.task with
      | cancel idx token =>
          rw [task] at step
          have usable := inv.cancels worker idx token entry.sender (by
            rw [front, ← task]
            exact List.mem_cons_self)
          obtain ⟨whole', result, later⟩ :=
            anticipated_cancel lane.shard next.shard next.engine books whole idx token lead
            (usable_bound workers idx one sixteen usable) step
          exact ⟨whole', ⟨trivial, result⟩, later⟩
      | new slot =>
          rw [task] at step
          have member : slot ∈ newSlots (lane.queues worker) := by simp [front, newSlots, newSlot, task]
          have underway := inv.queued worker slot member
          obtain ⟨once, apart⟩ := queued_apart workers sh held lane inv worker slot member
          have usable := tally_usable workers sh held lane inv slot (by
            rw [Lane.tally, inv.slices.1, underway.home]
            omega)
          exact anticipated_new lane.shard next.shard next.engine books whole slot lead underway.self usable.1
            (usable_bound workers slot one sixteen usable) underway.known
              (underway.routed.trans inv.sameId.symm) (by omega) (live slot member) step

end

section
variable (workers : Nat) (one : 1 ≤ workers) (sixteen : workers ≤ 16) (s next : Exchange)
  (inv : ExchangeInv workers s) (label : Label)
  (step : exchangeStep workers s label = .ok next) (sh : Nat)
include inv step one sixteen

theorem follows_step (live : ∀ worker, ∀ slot ∈ newSlots ((s.lanes sh).queues worker),
    1 ≤ ((s.lanes sh).shard.shared.order slot).quantity)
    (whole : Shard) (follows : Follows (s.lanes sh) whole) :
    match s.operation sh label with
    | none => Follows (next.lanes sh) whole
    | some op => ∃ whole', Guarded ShardAdmissible shardStep whole op whole' ∧
        Follows (next.lanes sh) whole' := by
  by_cases pops : ∃ worker, label = .pop sh worker
  · obtain ⟨worker, rfl⟩ := pops
    have found := follows_pop workers sh _ (s.lanes sh) (next.lanes sh)
      (inv.lanes sh) whole follows one sixteen worker (live worker)
      (pop_lane workers s next sh worker step)
    rwa [show s.operation sh (.pop sh worker) = ((s.lanes sh).task worker).bind fun entry =>
      (s.lanes sh).shard.operation entry.task
      from if_pos rfl]
  · have silent : s.operation sh label = none := by
      cases label with
      | pop shard worker => exact if_neg fun same => pops ⟨worker, by rw [same]⟩
      | accept | close | enter | record | cancel | push | work => rfl
    rw [silent]
    exact follows_lane_step workers sh _ (s.lanes sh) (next.lanes sh) (inv.lanes sh) whole follows label
      (exchange_step_lane workers s inv next label step sh) fun worker same => pops ⟨worker, same⟩

end

theorem push_of_task (s : Exchange) (worker : Nat) :
    s.push worker = match (s.gateway worker).task with
      | none => s
      | some (sh, entry) => s.pushTask worker sh entry := by
  unfold Exchange.push
  cases s.gateway worker <;> rfl

theorem push_queue (s : Exchange) (other sh worker : Nat) :
    ((s.push other).lanes sh).queues worker = (s.lanes sh).queues worker ++
    (s.given sh worker (.push other)).toList := by
  rw [push_of_task]
  cases task : (s.gateway other).task with
  | none => simp [Exchange.given, task]
  | some found =>
      obtain ⟨shard, entry⟩ := found
      have given : s.given sh worker (.push other) =
          if shard = sh ∧ other = worker ∧ ((s.lanes shard).queues other).length + 1 < queueCapacity
            then some entry else none := by
        simp only [Exchange.given, task]
      rw [given]
      by_cases room : ((s.lanes shard).queues other).length + 1 < queueCapacity
      · simp only [push_task_room s other shard entry room, Exchange.setWorker, room, and_true]
        by_cases here : shard = sh
        · subst here
          by_cases own : other = worker
          · subst own
            simp [Lane.setQueue, Exchange.setLane]
          · simp [Lane.setQueue, Exchange.setLane, own, Ne.symm own]
        · simp [set_lane_other _ _ _ sh (Ne.symm here), here]
      · simp only [push_task_full s other shard entry room, room, and_false, if_false,
          Option.toList_none, List.append_nil]

theorem queue_step (workers : Nat) (s next : Exchange) (inv : ExchangeInv workers s) (label : Label)
    (step : exchangeStep workers s label = .ok next) (sh worker : Nat) :
    (s.lanes sh).queues worker ++ (s.given sh worker label).toList =
    (s.taken sh worker label).toList ++ (next.lanes sh).queues worker := by
  have silent : s.given sh worker label = none → s.taken sh worker label = none →
      (next.lanes sh).queues worker = (s.lanes sh).queues worker →
      (s.lanes sh).queues worker ++ (s.given sh worker label).toList =
        (s.taken sh worker label).toList ++ (next.lanes sh).queues worker := by
    intro given taken same
    rw [given, taken, same, Option.toList_none, List.append_nil, List.nil_append]
  have moved := exchange_step_lane workers s inv next label step sh
  cases label with
  | accept | close | record | cancel =>
      refine silent rfl rfl ?_
      generalize next.lanes sh = lane at moved ⊢
      cases moved
      rfl
  | enter conn req =>
      refine silent rfl rfl ?_
      generalize next.lanes sh = lane at moved ⊢
      cases moved <;> rfl
  | work shard =>
      refine silent rfl rfl ?_
      generalize next.lanes sh = lane at moved ⊢
      cases moved with
      | same _ => rfl
      | worked _ done => rw [(work_queues _ _ done).1]
  | push other =>
      cases step
      rw [push_queue]
      rfl
  | pop shard other =>
      by_cases here : shard = sh
      · subst here
        have done := pop_lane workers s next shard other step
        cases found : (s.lanes shard).task other with
        | none =>
            have none_ : s.taken shard worker (.pop shard other) = none := by
              rw [Exchange.taken]
              split
              · rename_i own
                exact own.2 ▸ found
              · rfl
            exact silent rfl none_ (by rw [pop_nothing _ _ other found done])
        | some entry =>
            obtain ⟨rest, front, queues⟩ := pop_something _ _ other entry found done
            by_cases own : other = worker
            · subst own
              have taken : s.taken shard other (.pop shard other) = some entry :=
                (if_pos ⟨rfl, rfl⟩).trans found
              rw [taken, queues, front, Function.update_self]
              exact List.append_nil _
            · refine silent rfl (if_neg fun both => own both.2) ?_
              rw [queues, Function.update_of_ne (Ne.symm own)]
      · obtain ⟨lane, _, result⟩ := (checked_bind_eq_ok _ _ _).mp step
        cases result
        refine silent rfl (if_neg fun own => here own.1) ?_
        rw [set_lane_other s shard lane sh (Ne.symm here)]

section
variable (workers : Nat) (one : 1 ≤ workers) (sixteen : workers ≤ 16) (labels : Nat → Label)
  (states : Nat → Exchange) (trace : Trace workers labels states)
include one sixteen trace

theorem queued_quantity (n sh worker : Nat) (slot : Slot)
    (member : slot ∈ newSlots (((states n).lanes sh).queues worker)) :
    1 ≤ (((states n).lanes sh).shard.shared.order slot).quantity := by
  have inv := trace_inv workers one sixteen labels states trace n
  have self := ((inv.lanes sh).queued worker slot member).self
  have here : OnItsWay (states n) sh worker (((states n).lanes sh).shard.shared.order slot) :=
    .inr ⟨self.symm ▸ member, congrArg _ self⟩
  obtain ⟨k, sent⟩ := sent_before workers one sixteen labels states trace n sh worker _ here
  obtain ⟨conn, req, _, admits, same⟩ := sent.message
  have positive := (admitted_order req (clientIdOf conn) worker admits.1).2.2
  rw [same]
  exact positive

theorem lane_sequential (sh n : Nat) :
    ∃ whole, ShardRun (.init sh) (operations (Exchange.operation sh) states labels n) whole ∧
    Follows ((states n).lanes sh) whole := by
  refine operations_simulate (Exchange.operation sh) states labels
    (fun s whole => Follows (s.lanes sh) whole) (Guarded ShardAdmissible shardStep) (.init sh)
    ?_ ?_ n
  · rw [trace.start]
    exact ⟨_, initial_anticipates sh⟩
  · intro n whole follows
    have moved := follows_step workers one sixteen (states n) _
      (trace_inv workers one sixteen labels states trace n) (labels n) (trace.step n) sh
      (fun worker => queued_quantity workers one sixteen labels states trace n sh worker) whole
      follows
    cases found : Exchange.operation sh (states n) (labels n) with
    | none | some op =>
        rw [found] at moved
        exact moved

theorem queue_in_order (sh worker n : Nat) :
    operations (Exchange.given sh worker) states labels n =
      operations (Exchange.taken sh worker) states labels n ++
        ((states n).lanes sh).queues worker := by
  induction n with
  | zero =>
      rw [trace.start]
      rfl
  | succ n ih =>
      have moved := queue_step workers (states n) _
        (trace_inv workers one sixteen labels states trace n) (labels n) (trace.step n) sh worker
      rw [operations_succ, operations_succ, ih, List.append_assoc, List.append_assoc, moved]

theorem submit_sent (n sh : Nat) (o : Order)
    (submits : (states n).operation sh (labels n) = some (.submit o)) :
    ∃ worker conn rest k, labels n = .pop sh worker ∧ ((states n).lanes sh).engine = .idle ∧
      ((states n).lanes sh).queues worker = ⟨.new o.internalId, conn⟩ :: rest ∧
      SentAt labels states k n sh worker o := by
  cases label : labels n with
  | accept | close | enter | record | cancel | push | work =>
      rw [label] at submits
      cases submits
  | pop shard worker =>
      rw [label, Exchange.operation] at submits
      split at submits
      · rename_i here
        subst here
        obtain ⟨entry, found, submits⟩ := Option.bind_eq_some_iff.mp submits
        obtain ⟨idle, rest, front⟩ := task_front _ worker entry found
        obtain ⟨task, conn⟩ := entry
        cases task with
        | cancel idx token => cases submits
        | new slot =>
            rw [Shard.operation, Option.ite_none_right_eq_some] at submits
            obtain ⟨_, same⟩ := submits
            obtain rfl := ShardOp.submit.inj (Option.some.inj same)
            have inv := trace_inv workers one sixteen labels states trace n
            have member : slot ∈ newSlots (((states n).lanes shard).queues worker) := by
              simp [front, newSlots, newSlot]
            have self := ((inv.lanes shard).queued worker slot member).self
            have here : OnItsWay (states n) shard worker
                (((states n).lanes shard).shard.shared.order slot) :=
              .inr ⟨self.symm ▸ member, congrArg _ self⟩
            obtain ⟨k, sent⟩ :=
              sent_before workers one sixteen labels states trace n shard worker _ here
            exact ⟨worker, conn, rest, k, rfl, idle, by rw [self, front], sent⟩
      · cases submits

theorem submit_source (n : Nat) :
    ∃ k, ∀ sh o, (states n).operation sh (labels n) = some (.submit o) →
    ∃ worker conn rest, labels n = .pop sh worker ∧ ((states n).lanes sh).engine = .idle ∧
      ((states n).lanes sh).queues worker = ⟨.new o.internalId, conn⟩ :: rest ∧
      SentAt labels states k n sh worker o := by
  by_cases some_ : ∃ sh o, (states n).operation sh (labels n) = some (.submit o)
  · obtain ⟨sh, o, submits⟩ := some_
    obtain ⟨worker, conn, rest, k, pops, idle, front, sent⟩ :=
      submit_sent workers one sixteen labels states trace n sh o submits
    refine ⟨k, fun sh' o' submits' => ?_⟩
    obtain ⟨_, _, _, _, pops', _⟩ :=
      submit_sent workers one sixteen labels states trace n sh' o' submits'
    obtain ⟨rfl, -⟩ := Label.pop.inj (pops.symm.trans pops')
    obtain rfl := ShardOp.submit.inj (Option.some.inj (submits.symm.trans submits'))
    exact ⟨worker, conn, rest, pops, idle, front, sent⟩
  · exact ⟨0, fun sh o submits => absurd ⟨sh, o, submits⟩ some_⟩

end

-- Two workers admit a sell and a buy at the same time, and the engine takes the
-- buy while the workers go on.
def crossedSteps : List Label :=
  [.accept 0, .accept 1, .enter 0 (enterFrame 5 'S' 10 3 100),
    .enter 1 (enterFrame 6 'B' 10 3 100), .record 1, .record 0, .push 0, .pop 3 0, .push 1,
    .work 3, .work 3, .pop 3 1, .work 3, .work 3, .work 3, .work 3, .work 3]

def crossedWorkers (n : Nat) : Label := crossedSteps.getD n (.work 0)

end HftExchange
