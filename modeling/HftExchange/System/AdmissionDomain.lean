import HftExchange.System.Answered

set_option autoImplicit false

namespace HftExchange

open Base

theorem held_not_free (workers : Nat) (s : Exchange) (inv : ExchangeInv workers s)
    (sh worker : Nat) (o : Order)
    (holds : s.held sh worker = some o) : (s.lanes sh).pool.free o.internalId = 0 := by
  have home := ((inv.lanes sh).held worker o holds).1.home
  have bound := tally_le_one workers sh _ _ (inv.lanes sh) o.internalId
  rw [Lane.tally, (inv.lanes sh).slices.1, home] at bound
  have own : heldCount (s.held sh) worker o.internalId = 1 := by simp [heldCount, holds]
  omega

section
variable (workers : Nat) (one : 1 ≤ workers) (sixteen : workers ≤ 16) (labels : Nat → Label)
  (states : Nat → Exchange)
  (trace : Trace workers labels states)
include one sixteen trace

section
variable (start conn worker : Nat) (req : OuchEnterOrder) (sh : Nat) (o : Order) (who : Admission)

theorem at_gateway_next (pc later : WorkerPc) (m : Nat)
    (here : AtGateway labels states start conn worker req sh o who pc m)
    (own : pc.admitting = some (conn, sh, o)) (state : (states (m + 1)).gateway worker = later)
    (busy : later ≠ .idle) :
    AtGateway labels states start conn worker req sh o who later (m + 1) := by
  have inv := trace_inv workers one sixteen labels states trace m
  have holds := admitting_held (states m) worker conn sh o (by rw [here.state]; exact own)
  have taken := held_not_free workers (states m) inv sh worker o holds
  have origin := lane_step_origin sh _ _ _
    (trace_lane_step workers one sixteen labels states trace sh m) o.internalId taken
  refine ⟨⟨here.serves.1, Nat.lt_succ_of_lt here.serves.2.1, fun j after upTo => ?_⟩, state,
    origin.trans here.origin⟩
  by_cases last : j = m + 1
  · rw [last, state]
    exact busy
  · exact here.serves.2.2 j after (by omega)

variable (fair : Fair workers labels states) (knownShard : sh < numShards) (member : worker < workers)
include fair

section
include member

theorem allocated_leads_recorded :
    LeadsTo (AtGateway labels states start conn worker req sh o who (.allocated conn sh o))
      (AtGateway labels states start conn worker req sh o who (.recorded conn sh o)) := by
  refine leads_by_step (fun n => labels n = .record worker) (fair.records worker member) ?_ ?_
  · intro n here
    rcases allocated_step workers _ _ _ (trace.step n) worker conn sh o here.state
      with ⟨_, state⟩ | ⟨_, state⟩
    · exact .inr (at_gateway_next workers one sixteen labels states trace start conn worker req sh o
        who _ _ n here rfl state (by simp))
    · exact .inl (at_gateway_next workers one sixteen labels states trace start conn worker req sh o
        who _ _ n here rfl state (by simp))
  · intro n here label
    rcases allocated_step workers _ _ _ (trace.step n) worker conn sh o here.state
      with ⟨_, state⟩ | ⟨other, _⟩
    · exact at_gateway_next workers one sixteen labels states trace start conn worker req sh o who _
        _ n here rfl state (by simp)
    · exact absurd label other

include knownShard in
theorem recorded_leads_room :
    LeadsTo (AtGateway labels states start conn worker req sh o who (.recorded conn sh o)) fun n =>
      AtGateway labels states start conn worker req sh o who (.recorded conn sh o) n ∧
        (((states n).lanes sh).queues worker).length + 1 < queueCapacity := by
  have drains : ∀ length, LeadsTo
      (fun n => AtGateway labels states start conn worker req sh o who (.recorded conn sh o) n ∧
        (((states n).lanes sh).queues worker).length = length)
      (fun n => AtGateway labels states start conn worker req sh o who (.recorded conn sh o) n ∧
        (((states n).lanes sh).queues worker).length + 1 < queueCapacity) := by
    refine leads_by_rank _ _ fun length => ?_
    by_cases room : length + 1 < queueCapacity
    · refine leads_at_once ?_
      rintro n ⟨here, same⟩
      exact .inl ⟨here, by rw [same]; exact room⟩
    refine leads_by_step _ (fair.pops sh knownShard worker member
      (engine_recurs_idle workers one sixteen labels states trace fair sh knownShard)) ?_ ?_
    · rintro n ⟨here, same⟩
      have full : ¬ (((states n).lanes sh).queues worker).length + 1 < queueCapacity :=
        by rw [same]; exact room
      have state := recorded_stays workers _ _ _ (trace.step n) worker conn sh o here.state (.inr full)
      have next := at_gateway_next workers one sixteen labels states trace start conn worker req sh
        o who _ _ n here rfl state (by simp)
      by_cases pushes : labels n = .push worker
      · have step := trace.step n
        rw [pushes] at step
        simp only [exchangeStep, checked_pure, Except.ok.injEq] at step
        refine .inl ⟨next, ?_⟩
        rw [← step]
        simp [Exchange.push, here.state, push_task_full (states n) worker sh _ full, same]
      · have shorter := lane_step_queue sh _ _ _
          (trace_lane_step workers one sixteen labels states trace sh n) worker pushes
        rw [same] at shorter
        rcases Nat.lt_or_eq_of_le shorter with less | equal
        · exact .inr (.inr ⟨_, less, next, rfl⟩)
        · exact .inl ⟨next, equal⟩
    · rintro n ⟨here, same⟩ ⟨label, idle⟩
      have step := trace.step n
      have state := recorded_stays workers _ _ _ step worker conn sh o here.state (.inl (by simp [label]))
      have next := at_gateway_next workers one sixteen labels states trace start conn worker req sh
        o who _ _ n here rfl state (by simp)
      rw [label] at step
      have popped := pop_queues _ _ worker (pop_lane workers _ _ sh worker step)
      rcases popped.2 with ⟨_, busy | empty⟩ | ⟨entry, rest, front, queues⟩
      · exact absurd idle busy
      · rw [empty] at same
        have none_ : length = 0 := same.symm
        exact absurd (by rw [none_]; decide) room
      · refine .inr ⟨rest.length, ?_, next, by rw [queues, Function.update_self]⟩
        rw [← same, front]
        exact Nat.lt_succ_self _
  intro n here
  exact drains _ n ⟨here, rfl⟩

include knownShard in
theorem recorded_leads_queue :
    LeadsTo (AtGateway labels states start conn worker req sh o who (.recorded conn sh o)) fun n =>
      EnqueuedBy labels states start conn worker req sh o n ∧
      ∃ place, AtQueue states start conn worker sh o who place n := by
  refine leads_trans
    (recorded_leads_room workers one sixteen labels states trace start conn worker req sh o who fair
    knownShard member) ?_
  have pushed : ∀ n, AtGateway labels states start conn worker req sh o who (.recorded conn sh o) n →
      (((states n).lanes sh).queues worker).length + 1 < queueCapacity → labels n = .push worker →
      EnqueuedBy labels states start conn worker req sh o (n + 1) ∧
        ∃ place, AtQueue states start conn worker sh o who place (n + 1) := by
    intro n here room label
    have inv := trace_inv workers one sixteen labels states trace n
    have holds := admitting_held (states n) worker conn sh o (by rw [here.state]; rfl)
    have stored := ((inv.lanes sh).held worker o holds).2
    obtain ⟨_, lane⟩ := recorded_push workers _ _ _ (trace.step n) worker conn sh o here.state label room
    have queue : ((states (n + 1)).lanes sh).queues worker = ((states n).lanes sh).queues worker ++
        [⟨.new o.internalId, conn⟩] := by
      rw [lane]
      simp [Lane.setQueue]
    have earlier := here.serves.2.1
    refine ⟨⟨n, Nat.lt_succ_self n, here.serves, label, here.state, queue⟩, _, by omega,
      ⟨_, [], queue, rfl⟩, ?_, ?_⟩
    · rw [lane]
      exact stored
    · rw [lane]
      exact here.origin
  refine leads_by_step (fun n => labels n = .push worker) (fair.pushes worker member) ?_ ?_
  · rintro n ⟨here, room⟩
    by_cases pushes : labels n = .push worker
    · exact .inr (pushed n here room pushes)
    · have state := recorded_stays workers _ _ _ (trace.step n) worker conn sh o here.state (.inl pushes)
      have next := at_gateway_next workers one sixteen labels states trace start conn worker req sh
        o who _ _ n here rfl state (by simp)
      have shorter := lane_step_queue sh _ _ _
        (trace_lane_step workers one sixteen labels states trace sh n) worker pushes
      exact .inl ⟨next, by omega⟩
  · rintro n ⟨here, room⟩ label
    exact pushed n here room label

include knownShard in
theorem allocated_leads_queue :
    LeadsTo (AtGateway labels states start conn worker req sh o who (.allocated conn sh o)) fun n =>
      EnqueuedBy labels states start conn worker req sh o n ∧
      ∃ place, AtQueue states start conn worker sh o who place n :=
  leads_trans (allocated_leads_recorded workers one sixteen labels states trace start conn worker
    req sh o who fair member)
    (recorded_leads_queue workers one sixteen labels states trace start conn worker req sh o who
      fair knownShard member)

end

end

variable (n conn worker : Nat) (req : OuchEnterOrder) (takes : Takes labels states n conn worker req)
include takes

theorem taken_outcome : worker < workers ∧
    ((¬ Admits (states n) worker req ∧
      (states (n + 1)).rejects worker = (states n).rejects worker ++ [rejectOf req]) ∨
      (Admits (states n) worker req ∧
        ∃ o, o = { orderOf req (clientIdOf conn) worker with internalId := o.internalId } ∧
        AtGateway labels states n conn worker req (decodeSymbol req.stock % numShards) o
          ⟨conn, (states n).admissions⟩
          (.allocated conn (decodeSymbol req.stock % numShards) o) (n + 1))) := by
  obtain ⟨label, ready⟩ := takes
  have inv := trace_inv workers one sixteen labels states trace n
  have known := (ready_some (states n) conn worker ready).1
  have member : worker < workers := inv.members worker (List.mem_of_getElem? known)
  have step := trace.step n
  rw [label] at step
  simp only [exchangeStep, ready, checked_pure, Except.ok.injEq] at step
  refine ⟨member, ?_⟩
  rcases enter_outcome (states n) conn worker req with ⟨refused, result⟩ | ⟨admits, lane, o,
    taken, same, result⟩
  · refine .inl ⟨refused, ?_⟩
    rw [← step, result]
    simp [Exchange.reject]
  · obtain ⟨_, pool, rfl⟩ := admit_result workers _ _ _ lane (inv.lanes _) worker _ o _ member taken
    rw [result] at step
    have state : (states (n + 1)).gateway worker = .allocated conn
        (decodeSymbol req.stock % numShards) o := by
      rw [← step]
      exact set_worker_worker ..
    refine .inr ⟨admits, o, same, ⟨⟨label, ready⟩, Nat.lt_succ_self n, fun j after upTo => ?_⟩, state, ?_⟩
    · rw [show j = n + 1 by omega, state]
      simp
    · rw [← step]
      simp [Exchange.setWorker, Exchange.setLane]

end

theorem shard_known (inst : Nat) : inst % numShards < numShards := Nat.mod_lt _ (by decide)

theorem serves_since_unique (labels : Nat → Label) (states : Nat → Exchange)
    (first second m conn conn' worker : Nat) (req req' : OuchEnterOrder)
    (one_ : ServesSince labels states first m conn worker req)
    (other : ServesSince labels states second m conn' worker req') :
    first = second := by
  obtain ⟨⟨_, ready⟩, before, since⟩ := one_
  obtain ⟨⟨_, ready'⟩, before', since'⟩ := other
  have idle := (ready_some _ _ _ ready).2.2
  have idle' := (ready_some _ _ _ ready').2.2
  rcases Nat.lt_trichotomy first second with less | same | more
  · exact absurd idle' (since second less (Nat.le_of_lt before'))
  · exact same
  · exact absurd idle (since' first more (Nat.le_of_lt before))

theorem admission_within_domain_iff (workers : Nat) (one : 1 ≤ workers) (sixteen : workers ≤ 16)
    (labels : Nat → Label)
    (states : Nat → Exchange) (trace : Trace workers labels states) :
    ((∀ n, Fits (states n) (labels n)) → ∀ n, TasksInDomain labels states n ∧
      NothingDiscarded labels states n) ∧
    (Fair workers labels states →
      ((∀ n, TasksInDomain labels states n ∧ NothingDiscarded labels states n ∧ Answered labels states n) ↔
        ∀ n, Fits (states n) (labels n))) := by
  have safe : (∀ n, Fits (states n) (labels n)) → ∀ n, TasksInDomain labels states n ∧
      NothingDiscarded labels states n :=
    fun fits n => ⟨tasks_in_domain workers one sixteen labels states trace fits n,
      nothing_discarded workers one sixteen labels states trace fits n⟩
  refine ⟨safe, fun fair => ⟨fun holds n => ?_, fun fits n => ⟨(safe fits n).1, (safe fits n).2, ?_⟩⟩⟩
  · -- an admitted message is enqueued sooner or later, and its task is in the domain
    cases label : labels n with
    | enter conn req =>
        intro worker ready admits
        have takes : Takes labels states n conn worker req := ⟨label, ready⟩
        obtain ⟨member, ⟨refused, _⟩ | ⟨_, o, same, here⟩⟩ :=
          taken_outcome workers one sixteen labels states trace n conn worker req takes
        · exact absurd admits refused
        · obtain ⟨_, _, ⟨j, _, serves, enqueues⟩, _⟩ :=
            allocated_leads_queue workers one sixteen labels states trace n conn worker req _ o _
            fair (shard_known _) member (n + 1) here
          obtain ⟨_, domain, n', req', serves', _, side⟩ := (holds j).1 worker conn _ o enqueues
          have moment := serves_since_unique labels states n n' j conn conn worker req req' serves serves'
          subst moment
          have sameReq : req' = req := by
            have both := serves'.1.1.symm.trans label
            cases both
            rfl
          subst sameReq
          have samePrice : o.price = req'.price := by rw [same]; rfl
          exact ⟨samePrice ▸ domain.price, side.imp And.left And.left⟩
    | accept | close | record | cancel | push | pop | work => trivial
  · intro conn worker req takes
    obtain ⟨member, ⟨_, rejected⟩ | ⟨admits, o, same, here⟩⟩ :=
      taken_outcome workers one sixteen labels states trace n conn worker req takes
    · exact .inl rejected
    · have live : 0 < o.quantity := by
        have positive := (admitted_order req (clientIdOf conn) worker admits.1).2.2
        rw [same]
        exact positive
      have price : o.price < maxPrice :=
        (admitting_fits workers one sixteen labels states trace fits (n + 1) worker conn _ o
          (by rw [here.state]; rfl)).1
      obtain ⟨m, _, _, place, waiting⟩ :=
        allocated_leads_queue workers one sixteen labels states trace n conn worker req _ o _ fair
        (shard_known _) member (n + 1) here
      obtain ⟨m, _, rank, matching⟩ :=
        queue_leads_engine workers one sixteen labels states trace fair _
        (shard_known _) n conn worker o _ member
        price place m waiting
      obtain ⟨_, _, j, later, _, origin, reported⟩ :=
        engine_leads_reported workers one sixteen labels states trace fair _ (shard_known _) n o _
        live rank m matching
      exact .inr ⟨_, o, j, here.state, later, origin, reported⟩

def roundRobin (n : Nat) : Label :=
  match n % 10 with
  | 0 => .record 0
  | 1 => .push 0
  | 2 => .pop 0 0
  | 3 => .pop 1 0
  | 4 => .pop 2 0
  | 5 => .pop 3 0
  | 6 => .work 0
  | 7 => .work 1
  | 8 => .work 2
  | _ => .work 3

def thenRoundRobin (first : List Label) (n : Nat) : Label := first.getD n (roundRobin n)

def AtRest (s : Exchange) : Prop :=
  s.gateway 0 = .idle ∧ ∀ sh < 4, (s.lanes sh).engine = .idle ∧ (s.lanes sh).queues 0 = []

instance (s : Exchange) : Decidable (AtRest s) := inferInstanceAs (Decidable (_ ∧ _))

theorem at_rest_step (s : Exchange) (settled : AtRest s) (n : Nat) :
    exchangeStep 1 s (roundRobin n) = .ok s := by
  have pops : ∀ sh < 4, exchangeStep 1 s (.pop sh 0) = .ok s := by
    intro sh known
    have same : (s.lanes sh).pop 0 = .ok (s.lanes sh) := by simp [Lane.pop, (settled.2 sh known).2]
    simp [exchangeStep, same, Exchange.setLane]
  have works : ∀ sh < 4, exchangeStep 1 s (.work sh) = .ok s := by
    intro sh known
    have idle := (settled.2 sh known).1
    have same : (s.lanes sh).work = .ok (s.lanes sh) := by
      simp [Lane.work, idle, continueTask, Lane.advance, releases]
      rw [← idle]
    simp [exchangeStep, same, Exchange.setLane]
  unfold roundRobin
  split
  · simp [exchangeStep, Exchange.record, settled.1]
  · simp [exchangeStep, Exchange.push, settled.1]
  · exact pops 0 (by decide)
  · exact pops 1 (by decide)
  · exact pops 2 (by decide)
  · exact pops 3 (by decide)
  · exact works 0 (by decide)
  · exact works 1 (by decide)
  · exact works 2 (by decide)
  · exact works 3 (by decide)

theorem then_round_robin_later (first : List Label) (n : Nat) (later : first.length ≤ n) :
    thenRoundRobin first n = roundRobin n := by
  rw [thenRoundRobin, List.getD_eq_getElem?_getD, List.getElem?_eq_none later]
  rfl

section
variable (first : List Label) (states : Nat → Exchange)
  (trace : Trace 1 (thenRoundRobin first) states) (settled : AtRest (states first.length))
include trace settled

theorem at_rest_since (n : Nat) (later : first.length ≤ n) : states n = states first.length := by
  induction n, later using Nat.le_induction with
  | base => rfl
  | succ n later ih =>
      have step := trace.step n
      rw [then_round_robin_later first n later, ih, at_rest_step _ settled n] at step
      exact (Except.ok.inj step).symm

theorem round_robin_fair : Fair 1 (thenRoundRobin first) states := by
  have again : ∀ turn < 10, Recurs fun n => thenRoundRobin first n = roundRobin turn ∧ first.length ≤ n := by
    intro turn known n
    refine ⟨10 * (n + first.length) + turn, by omega, ?_, by omega⟩
    rw [then_round_robin_later first _ (by omega), roundRobin, roundRobin, Nat.mul_add_mod]
  have turns : ∀ turn < 10, Recurs fun n => thenRoundRobin first n = roundRobin turn := by
    intro turn known n
    obtain ⟨m, later, label, _⟩ := again turn known n
    exact ⟨m, later, label⟩
  have pops : ∀ sh < 4, Recurs fun n => thenRoundRobin first n = roundRobin (2 + sh) ∧
      ((states n).lanes sh).engine = .idle := by
    intro sh known n
    obtain ⟨m, later, label, after⟩ := again (2 + sh) (by omega) n
    refine ⟨m, later, label, ?_⟩
    rw [at_rest_since first states trace settled m after]
    exact (settled.2 sh known).1
  refine ⟨fun worker known => ?_, fun worker known => ?_, fun sh known => ?_, fun sh known worker own _ => ?_⟩
  · obtain rfl : worker = 0 := by omega
    exact turns 0 (by decide)
  · obtain rfl : worker = 0 := by omega
    exact turns 1 (by decide)
  · have known : sh < 4 := known
    have turn := turns (6 + sh) (by omega)
    interval_cases sh <;> exact turn
  · obtain rfl : worker = 0 := by omega
    have known : sh < 4 := known
    have turn := pops sh known
    interval_cases sh <;> exact turn

end

def buyOne : List Label :=
  [.accept 0, .enter 0 (enterFrame 5 'B' 10 3 100), .record 0, .push 0, .pop 3 0, .work 3, .work 3]

theorem resting_order_answered :
    ∃ states, Trace 1 (thenRoundRobin buyOne) states ∧ Fair 1 (thenRoundRobin buyOne) states ∧
    Takes (thenRoundRobin buyOne) states 1 0 0 (enterFrame 5 'B' 10 3 100) ∧
    ∀ n, TasksInDomain (thenRoundRobin buyOne) states n ∧ NothingDiscarded (thenRoundRobin buyOne) states n ∧
      Answered (thenRoundRobin buyOne) states n := by
  have settled : AtRest (runStates (exchangeStep 1) (.init 1) (thenRoundRobin buyOne) 7) := by decide +kernel
  have taken : (runStates (exchangeStep 1) (.init 1) (thenRoundRobin buyOne) 1).ready 0 = some 0 :=
    by decide +kernel
  have trace := trace_exists 1 (by decide) (by decide) (thenRoundRobin buyOne)
  generalize runStates (exchangeStep 1) (.init 1) (thenRoundRobin buyOne) = states at settled taken trace
  have fair := round_robin_fair buyOne states trace settled
  have fits : ∀ n, Fits (states n) (thenRoundRobin buyOne n) := by
    intro n
    by_cases later : buyOne.length ≤ n
    · rw [then_round_robin_later buyOne n later]
      unfold roundRobin
      split <;> trivial
    · have early : n < 7 := Nat.lt_of_not_le later
      interval_cases n
      · trivial
      · exact fun _ _ _ => by decide
      · trivial
      · trivial
      · trivial
      · trivial
      · trivial
  exact ⟨states, trace, fair, ⟨rfl, taken⟩,
    ((admission_within_domain_iff 1 (by decide) (by decide) (thenRoundRobin buyOne) states
      trace).2 fair).mpr fits⟩

-- The gateway admits a price of 200000. The order reaches the engine and is
-- gone: no record and no reject is ever made for it.
def farPrice : List Label :=
  [.accept 0, .enter 0 (enterFrame 5 'S' 10 3 200000), .record 0, .push 0, .pop 3 0]

theorem far_price_vanishes :
    ∃ states, Trace 1 (thenRoundRobin farPrice) states ∧ Fair 1 (thenRoundRobin farPrice) states ∧
    Takes (thenRoundRobin farPrice) states 1 0 0 (enterFrame 5 'S' 10 3 200000) ∧
    ¬ TasksInDomain (thenRoundRobin farPrice) states 3 ∧
    ¬ NothingDiscarded (thenRoundRobin farPrice) states 4 ∧
    ¬ Answered (thenRoundRobin farPrice) states 1 := by
  have settled : AtRest (runStates (exchangeStep 1) (.init 1) (thenRoundRobin farPrice) 5) :=
    by decide +kernel
  have silent : ∀ n < 6, dropCopySequence
    ((runStates (exchangeStep 1) (.init 1) (thenRoundRobin farPrice) n).lanes 3).shard.shared.out =
    [] ∧
      (runStates (exchangeStep 1) (.init 1) (thenRoundRobin farPrice) n).rejects 0 = [] := by decide +kernel
  have taken : (runStates (exchangeStep 1) (.init 1) (thenRoundRobin farPrice) 1).ready 0 =
    some 0 := by decide +kernel
  have hands : (runStates (exchangeStep 1) (.init 1) (thenRoundRobin farPrice) 2).gateway 0 =
      .allocated 0 3 { orderOf (enterFrame 5 'S' 10 3 200000) 1 0 with internalId := 1 } := by decide +kernel
  have holds : (runStates (exchangeStep 1) (.init 1) (thenRoundRobin farPrice) 3).gateway 0 =
      .recorded 0 3 { orderOf (enterFrame 5 'S' 10 3 200000) 1 0 with internalId := 1 } := by decide +kernel
  have before : ((runStates (exchangeStep 1) (.init 1) (thenRoundRobin farPrice) 3).lanes 3).queues
    0 = [] := by decide +kernel
  have after : ((runStates (exchangeStep 1) (.init 1) (thenRoundRobin farPrice) 4).lanes 3).queues
    0 = [⟨.new 1, 0⟩] := by decide +kernel
  have idle : ((runStates (exchangeStep 1) (.init 1) (thenRoundRobin farPrice) 4).lanes 3).engine =
    .idle := by decide +kernel
  have price : (((runStates (exchangeStep 1) (.init 1) (thenRoundRobin farPrice) 4).lanes
      3).shard.shared.order 1).price = 200000 := by
    decide +kernel
  have trace := trace_exists 1 (by decide) (by decide) (thenRoundRobin farPrice)
  generalize runStates (exchangeStep 1) (.init 1) (thenRoundRobin farPrice) = states at *
  have quiet : ∀ n, dropCopySequence ((states n).lanes 3).shard.shared.out = [] := by
    intro n
    by_cases early : n < 6
    · exact (silent n early).1
    · have same := at_rest_since farPrice states trace settled n
        (Nat.le_trans (by decide) (Nat.le_of_not_lt early))
      rw [same]
      exact (silent 5 (by decide)).1
  refine ⟨states, trace, round_robin_fair farPrice states trace settled, ⟨rfl, taken⟩, fun domain =>
    ?_, fun kept => ?_, fun answered => ?_⟩
  · obtain ⟨_, inside, _⟩ := domain 0 0 3 _ ⟨rfl, holds, by rw [before, after]; rfl⟩
    have far : ¬ (orderOf (enterFrame 5 'S' 10 3 200000) 1 0).price < maxPrice := by decide
    exact far inside.price
  · have passed := (kept 3 0 1 0 [] rfl idle after).2
    rw [price] at passed
    exact passed (.inr (by decide))
  · rcases answered 0 0 _ ⟨rfl, taken⟩ with rejected | ⟨sh, o, m, state, _, _, reported⟩
    · rw [(silent 2 (by decide)).2, (silent 1 (by decide)).2] at rejected
      cases rejected
    · rw [hands] at state
      cases state
      obtain ⟨record, member, _⟩ := reported
      obtain ⟨output, inside, made⟩ := List.mem_filterMap.mp member
      have present : record ∈ dropCopySequence ((states (m + 1)).lanes 3).shard.shared.out :=
        List.mem_filterMap.mpr ⟨output, List.mem_of_mem_drop inside, made⟩
      rw [quiet (m + 1)] at present
      cases present

end HftExchange
