import HftExchange.System.Invariant

set_option autoImplicit false

namespace HftExchange

open Base

def WorkerPc.task : WorkerPc → Option (Nat × Entry)
  | .recorded conn sh o => some (sh, ⟨.new o.internalId, conn⟩)
  | .cancelling conn sh idx token => some (sh, ⟨.cancel idx token, conn⟩)
  | _ => none

def Taken (workers : Nat) (lane next : Lane) (extra : Option Slot) (worker : Nat) : Prop :=
  ∃ front, lane.queues worker = front ++ next.queues worker ∧
    (∀ slot : Nat, slot / sliceOf workers = worker → (newSlots front).count slot = if extra =
      some slot then 1 else 0) ∧
    ∀ idx token conn, ⟨.cancel idx token, conn⟩ ∈ front →
      (lane.shard.shared.order idx).clientOrderId = token → liveCount next.shard idx = 0

structure Admitted (lane next : Lane) (o : Order) (who : Admission) : Prop where
  wasFree : lane.pool.free o.internalId ≠ 0
  queues : next.queues = lane.queues
  engine : next.engine = lane.engine
  shared : next.shard.shared = lane.shard.shared.construct o
  origin : next.origin = Function.update lane.origin o.internalId who
  others : ∀ slot : Nat, slot ≠ o.internalId → next.pool.free slot = lane.pool.free slot

inductive Move (workers : Nat) (s : Exchange) : Label → Exchange → Prop where
  | quiet (label : Label) (next : Exchange) (lanes : next.lanes = s.lanes)
      (session : next.session = s.session)
      (gateway : next.gateway = s.gateway) (admissions : next.admissions = s.admissions)
      (connections : ∃ more, next.connections = s.connections ++ more) : Move workers s label next
  | admitted (conn worker : Nat) (req : OuchEnterOrder) (sh : Nat) (o : Order) (lane : Lane)
      (ready : s.ready conn = some worker)
      (same : o = { orderOf req (clientIdOf conn) worker with internalId := o.internalId })
      (lanes : Admitted (s.lanes sh) lane o ⟨conn, s.admissions⟩) :
      Move workers s (.enter conn req)
        { (s.setLane sh lane).setWorker worker (.allocated conn sh o) with admissions := s.admissions + 1 }
  | recorded (worker conn sh : Nat) (o : Order) (state : s.gateway worker = .allocated conn sh o)
      (lookup : ∀ other,
        (s.session.recordOrder o.clientOrderId o.internalId o.instrumentId o.clientId).lookupData
        other =
        if other = o.clientOrderId then ⟨o.internalId, o.instrumentId, o.clientId⟩
          else s.session.lookupData other) :
      Move workers s (.record worker)
        { s.setWorker worker (.recorded conn sh o) with
          session := s.session.recordOrder o.clientOrderId o.internalId o.instrumentId o.clientId }
  | cancelling (conn worker : Nat) (req : OuchCancelOrder) (data : OrderSessionData)
      (ready : s.ready conn = some worker)
      (lookup : s.session.lookupData (decodeOrderToken req.orderToken) = data)
      (found : data.internalId ≠ 0) (own : data.clientId = clientIdOf conn) :
      Move workers s (.cancel conn req) (s.setWorker worker
        (.cancelling conn (data.instrumentId % numShards) data.internalId (decodeOrderToken req.orderToken)))
  | pushed (worker sh : Nat) (entry : Entry) (task : (s.gateway worker).task = some (sh, entry)) :
      Move workers s (.push worker)
        ((s.setLane sh ((s.lanes sh).setQueue worker ((s.lanes sh).queues worker ++
          [entry]))).setWorker worker .idle)
  | engine (label : Label) (sh : Nat) (lane : Lane) (extra : Option Slot)
      (move : EngineMove (s.lanes sh) lane extra)
      (taken : ∀ worker, Taken workers (s.lanes sh) lane extra worker) : Move workers s label
        (s.setLane sh lane)

theorem advance_shard (lane next : Lane) (shard : Shard) (engine : EnginePc)
    (done : lane.advance shard engine = .ok next) :
    next.shard = shard := by
  obtain ⟨pool, _, result⟩ := (checked_bind_eq_ok _ _ _).mp done
  cases result
  rfl

theorem cancel_pop_answers (lane next : Lane) (books : Nat → Resting) (worker idx token conn : Nat)
    (rest : List Entry)
    (rep : ShardRep lane.shard books allQuiet) (bound : idx < maxOrdersLookup) (idle : lane.engine = .idle)
    (front : lane.queues worker = ⟨.cancel idx token, conn⟩ :: rest) (done : lane.pop worker = .ok next)
    (named : (lane.shard.shared.order idx).clientOrderId = token) : liveCount next.shard idx = 0 := by
  obtain ⟨shard, events, books', result, rep', _, change, _, _⟩ :=
    shard_cancel_refines lane.shard books idx token rep bound
  have result : processTask lane.shard (.cancel idx token) = .ok shard := result
  simp only [Lane.pop, idle, front, startTask, result, checked_bind_ok, checked_pure] at done
  rw [advance_shard _ next shard .idle done]
  rcases live_count_iff shard books' allQuiet rep' idx with ⟨⟨inst, member⟩, _⟩ | ⟨_, zero⟩
  · exfalso
    obtain ⟨r, inside, same⟩ := List.mem_map.mp member
    cases change with
    | ignored _ _ stale =>
        refine stale inst r inside same ?_
        rw [← named, ← same, show lane.shard.shared.order r.internalId = r
          from (rep.each inst).stored r inside]
    | canceled q there =>
        by_cases here : inst = q.instrumentId
        · subst here
          rw [Function.update_self] at inside
          exact (by simpa [without] using inside : r ∈ books q.instrumentId ∧ ¬ r.internalId = q.internalId).2
            same
        · rw [Function.update_of_ne here] at inside
          have apart := live_elsewhere_apart lane.shard books allQuiet rep q.instrumentId inst here
            r.internalId (List.mem_map_of_mem inside)
          exact apart (same ▸ List.mem_map_of_mem there)
  · exact zero

section
variable (workers : Nat) (one : 1 ≤ workers) (sixteen : workers ≤ 16) (s : Exchange)
  (inv : ExchangeInv workers s)

theorem stay_move (label : Label) : Move workers s label s := .quiet label s rfl rfl rfl rfl ⟨[], by simp⟩

theorem push_move (worker : Nat) : Move workers s (.push worker) (s.push worker) := by
  have pushed : ∀ sh entry, (s.gateway worker).task = some (sh, entry) →
      Move workers s (.push worker) (s.pushTask worker sh entry) := by
    intro sh entry task
    unfold Exchange.pushTask
    split
    · rename_i lane pushed
      obtain ⟨queue, room, rfl⟩ := Option.map_eq_some_iff.mp pushed
      simp only [pushQueue, Option.ite_none_right_eq_some, Option.some.injEq] at room
      obtain ⟨_, rfl⟩ := room
      exact .pushed worker sh entry task
    · exact stay_move workers s _
  unfold Exchange.push
  split
  · rename_i conn sh o state
    exact pushed sh _ (by rw [state]; rfl)
  · rename_i conn sh idx token state
    exact pushed sh _ (by rw [state]; rfl)
  · exact stay_move workers s _

include inv

theorem enter_move (conn worker : Nat) (req : OuchEnterOrder) (ready : s.ready conn = some worker) :
    Move workers s (.enter conn req) (s.enter conn worker req) := by
  obtain ⟨known, _, idle⟩ := ready_some s conn worker ready
  have member : worker < workers := inv.members worker (List.mem_of_getElem? known)
  have rejected : Move workers s (.enter conn req) (s.reject worker req) :=
    .quiet _ _ rfl rfl rfl rfl ⟨[], by simp [Exchange.reject]⟩
  unfold Exchange.enter
  split
  · rename_i safe
    obtain ⟨_, instrument, _⟩ := admitted_order req (clientIdOf conn) worker safe
    simp only
    split
    · exact rejected
    · rename_i lane o taken
      generalize shard : (orderOf req (clientIdOf conn) worker).instrumentId % numShards = sh at taken
      obtain ⟨same, wasFree, _, queues, engine, shared, origin, others⟩ :=
        admit_inv workers sh _ _ (inv.lanes sh) worker _ o _ lane member
        (by simp [Exchange.held, idle, WorkerPc.held]) instrument shard taken
      exact .admitted conn worker req sh o lane ready same ⟨wasFree, queues, engine, shared, origin, others⟩
  · exact rejected

include one sixteen

theorem record_move (worker : Nat) : Move workers s (.record worker) (s.record worker) := by
  unfold Exchange.record
  split
  · rename_i conn sh o state
    have ok := inv.gateway worker
    rw [state] at ok
    obtain ⟨_, client, token⟩ := ok
    have holds : s.held sh worker = some o := by simp [Exchange.held, state, WorkerPc.held]
    obtain ⟨_, idFits, instFits, _⟩ := held_fits workers one sixteen s inv sh worker o holds
    exact .recorded worker conn sh o state fun other =>
      record_lookup s.session o.clientOrderId o.internalId o.instrumentId o.clientId other token
        (client ▸ client_id_bound conn) idFits instFits
  · exact stay_move workers s _

theorem pop_move (sh worker : Nat) (next : Lane) (done : (s.lanes sh).pop worker = .ok next) :
    Move workers s (.pop sh worker) (s.setLane sh next) := by
  have same : next = s.lanes sh → Move workers s (.pop sh worker) (s.setLane sh next) := by
    rintro rfl
    rw [Exchange.setLane, Function.update_eq_self]
    exact stay_move workers s _
  cases engine : (s.lanes sh).engine with
  | matching inst o pc =>
      simp only [Lane.pop, engine] at done
      exact same (Except.ok.inj done).symm
  | idle =>
      cases queue : (s.lanes sh).queues worker with
      | nil =>
          simp only [Lane.pop, engine, queue] at done
          exact same (Except.ok.inj done).symm
      | cons entry rest =>
          obtain ⟨other, result, _, move, queues⟩ := pop_idle_inv workers sh _ _
            (inv.lanes sh) worker one sixteen entry rest engine queue
          cases done.symm.trans result
          refine .engine _ sh next (newSlot entry) move fun w => ?_
          by_cases here : w = worker
          · subst here
            refine ⟨[entry], by simp [queues, queue], fun slot _ => ?_, fun idx token conn member named => ?_⟩
            · cases new : newSlot entry with
              | none => simp [newSlots, new]
              | some taken => simp [newSlots, new, List.count_singleton]
            · cases List.mem_singleton.mp member
              obtain ⟨books, rep⟩ := (inv.lanes sh).rep
              rw [engine] at rep
              cases rep with
              | idle rep =>
                  have usable := (inv.lanes sh).cancels w idx token conn (by simp [queue])
                  exact cancel_pop_answers _ next books w idx token conn rest rep
                    (usable_bound workers idx one sixteen usable) engine
                    queue done named
          · refine ⟨[], by simp [queues, here], fun slot home => ?_, fun _ _ _ member => by simp at member⟩
            have other : newSlot entry ≠ some slot := fun new => by
              have member : slot ∈ newSlots ((s.lanes sh).queues worker) := by simp [queue, newSlots, new]
              exact here (home.symm.trans ((inv.lanes sh).queued worker slot member).home)
            simp [newSlots, other]

theorem exchange_step_move (next : Exchange) (label : Label)
    (step : exchangeStep workers s label = .ok next) :
    Move workers s label next := by
  cases label with
  | accept worker =>
      cases step
      split
      · exact .quiet _ _ rfl rfl rfl rfl ⟨[worker], rfl⟩
      · exact stay_move workers s _
  | close conn =>
      cases step
      split
      · exact .quiet _ _ rfl rfl rfl rfl ⟨[], by simp⟩
      · exact stay_move workers s _
  | enter conn req =>
      cases step
      split
      · rename_i worker ready
        exact enter_move workers s inv conn worker req ready
      · exact stay_move workers s _
  | record worker =>
      cases step
      exact record_move workers one sixteen s inv worker
  | cancel conn req =>
      cases step
      split
      · rename_i worker ready
        unfold Exchange.cancel
        simp only
        split
        · rename_i owned
          exact .cancelling conn worker req _ ready rfl owned.1 owned.2
        · exact stay_move workers s _
      · exact stay_move workers s _
  | push worker =>
      cases step
      exact push_move workers s worker
  | pop sh worker =>
      obtain ⟨lane, done, result⟩ := (checked_bind_eq_ok _ _ _).mp step
      cases result
      exact pop_move workers one sixteen s inv sh worker lane done
  | work sh =>
      obtain ⟨lane, done, result⟩ := (checked_bind_eq_ok _ _ _).mp step
      cases result
      obtain ⟨other, result, _, move, queues⟩ := work_inv workers sh _ _ (inv.lanes sh)
      cases done.symm.trans result
      exact .engine _ sh lane none move fun worker => ⟨[], by simp [queues], by simp [newSlots], by simp⟩

theorem exchange_step_next (next : Exchange) (label : Label)
    (step : exchangeStep workers s label = .ok next) :
    ExchangeInv workers next ∧ Move workers s label next := by
  obtain ⟨other, result, inv'⟩ := exchange_step_inv workers one sixteen s inv label
  cases step.symm.trans result
  exact ⟨inv', exchange_step_move workers one sixteen s inv next label step⟩

end

theorem move_connections (workers : Nat) (s next : Exchange) (label : Label)
    (move : Move workers s label next) :
    ∃ more, next.connections = s.connections ++ more := by
  cases move with
  | quiet _ _ _ _ _ _ connections => exact connections
  | admitted | recorded | cancelling | pushed | engine => exact ⟨[], (List.append_nil _).symm⟩

theorem known_kept (workers : Nat) (s next : Exchange) (label : Label)
    (move : Move workers s label next) (conn worker : Nat)
    (known : s.connections[conn]? = some worker) : next.connections[conn]? = some worker := by
  obtain ⟨more, grown⟩ := move_connections workers s next label move
  rw [grown, List.getElem?_append_left (List.getElem?_eq_some_iff.mp known).1]
  exact known

theorem move_admissions (workers : Nat) (s next : Exchange) (label : Label)
    (move : Move workers s label next) :
    s.admissions ≤ next.admissions := by
  cases move with
  | quiet _ _ _ _ _ admissions _ => exact Nat.le_of_eq admissions.symm
  | admitted => exact Nat.le_succ _
  | recorded | cancelling | pushed | engine => exact Nat.le_refl _

end HftExchange
