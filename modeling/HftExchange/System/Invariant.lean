import HftExchange.System.LaneSteps

set_option autoImplicit false

namespace HftExchange

open Base

def WorkerPc.held (sh : Nat) : WorkerPc → Option Order
  | .allocated _ shard o => if shard = sh then some o else none
  | .recorded _ shard o => if shard = sh then some o else none
  | _ => none

def Exchange.held (s : Exchange) (sh worker : Nat) : Option Order := (s.gateway worker).held sh

def WorkerOk (workers : Nat) (s : Exchange) (worker : Nat) : WorkerPc → Prop
  | .idle => True
  | .allocated conn _ o => s.connections[conn]? = some worker ∧ o.clientId = clientIdOf conn ∧
      o.clientOrderId < maxClientOrders
  | .recorded conn _ o => s.connections[conn]? = some worker ∧ o.clientId = clientIdOf conn ∧
      o.clientOrderId < maxClientOrders
  | .cancelling conn _ idx _ => s.connections[conn]? = some worker ∧ Usable workers idx

structure ExchangeInv (workers : Nat) (s : Exchange) : Prop where
  lanes : ∀ sh, LaneInv workers sh (s.held sh) (s.lanes sh)
  members : ∀ worker ∈ s.connections, worker < workers
  sessions : ∀ token, (s.session.lookupData token).internalId ≠ 0 →
    Usable workers (s.session.lookupData token).internalId
  gateway : ∀ worker, WorkerOk workers s worker (s.gateway worker)

section
variable (s : Exchange) (sh worker : Nat) (lane : Lane) (pc : WorkerPc)

theorem set_lane_lane : (s.setLane sh lane).lanes sh = lane := Function.update_self ..

theorem set_lane_other (other : Nat) (different : other ≠ sh) :
    (s.setLane sh lane).lanes other = s.lanes other :=
  Function.update_of_ne different ..

theorem set_worker_worker : (s.setWorker worker pc).gateway worker = pc := Function.update_self ..

theorem set_worker_other (other : Nat) (different : other ≠ worker) :
    (s.setWorker worker pc).gateway other = s.gateway other :=
  Function.update_of_ne different ..

end

theorem unmoved_worker (At : WorkerPc → Prop) (s : Exchange) (w worker : Nat) (pc : WorkerPc)
    (elsewhere : ¬ At pc)
    (there : At ((s.setWorker w pc).gateway worker)) : worker ≠ w ∧ At (s.gateway worker) := by
  by_cases own : worker = w
  · subst own
    rw [set_worker_worker] at there
    exact absurd there elsewhere
  · rw [set_worker_other _ _ _ worker own] at there
    exact ⟨own, there⟩

theorem held_set_worker (s : Exchange) (worker : Nat) (pc : WorkerPc) (sh : Nat) :
    (s.setWorker worker pc).held sh = Function.update (s.held sh) worker (pc.held sh) := by
  funext w
  by_cases here : w = worker
  · subst here
    simp [Exchange.held, Exchange.setWorker]
  · simp [Exchange.held, Exchange.setWorker, here]

theorem held_same (s : Exchange) (worker : Nat) (pc : WorkerPc) (sh : Nat)
    (same : pc.held sh = (s.gateway worker).held sh) :
    (s.setWorker worker pc).held sh = s.held sh := by
  rw [held_set_worker, same]
  exact Function.update_eq_self ..

theorem client_id_bound (conn : Nat) : clientIdOf conn < 2 ^ 32 := Nat.mod_lt _ (by decide)

theorem record_lookup (map : SessionMap) (token internalId inst client other : Nat)
    (tokenOk : token < maxClientOrders)
    (clientFits : client < 2 ^ 32) (idFits : internalId < 2 ^ 20) (instFits : inst < 2 ^ 8) :
    (map.recordOrder token internalId inst client).lookupData other =
      if other = token then ⟨internalId, inst, client⟩ else map.lookupData other := by
  by_cases same : other = token
  · subst same
    simp only [SessionMap.lookupData, SessionMap.recordOrder, tokenOk, if_true, Function.update_self]
    exact unpack_pack client internalId inst clientFits idFits instFits
  · simp [SessionMap.lookupData, SessionMap.recordOrder, tokenOk, same]

theorem ready_some (s : Exchange) (conn worker : Nat) (ready : s.ready conn = some worker) :
    s.connections[conn]? = some worker ∧ s.closed conn = false ∧ s.gateway worker = .idle := by
  unfold Exchange.ready at ready
  split at ready
  · rename_i owner known
    split at ready
    · rename_i allowed
      cases ready
      exact ⟨known, allowed⟩
    · cases ready
  · cases ready

theorem initial_exchange_inv (workers : Nat) (one : 1 ≤ workers) (sixteen : workers ≤ 16) :
    ExchangeInv workers (.init workers) where
  lanes sh := initial_lane_inv workers sh one sixteen
  members := by simp [Exchange.init]
  sessions token registered := by
    refine absurd ?_ registered
    unfold SessionMap.lookupData
    split
    · rw [show (Exchange.init workers).session token = 0 from rfl, unpack_zero]
    · rfl
  gateway _ := trivial

section
variable (workers : Nat) (one : 1 ≤ workers) (sixteen : workers ≤ 16) (s : Exchange)
  (inv : ExchangeInv workers s)

theorem worker_ok_grow (next : Exchange)
    (grown : ∀ conn worker : Nat, s.connections[conn]? = some worker →
      next.connections[conn]? = some worker)
    (worker : Nat) (pc : WorkerPc) (before : WorkerOk workers s worker pc) :
    WorkerOk workers next worker pc := by
  cases pc with
  | idle => trivial
  | allocated conn sh o => exact ⟨grown _ _ before.1, before.2⟩
  | recorded conn sh o => exact ⟨grown _ _ before.1, before.2⟩
  | cancelling conn sh idx token => exact ⟨grown _ _ before.1, before.2⟩

include inv

theorem accept_inv (worker : Nat) (member : worker < workers) :
    ExchangeInv workers { s with connections := s.connections ++ [worker] } where
  lanes := inv.lanes
  members := by
    intro other inside
    rcases List.mem_append.mp inside with before | last
    · exact inv.members other before
    · exact List.mem_singleton.mp last ▸ member
  sessions := inv.sessions
  gateway other := worker_ok_grow workers s { s with connections := s.connections ++ [worker] }
    (fun conn owner known => by
      obtain ⟨bound, _⟩ := List.getElem?_eq_some_iff.mp known
      rw [List.getElem?_append_left bound]
      exact known) other _ (inv.gateway other)

theorem move_inv (sh worker : Nat) (lane : Lane) (pc : WorkerPc)
    (laneInv : LaneInv workers sh (Function.update (s.held sh) worker (pc.held sh)) lane)
    (others : ∀ other, other ≠ sh → pc.held other = (s.gateway worker).held other)
    (ok : WorkerOk workers s worker pc) :
    ExchangeInv workers ((s.setLane sh lane).setWorker worker pc) where
  lanes other := by
    by_cases here : other = sh
    · subst here
      rw [held_set_worker, show ((s.setLane other lane).setWorker worker pc).lanes other = lane
        from set_lane_lane ..]
      exact laneInv
    · have same : ((s.setLane sh lane).setWorker worker pc).held other = s.held other :=
        held_same (s.setLane sh lane) worker pc other (others other here)
      rw [same, show ((s.setLane sh lane).setWorker worker pc).lanes other = s.lanes other
        from set_lane_other _ _ _ other here]
      exact inv.lanes other
  members := inv.members
  sessions := inv.sessions
  gateway other := by
    by_cases here : other = worker
    · subst here
      rw [set_worker_worker]
      exact worker_ok_grow workers s _ (fun _ _ h => h) other pc ok
    · rw [set_worker_other _ _ _ other here]
      exact worker_ok_grow workers s _ (fun _ _ h => h) other _ (inv.gateway other)

theorem set_lane_inv (sh : Nat) (lane : Lane) (laneInv : LaneInv workers sh (s.held sh) lane) :
    ExchangeInv workers (s.setLane sh lane) where
  lanes other := by
    by_cases here : other = sh
    · subst here
      rw [set_lane_lane]
      exact laneInv
    · rw [set_lane_other _ _ _ other here]
      exact inv.lanes other
  members := inv.members
  sessions := inv.sessions
  gateway other := worker_ok_grow workers s _ (fun _ _ h => h) other _ (inv.gateway other)

theorem enter_inv (conn worker : Nat) (req : OuchEnterOrder) (ready : s.ready conn = some worker) :
    ExchangeInv workers (s.enter conn worker req) := by
  obtain ⟨known, _, idle⟩ := ready_some s conn worker ready
  have member : worker < workers := inv.members worker (List.mem_of_getElem? known)
  have rejected : ExchangeInv workers (s.reject worker req) :=
    ⟨inv.lanes, inv.members, inv.sessions, inv.gateway⟩
  unfold Exchange.enter
  split
  · rename_i safe
    obtain ⟨token, instrument, _⟩ := admitted_order req (clientIdOf conn) worker safe
    simp only
    split
    · exact rejected
    · rename_i lane o taken
      obtain ⟨same, _, laneInv, _⟩ := admit_inv workers _ _ _ (inv.lanes _) worker _ o _ lane member
        (by simp [Exchange.held, idle, WorkerPc.held])
        instrument rfl taken
      have moved := move_inv workers s inv
        ((orderOf req (clientIdOf conn) worker).instrumentId % numShards) worker lane
        (.allocated conn ((orderOf req (clientIdOf conn) worker).instrumentId % numShards) o)
          (by simpa [WorkerPc.held] using laneInv)
        (fun other different => by simp [WorkerPc.held, idle, Ne.symm different])
          ⟨known, by rw [same]; rfl, by rw [same]; exact token⟩
      exact ⟨moved.lanes, moved.members, moved.sessions, moved.gateway⟩
  · exact rejected

include one sixteen

theorem held_fits (sh worker : Nat) (o : Order) (holds : s.held sh worker = some o) :
    Usable workers o.internalId ∧ o.internalId < 2 ^ 20 ∧ o.instrumentId < 2 ^ 8 ∧
    o.instrumentId % numShards = sh := by
  obtain ⟨underway, _⟩ := (inv.lanes sh).held worker o holds
  have present : (s.lanes sh).tally (s.held sh) o.internalId ≠ 0 := by
    rw [Lane.tally, (inv.lanes sh).slices.1, underway.home]
    simp [heldCount, holds]
  have usable := tally_usable workers sh _ _ (inv.lanes sh) o.internalId present
  have bound := usable_bound workers o.internalId one sixteen usable
  exact ⟨usable, Nat.lt_of_lt_of_le bound (by decide), underway.known, underway.routed⟩

theorem record_inv (worker : Nat) : ExchangeInv workers (s.record worker) := by
  unfold Exchange.record
  cases state : s.gateway worker with
  | allocated conn sh o =>
      have ok := inv.gateway worker
      rw [state] at ok
      obtain ⟨known, client, token⟩ := ok
      have holds : s.held sh worker = some o := by simp [Exchange.held, state, WorkerPc.held]
      obtain ⟨usable, idFits, instFits, _⟩ := held_fits workers one sixteen s inv sh worker o holds
      have same : ∀ other, (s.setWorker worker (.recorded conn sh o)).held other = s.held other :=
        fun other => held_same s worker _ other (by rw [state]; rfl)
      refine ⟨fun other => ?_, inv.members, fun other registered => ?_, fun other => ?_⟩
      · exact (same other) ▸ inv.lanes other
      · simp only [record_lookup s.session o.clientOrderId o.internalId o.instrumentId o.clientId other token
          (client ▸ client_id_bound conn) idFits instFits] at registered ⊢
        split
        · exact usable
        · rename_i different
          rw [if_neg different] at registered
          exact inv.sessions other registered
      · by_cases here : other = worker
        · subst here
          simp only [set_worker_worker]
          exact ⟨known, client, token⟩
        · simp only [set_worker_other s worker _ other here]
          exact worker_ok_grow workers s _ (fun _ _ h => h) other _ (inv.gateway other)
  | idle => exact inv
  | recorded conn sh o => exact inv
  | cancelling conn sh idx token => exact inv

omit one sixteen in
theorem cancel_inv (conn worker : Nat) (req : OuchCancelOrder) (ready : s.ready conn = some worker) :
    ExchangeInv workers (s.cancel conn worker req) := by
  obtain ⟨known, _, idle⟩ := ready_some s conn worker ready
  unfold Exchange.cancel
  simp only
  split
  · rename_i owned
    refine ⟨fun sh => ?_, inv.members, inv.sessions, fun other => ?_⟩
    · rw [held_same s worker _ sh (by rw [idle]; rfl)]
      exact inv.lanes sh
    · by_cases here : other = worker
      · subst here
        rw [set_worker_worker]
        exact ⟨known, inv.sessions _ owned.1⟩
      · rw [set_worker_other s worker _ other here]
        exact worker_ok_grow workers s _ (fun _ _ h => h) other _ (inv.gateway other)
  · exact inv

omit one sixteen in
theorem push_inv (worker : Nat) : ExchangeInv workers (s.push worker) := by
  have ok := inv.gateway worker
  unfold Exchange.push
  cases state : s.gateway worker with
  | recorded conn sh o =>
      have holds : s.held sh worker = some o := by simp [Exchange.held, state, WorkerPc.held]
      simp only [Exchange.pushTask]
      split
      · rename_i lane pushed
        obtain ⟨laneInv, _⟩ := push_new_inv workers sh _ _ (inv.lanes sh) worker o conn lane holds pushed
        exact move_inv workers s inv sh worker lane .idle laneInv
          (fun other different => by simp [state, WorkerPc.held, Ne.symm different]) trivial
      · exact inv
  | cancelling conn sh idx token =>
      rw [state] at ok
      simp only [Exchange.pushTask]
      split
      · rename_i lane pushed
        obtain ⟨laneInv, _⟩ := push_cancel_inv workers sh _ _
          (inv.lanes sh) worker idx token conn lane ok.2 pushed
        have free : s.held sh worker = none := by simp [Exchange.held, state, WorkerPc.held]
        refine move_inv workers s inv sh worker lane .idle ?_ (fun other _ => by rw [state]; rfl) trivial
        rw [show Function.update (s.held sh) worker (WorkerPc.held sh .idle) = s.held sh from by
          rw [show WorkerPc.held sh .idle = s.held sh worker from free.symm, Function.update_eq_self]]
        exact laneInv
      · exact inv
  | idle => exact inv
  | allocated conn sh o => exact inv

theorem pop_inv (sh worker : Nat) :
    ∃ next, (s.lanes sh).pop worker = .ok next ∧ LaneInv workers sh (s.held sh) next := by
  cases engine : (s.lanes sh).engine with
  | idle =>
      cases queue : (s.lanes sh).queues worker with
      | nil => exact ⟨s.lanes sh, by simp [Lane.pop, engine, queue], inv.lanes sh⟩
      | cons entry rest =>
          obtain ⟨next, done, laneInv, _⟩ := pop_idle_inv workers sh _ _
            (inv.lanes sh) worker one sixteen entry rest engine queue
          exact ⟨next, done, laneInv⟩
  | matching inst o pc => exact ⟨s.lanes sh, by simp [Lane.pop, engine], inv.lanes sh⟩

theorem exchange_step_inv (label : Label) :
    ∃ next, exchangeStep workers s label = .ok next ∧ ExchangeInv workers next := by
  cases label with
  | accept worker =>
      refine ⟨_, rfl, ?_⟩
      split
      · rename_i member
        exact accept_inv workers s inv worker member
      · exact inv
  | close conn =>
      refine ⟨_, rfl, ?_⟩
      split
      · exact ⟨inv.lanes, inv.members, inv.sessions, inv.gateway⟩
      · exact inv
  | enter conn req =>
      refine ⟨_, rfl, ?_⟩
      split
      · rename_i worker ready
        exact enter_inv workers s inv conn worker req ready
      · exact inv
  | record worker => exact ⟨_, rfl, record_inv workers one sixteen s inv worker⟩
  | cancel conn req =>
      refine ⟨_, rfl, ?_⟩
      split
      · rename_i worker ready
        exact cancel_inv workers s inv conn worker req ready
      · exact inv
  | push worker => exact ⟨_, rfl, push_inv workers s inv worker⟩
  | pop sh worker =>
      obtain ⟨next, done, laneInv⟩ := pop_inv workers one sixteen s inv sh worker
      exact ⟨_, by simp [exchangeStep, done], set_lane_inv workers s inv sh next laneInv⟩
  | work sh =>
      obtain ⟨next, done, laneInv, _⟩ := work_inv workers sh _ _ (inv.lanes sh)
      exact ⟨_, by simp [exchangeStep, done], set_lane_inv workers s inv sh next laneInv⟩

end

theorem exchange_run_inv (workers : Nat) (one : 1 ≤ workers) (sixteen : workers ≤ 16)
    (labels : List Label) (s : Exchange)
    (run : ExchangeRun workers labels s) : ExchangeInv workers s := by
  refine run_invariant (ExchangeInv workers) (initial_exchange_inv workers one sixteen) ?_ labels s run
  rintro state label next inv ⟨_, step⟩
  obtain ⟨other, result, inv'⟩ := exchange_step_inv workers one sixteen state inv label
  cases step.symm.trans result
  exact inv'

end HftExchange
