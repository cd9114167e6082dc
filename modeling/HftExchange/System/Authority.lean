import HftExchange.System.Presence

set_option autoImplicit false

namespace HftExchange

open Base

def Owned (lane : Lane) (part : List Entry) (idx token conn : Nat) : Prop :=
  lane.ahead part idx → (lane.shard.shared.order idx).clientOrderId = token →
    (lane.shard.shared.order idx).clientId = clientIdOf conn

-- A cancel that has not reached its engine: its worker is about to push it, or
-- it is in the queue. The part of the queue before it is all it can meet
-- besides what the engine has now.
def Demand (s : Exchange) (sh worker : Nat) (part : List Entry) (idx token conn : Nat) : Prop :=
  (s.gateway worker = .cancelling conn sh idx token ∧ (s.lanes sh).queues worker = part) ∨
    ∃ after, (s.lanes sh).queues worker = part ++ ⟨.cancel idx token, conn⟩ :: after

def Registered (session : SessionMap) (sh slot : Nat) (o : Order) : Prop :=
  (session.lookupData o.clientOrderId).internalId = slot →
    (session.lookupData o.clientOrderId).instrumentId % numShards = sh →
    (session.lookupData o.clientOrderId).clientId = o.clientId

structure Authority (workers : Nat) (s : Exchange) : Prop where
  sessions : ∀ token, (s.session.lookupData token).internalId ≠ 0 → ∃ conn : Nat,
    s.connections[conn]? = some ((s.session.lookupData token).internalId / sliceOf workers) ∧
      (s.session.lookupData token).clientId = clientIdOf conn
  known : ∀ sh slot o, Recorded workers s sh slot o → Registered s.session sh slot o
  cancels : ∀ sh worker part idx token conn, Demand s sh worker part idx token conn →
    s.connections[conn]? = some worker ∧ idx / sliceOf workers = worker ∧
      Owned (s.lanes sh) part idx token conn

theorem client_id_injective (first second : Nat) (small : first < 2 ^ 32 - 1) (small' : second < 2 ^ 32 - 1)
    (same : clientIdOf first = clientIdOf second) : first = second := by
  simp only [clientIdOf] at same
  omega

theorem initial_authority (workers : Nat) :
    Authority workers (.init workers) where
  sessions token registered := by
    refine absurd ?_ registered
    unfold SessionMap.lookupData
    split
    · rw [show (Exchange.init workers).session token = 0 from rfl, unpack_zero]
    · rfl
  known sh slot o present := by
    rcases present with ⟨worker, conn, state, _⟩ | ⟨ahead, _⟩
    · cases state
    · exact absurd rfl ahead
  cancels sh worker part idx token conn demand := by
    rcases demand with ⟨state, _⟩ | ⟨after, split⟩
    · cases state
    · have empty : ([] : List Entry) = part ++ ⟨.cancel idx token, conn⟩ :: after := split
      simp at empty

theorem append_split {α : Type} (queue before after : List α) (last item : α)
    (same : queue ++ [last] = before ++ item :: after) :
    (before = queue ∧ item = last) ∨ ∃ rest, queue = before ++ item :: rest := by
  rcases List.eq_nil_or_concat after with rfl | ⟨rest, final, rfl⟩
  · obtain ⟨first, second⟩ := List.append_inj' same rfl
    exact .inl ⟨first.symm, (List.singleton_inj.mp second).symm⟩
  · rw [List.concat_eq_append, ← List.cons_append, ← List.append_assoc] at same
    exact .inr ⟨rest, (List.append_inj' same rfl).1⟩

theorem demand_pushed (s : Exchange) (w shard : Nat) (entry : Entry)
    (task : (s.gateway w).task = some (shard, entry)) (sh worker : Nat)
    (part : List Entry) (idx token conn : Nat) (demand : Demand ((s.setLane shard ((s.lanes shard).setQueue w
      ((s.lanes shard).queues w ++ [entry]))).setWorker w .idle) sh worker part idx token conn) :
      Demand s sh worker part idx token conn := by
  rcases demand with ⟨state, same⟩ | ⟨after, split⟩
  · obtain ⟨own, state⟩ := unmoved_worker (fun pc => pc = .cancelling conn sh idx token) _ w worker
      .idle (by simp) state
    refine .inl ⟨state, ?_⟩
    by_cases here : sh = shard
    · subst here
      simpa [Exchange.setWorker, Exchange.setLane, Lane.setQueue, own] using same
    · simpa [Exchange.setWorker, Exchange.setLane, here] using same
  · by_cases here : sh = shard
    · subst here
      simp only [Exchange.setWorker, set_lane_lane, Lane.setQueue] at split
      by_cases own : worker = w
      · subst own
        rw [Function.update_self] at split
        rcases append_split _ _ _ _ _ split with ⟨rfl, rfl⟩ | ⟨rest, whole⟩
        · refine .inl ⟨?_, rfl⟩
          cases state : s.gateway worker with
          | cancelling c sh' i k =>
              rw [state] at task
              cases task
              rfl
          | recorded | idle | allocated =>
              rw [state] at task
              cases task
        · exact .inr ⟨rest, whole⟩
      · rw [Function.update_of_ne own] at split
        exact .inr ⟨after, split⟩
    · simp only [Exchange.setWorker, set_lane_other _ _ _ sh here] at split
      exact .inr ⟨after, split⟩

section
variable (workers : Nat) (s next : Exchange) (label : Label) (inv : ExchangeInv workers s)
  (move : Move workers s label next)

include move in
theorem demand_step (sh worker : Nat) (part : List Entry) (idx token conn : Nat)
    (demand : Demand next sh worker part idx token conn) :
    (∃ before, Demand s sh worker before idx token conn ∧
      (ExchangeInv workers s → idx / sliceOf workers = worker → Owned (s.lanes sh) before idx token conn →
        Owned (next.lanes sh) part idx token conn)) ∨
    ((s.session.lookupData token).internalId = idx ∧
      (s.session.lookupData token).instrumentId % numShards = sh ∧ idx ≠ 0 ∧
      (s.session.lookupData token).clientId = clientIdOf conn ∧ s.connections[conn]? = some worker ∧
      next.lanes = s.lanes ∧
      (s.lanes sh).queues worker = part) := by
  cases move with
  | quiet _ _ lanes session gateway admissions connections =>
      rw [Demand, gateway, lanes] at demand
      rw [lanes]
      exact .inl ⟨part, demand, fun _ _ owned => owned⟩
  | admitted c w req shard r lane ready same lanes =>
      have queues : (next' : Nat) → ((s.setLane shard lane).lanes sh).queues next' =
          (s.lanes sh).queues next' := by
        intro w'
        by_cases here : sh = shard
        · subst here
          rw [set_lane_lane, lanes.queues]
        · rw [set_lane_other _ _ _ sh here]
      have before : Demand s sh worker part idx token conn := by
        rcases demand with ⟨state, rfl⟩ | ⟨after, split⟩
        · exact .inl ⟨(unmoved_worker (fun pc => pc = .cancelling conn sh idx token)
            (s.setLane shard lane) w worker _ (by simp) state).2, (queues worker).symm⟩
        · exact .inr ⟨after, (queues worker).symm.trans split⟩
      refine .inl ⟨part, before, fun inv _ owned present named => ?_⟩
      by_cases here : sh = shard
      · subst here
        simp only [Exchange.setWorker, set_lane_lane] at present named ⊢
        have sub : ∀ entry ∈ part, entry ∈ (s.lanes sh).queues worker := by
          rcases before with ⟨_, rfl⟩ | ⟨after, split⟩
          · exact fun _ h => h
          · rw [split]
            exact fun _ h => List.mem_append_left _ h
        obtain ⟨earlier, order, _⟩ := admit_keeps workers sh _ _ lane
          (inv.lanes sh) r _ lanes worker part idx sub present
        rw [order] at named ⊢
        exact owned earlier named
      · simp only [Exchange.setWorker, set_lane_other _ _ _ sh here] at present named ⊢
        exact owned present named
  | recorded w c shard r state lookup =>
      refine .inl ⟨part, ?_, fun _ _ owned => owned⟩
      rcases demand with ⟨state', same⟩ | split
      · exact .inl ⟨(unmoved_worker (fun pc => pc = .cancelling conn sh idx token) s w worker _
          (by simp) state').2, same⟩
      · exact .inr split
  | cancelling c w req data ready lookup found own =>
      rcases demand with ⟨state, same⟩ | split
      · by_cases here : worker = w
        · subst here
          simp only [set_worker_worker, WorkerPc.cancelling.injEq] at state
          obtain ⟨rfl, rfl, rfl, rfl⟩ := state
          rw [lookup]
          exact .inr ⟨rfl, rfl, found, own, (ready_some s c worker ready).1, rfl, same⟩
        · rw [set_worker_other _ _ _ worker here] at state
          exact .inl ⟨part, .inl ⟨state, same⟩, fun _ _ owned => owned⟩
      · exact .inl ⟨part, .inr split, fun _ _ owned => owned⟩
  | pushed w shard entry task =>
      have keeps : ∀ before, Owned (s.lanes sh) before idx token conn →
          Owned (((s.setLane shard
            ((s.lanes shard).setQueue w ((s.lanes shard).queues w ++ [entry]))).setWorker
            w .idle).lanes sh)
            before idx token conn := by
        intro before owned
        by_cases here : sh = shard
        · subst here
          simp only [Exchange.setWorker, set_lane_lane]
          exact owned
        · simp only [Exchange.setWorker, set_lane_other _ _ _ sh here]
          exact owned
      exact .inl ⟨part, demand_pushed s w shard entry task sh worker part idx token conn demand,
        fun _ _ owned => keeps part owned⟩
  | engine _ shard lane extra move taken =>
      by_cases here : sh = shard
      · subst here
        obtain ⟨front, queue, count, _⟩ := taken worker
        rw [Demand, set_lane_lane] at demand
        rw [set_lane_lane]
        refine .inl ⟨front ++ part, ?_, fun inv home owned present named => ?_⟩
        · rcases demand with ⟨state, rfl⟩ | ⟨after, split⟩
          · exact .inl ⟨state, queue⟩
          · exact .inr ⟨after, by rw [queue, split, List.append_assoc]⟩
        · have whole : ∃ rest, (s.lanes sh).queues worker = front ++ (part ++ rest) := by
            rcases demand with ⟨_, rfl⟩ | ⟨after, split⟩
            · exact ⟨[], by simpa using queue⟩
            · exact ⟨_, by rw [queue, split]⟩
          obtain ⟨rest, whole⟩ := whole
          obtain ⟨earlier, left, order⟩ := move_keeps workers sh _ _ lane
            (inv.lanes sh) extra move worker front part rest idx home whole
            (count idx home) present
          rw [order] at named ⊢
          exact owned earlier named
      · rw [Demand, set_lane_other _ _ _ sh here] at demand
        rw [set_lane_other _ _ _ sh here]
        exact .inl ⟨part, demand, fun _ _ owned => owned⟩

variable (auth : Authority workers s)
include inv move auth

theorem sessions_step (token : Nat) (present : (next.session.lookupData token).internalId ≠ 0) :
    ∃ conn : Nat, next.connections[conn]? = some
    ((next.session.lookupData token).internalId / sliceOf workers) ∧
      (next.session.lookupData token).clientId = clientIdOf conn := by
  cases move with
  | quiet _ _ lanes session gateway admissions connections =>
      rw [session] at present ⊢
      obtain ⟨conn, known, client⟩ := auth.sessions token present
      obtain ⟨more, grown⟩ := connections
      refine ⟨conn, ?_, client⟩
      rw [grown, List.getElem?_append_left (List.getElem?_eq_some_iff.mp known).1]
      exact known
  | recorded worker conn sh o state lookup =>
      simp only [lookup] at present ⊢
      split
      · have ok := inv.gateway worker
        rw [state] at ok
        have holds : s.held sh worker = some o := by simp [Exchange.held, state, WorkerPc.held]
        have home := ((inv.lanes sh).held worker o holds).1.home
        exact ⟨conn, by rw [home]; exact ok.1, ok.2.1⟩
      · rename_i different
        rw [if_neg different] at present
        exact auth.sessions token present
  | admitted | cancelling | pushed | engine => exact auth.sessions token present

theorem registered_step (one : 1 ≤ workers) (sixteen : workers ≤ 16) (sh slot : Nat) (o : Order)
    (present : Recorded workers next sh slot o) :
    Registered next.session sh slot o := by
  have keeps : (∃ before left, Recorded workers s sh slot before ∧ o = { before with quantity := left }) →
      Registered s.session sh slot o := by
    rintro ⟨before, left, earlier, rfl⟩
    exact auth.known sh slot before earlier
  rcases recorded_step workers s next label inv move sh slot o present
    with old | ⟨worker, conn, _, _, rfl, lookup⟩
  · cases move with
    | quiet _ _ lanes session gateway admissions connections =>
        rw [session]
        exact keeps old
    | recorded worker conn shard r state lookup =>
        -- The entry now leads to the slot of r, and no recorded order is in it.
        have holds : s.held shard worker = some r := by simp [Exchange.held, state, WorkerPc.held]
        unfold Registered
        rw [lookup]
        split
        · intro sameSlot sameShard
          exfalso
          obtain ⟨_, _, _, routed⟩ := held_fits workers one sixteen s inv shard worker r holds
          have sameShard : sh = shard := sameShard.symm.trans routed
          have sameSlot : r.internalId = slot := sameSlot
          subst sameShard sameSlot
          obtain ⟨before, _, ⟨w, c, state', self⟩ | ⟨ahead, _⟩, _⟩ := old
          · have home := ((inv.lanes sh).held worker r holds).1.home
            have holds' : s.held sh w = some before := by simp [Exchange.held, state', WorkerPc.held]
            have home' := ((inv.lanes sh).held w before holds').1.home
            rw [self, home] at home'
            rw [← home', state] at state'
            cases state'
          · exact held_apart workers s inv sh worker r holds ahead
        · exact keeps old
    | admitted | cancelling | pushed | engine => exact keeps old
  · intro _ _
    rw [lookup]

theorem cancels_step (few : s.connections.length < 2 ^ 32 - 1) (sh worker : Nat) (part : List Entry)
    (idx token conn : Nat)
    (demand : Demand next sh worker part idx token conn) :
    next.connections[conn]? = some worker ∧ idx / sliceOf workers = worker ∧
    Owned (next.lanes sh) part idx token conn := by
  have kept := known_kept workers s next label move conn worker
  rcases demand_step workers s next label move sh worker part idx token conn demand with
    ⟨before, earlier, keeps⟩ | ⟨rfl, rfl, found, matched, known, lanes, rfl⟩
  · obtain ⟨known, home, owned⟩ := auth.cancels sh worker before idx token conn earlier
    exact ⟨kept known, home, keeps inv home owned⟩
  · -- The lookup finds the slot of an order of the same client, so of the same
    -- connection, so in the slice of the worker that makes the lookup.
    obtain ⟨owner, place, client⟩ := auth.sessions _ found
    have same : owner = conn := by
      have first := (List.getElem?_eq_some_iff.mp place).1
      have second := (List.getElem?_eq_some_iff.mp known).1
      exact client_id_injective owner conn (by omega) (by omega) (client.symm.trans matched)
    have home := Option.some.inj ((same ▸ place).symm.trans known)
    refine ⟨kept known, home, fun present named => ?_⟩
    rw [lanes] at present named ⊢
    have registered := auth.known _ _ _ (.inr ⟨by rw [Exchange.ahead, home]; exact present, rfl⟩)
    rw [Registered, named] at registered
    exact (registered rfl rfl).symm.trans matched

end

theorem exchange_run_authority (workers : Nat) (one : 1 ≤ workers) (sixteen : workers ≤ 16)
    (labels : List Label) (s : Exchange)
    (run : ExchangeRun workers labels s) (few : s.connections.length < 2 ^ 32 - 1) : Authority workers s := by
  refine (run_invariant (fun s => ExchangeInv workers s ∧
    (s.connections.length < 2 ^ 32 - 1 → Authority workers s))
    ⟨initial_exchange_inv workers one sixteen, fun _ => initial_authority workers⟩ ?_ labels s run).2 few
  rintro state label next ⟨inv, auth⟩ ⟨_, step⟩
  obtain ⟨inv', move⟩ := exchange_step_next workers one sixteen state inv next label step
  refine ⟨inv', fun few' => ?_⟩
  have few : state.connections.length < 2 ^ 32 - 1 := by
    obtain ⟨more, grown⟩ := move_connections workers state next label move
    rw [grown, List.length_append] at few'
    omega
  exact ⟨sessions_step workers state next label inv move (auth few),
    registered_step workers state next label inv move (auth few) one sixteen,
    cancels_step workers state next label inv move (auth few) few⟩

end HftExchange
