import HftExchange.System.Authority
import HftExchange.System.Domain

set_option autoImplicit false

namespace HftExchange

open Base

def ServedIn (workers : Nat) (labels : List Label) (message : Label) (conn worker : Nat) : Prop :=
  ∃ before after s, labels = before ++ message :: after ∧ ExchangeRun workers before s ∧
    s.ready conn = some worker

def CancelSent (workers : Nat) (labels : List Label) (worker conn token : Nat) : Prop :=
  ∃ req, ServedIn workers labels (.cancel conn req) conn worker ∧ decodeOrderToken req.orderToken = token

def OrderSent (workers : Nat) (labels : List Label) (worker conn : Nat) (o : Order) : Prop :=
  ∃ req left, ServedIn workers labels (.enter conn req) conn worker ∧
    o = { orderOf req (clientIdOf conn) worker with internalId := o.internalId, quantity := left }

structure Requested (workers : Nat) (labels : List Label) (s : Exchange) : Prop where
  cancels : ∀ sh worker part idx token conn, Demand s sh worker part idx token conn →
    CancelSent workers labels worker conn token
  held : ∀ worker conn sh o, (s.gateway worker).admitting = some (conn, sh, o) →
    s.connections[conn]? = some worker ∧ OrderSent workers labels worker conn o
  slots : ∀ sh slot, s.ahead workers sh slot → ((s.lanes sh).shard.shared.order slot).internalId = slot ∧
    ∃ conn worker : Nat, s.connections[conn]? = some worker ∧
      OrderSent workers labels worker conn ((s.lanes sh).shard.shared.order slot)

section
variable (workers : Nat) (labels : List Label) (s next : Exchange) (label : Label)

theorem served_later (message : Label) (conn worker : Nat)
    (served : ServedIn workers labels message conn worker) :
    ServedIn workers (labels ++ [label]) message conn worker := by
  obtain ⟨before, after, t, rfl, run, ready⟩ := served
  exact ⟨before, after ++ [label], t, by simp, run, ready⟩

theorem cancel_sent_later (worker conn token : Nat) (sent : CancelSent workers labels worker conn token) :
    CancelSent workers (labels ++ [label]) worker conn token := by
  obtain ⟨req, served, same⟩ := sent
  exact ⟨req, served_later workers labels label _ conn worker served, same⟩

theorem order_sent_later (worker conn left : Nat) (o : Order)
    (sent : OrderSent workers labels worker conn o) :
    OrderSent workers (labels ++ [label]) worker conn { o with quantity := left } := by
  obtain ⟨req, before, served, same⟩ := sent
  refine ⟨req, left, served_later workers labels label _ conn worker served, ?_⟩
  rw [same]

theorem served_now (conn worker : Nat) (run : ExchangeRun workers labels s)
    (ready : s.ready conn = some worker) :
    ServedIn workers (labels ++ [label]) label conn worker := ⟨labels, [], s, rfl, run, ready⟩

theorem demand_sent (move : Move workers s label next) (sh worker : Nat) (part : List Entry)
    (idx token conn : Nat)
    (demand : Demand next sh worker part idx token conn) :
    (∃ before, Demand s sh worker before idx token conn) ∨
      ∃ req, label = .cancel conn req ∧ s.ready conn = some worker ∧
      decodeOrderToken req.orderToken = token := by
  cases move with
  | quiet _ _ lanes session gateway admissions connections =>
      rw [Demand, gateway, lanes] at demand
      exact .inl ⟨part, demand⟩
  | recorded w c shard r state lookup =>
      refine .inl ⟨part, demand.imp (fun cancelling => ?_) fun queued => queued⟩
      exact ⟨(unmoved_worker (fun pc => pc = .cancelling conn sh idx token) s w worker _ (by simp)
        cancelling.1).2, cancelling.2⟩
  | admitted c w req shard r lane ready same lanes =>
      have queues : (((s.setLane shard lane).setWorker w (.allocated c shard r)).lanes sh).queues =
          (s.lanes sh).queues := by
        by_cases here : sh = shard
        · subst here
          rw [Exchange.setWorker, set_lane_lane, lanes.queues]
        · rw [Exchange.setWorker, set_lane_other s shard lane sh here]
      refine .inl ⟨part, demand.imp (fun cancelling => ?_) fun queued => ?_⟩
      · have before := unmoved_worker (fun pc => pc = .cancelling conn sh idx token)
          (s.setLane shard lane) w worker _ (by simp) cancelling.1
        exact ⟨before.2, (congrFun queues worker).symm.trans cancelling.2⟩
      · obtain ⟨after, split⟩ := queued
        exact ⟨after, (congrFun queues worker).symm.trans split⟩
  | cancelling c w req data ready lookup found own =>
      rcases demand with ⟨state, same⟩ | queued
      · by_cases here : worker = w
        · subst here
          rw [set_worker_worker] at state
          cases state
          exact .inr ⟨req, rfl, ready, rfl⟩
        · rw [set_worker_other _ _ _ worker here] at state
          exact .inl ⟨part, .inl ⟨state, same⟩⟩
      · exact .inl ⟨part, .inr queued⟩
  | pushed w shard entry task =>
      exact .inl ⟨part, demand_pushed s w shard entry task sh worker part idx token conn demand⟩
  | engine _ shard lane extra move taken =>
      by_cases here : sh = shard
      · subst here
        obtain ⟨front, queue, _⟩ := taken worker
        rw [Demand, set_lane_lane] at demand
        rcases demand with ⟨state, same⟩ | ⟨after, split⟩
        · exact .inl ⟨(s.lanes sh).queues worker, .inl ⟨state, rfl⟩⟩
        · exact .inl ⟨front ++ part, .inr ⟨after, by rw [queue, split, List.append_assoc]⟩⟩
      · rw [Demand, set_lane_other s shard lane sh here] at demand
        exact .inl ⟨part, demand⟩

theorem requested_step (one : 1 ≤ workers) (sixteen : workers ≤ 16) (inv : ExchangeInv workers s)
    (run : ExchangeRun workers labels s)
    (before : Requested workers labels s) (step : exchangeStep workers s label = .ok next) :
    Requested workers (labels ++ [label]) next := by
  have move := exchange_step_move workers one sixteen s inv next label step
  have kept := known_kept workers s next label move
  constructor
  · intro sh worker part idx token conn demand
    rcases demand_sent workers s next label move sh worker part idx token conn demand
      with ⟨part, earlier⟩ | ⟨req, rfl, ready, same⟩
    · exact cancel_sent_later workers labels label worker conn token
        (before.cancels sh worker part idx token conn earlier)
    · exact ⟨req, served_now workers labels s _ conn worker run ready, same⟩
  · intro worker conn sh o busy
    rcases admitting_step workers one sixteen s next label inv step worker conn sh o busy
      with earlier | ⟨req, rfl, ready, _, same⟩
    · obtain ⟨known, sent⟩ := before.held worker conn sh o earlier
      exact ⟨kept conn worker known, order_sent_later workers labels label worker conn o.quantity o sent⟩
    · refine ⟨kept conn worker (ready_some s conn worker ready).1, req, o.quantity,
        served_now workers labels s _ conn worker run ready, ?_⟩
      rw [same]
  · intro sh slot present
    obtain ⟨_, ⟨earlier, left, order⟩ | ⟨worker, conn, state, self⟩⟩ :=
      ahead_step workers s next label inv move sh slot present
    · obtain ⟨self, conn, worker, known, sent⟩ := before.slots sh slot earlier
      rw [order]
      exact ⟨self, conn, worker, kept conn worker known,
        order_sent_later workers labels label worker conn left _ sent⟩
    · obtain ⟨known, sent⟩ := before.held worker conn sh _ (by rw [state]; rfl)
      exact ⟨self, conn, worker, kept conn worker known,
        order_sent_later workers labels label worker conn _ _ sent⟩

theorem initial_requested :
    Requested workers [] (.init workers) where
  cancels sh worker part idx token conn demand := by
    rcases demand with ⟨state, _⟩ | ⟨after, split⟩
    · cases state
    · have empty : ([] : List Entry) = part ++ ⟨.cancel idx token, conn⟩ :: after := split
      simp at empty
  held worker conn sh o busy := by cases busy
  slots sh slot present := absurd rfl present

end

theorem exchange_run_requested (workers : Nat) (one : 1 ≤ workers) (sixteen : workers ≤ 16)
    (labels : List Label) (s : Exchange)
    (run : ExchangeRun workers labels s) : Requested workers labels s := by
  induction run with
  | start => exact initial_requested workers
  | snoc labels label state next previous step ih =>
      have inv := exchange_run_inv workers one sixteen labels state previous
      exact requested_step workers labels state next label one sixteen inv previous ih step.2

end HftExchange
