import HftExchange.Gateway.AdmissionRules
import HftExchange.System.AdmissionDomain

set_option autoImplicit false

namespace HftExchange

open Base

def shardOfFrame (req : OuchEnterOrder) : Nat := decodeSymbol req.stock % numShards

structure Acceptable (s : Exchange) (worker : Nat) (req : OuchEnterOrder) : Prop where
  valid : ValidEnter req
  room : ∃ slot : Nat, slot / (s.lanes (shardOfFrame req)).pool.sliceCapacity = worker ∧
    (s.lanes (shardOfFrame req)).pool.free slot ≠ 0

structure TakesSlot (s next : Exchange) (conn worker : Nat) (req : OuchEnterOrder) (slot : Slot) : Prop where
  home : slot / (s.lanes (shardOfFrame req)).pool.sliceCapacity = worker
  pool : ∀ other : Nat, (s.lanes (shardOfFrame req)).pool.free other =
    (next.lanes (shardOfFrame req)).pool.free other + if other = slot then 1 else 0
  order : (next.lanes (shardOfFrame req)).shard.shared.order slot =
    { orderOf req (clientIdOf conn) worker with internalId := slot }
  queues : (next.lanes (shardOfFrame req)).queues = (s.lanes (shardOfFrame req)).queues
  others : ∀ sh, sh ≠ shardOfFrame req → next.lanes sh = s.lanes sh
  session : next.session = s.session
  rejects : next.rejects = s.rejects

structure Registers (s next : Exchange) (conn : Nat) (req : OuchEnterOrder) (slot : Slot) : Prop where
  entry : next.session.lookupData (digitsValue req.orderToken) =
    ⟨slot, decodeSymbol req.stock, clientIdOf conn⟩
  cells : ∀ token, token ≠ digitsValue req.orderToken → next.session token = s.session token
  lanes : next.lanes = s.lanes
  rejects : next.rejects = s.rejects

structure Submits (s next : Exchange) (conn worker : Nat) (req : OuchEnterOrder) (slot : Slot) : Prop where
  queue : next.lanes (shardOfFrame req) = (s.lanes (shardOfFrame req)).setQueue worker
    ((s.lanes (shardOfFrame req)).queues worker ++ [⟨.new slot, conn⟩])
  order : (next.lanes (shardOfFrame req)).shard.shared.order slot =
    { orderOf req (clientIdOf conn) worker with internalId := slot }
  others : ∀ sh, sh ≠ shardOfFrame req → next.lanes sh = s.lanes sh
  session : next.session = s.session
  rejects : next.rejects = s.rejects

structure Refuses (s next : Exchange) (worker : Nat) (req : OuchEnterOrder) : Prop where
  report : next.rejects worker = s.rejects worker ++ [rejectOf req]
  others : ∀ other, other ≠ worker → next.rejects other = s.rejects other
  lanes : next.lanes = s.lanes
  session : next.session = s.session
  gateway : next.gateway = s.gateway

def OwnLabel (s : Exchange) (worker : Nat) : Label → Prop
  | .enter conn _ => s.connections[conn]? = some worker
  | .cancel conn _ => s.connections[conn]? = some worker
  | .close conn => s.connections[conn]? = some worker
  | .record other => other = worker
  | .push other => other = worker
  | _ => False

section
variable (labels : Nat → Label) (states : Nat → Exchange)

-- The handler that took a frame at moment n comes to its end with the step at
-- moment m. Of all the steps the worker makes meanwhile three have an effect.
structure Completes (n m conn worker : Nat) (req : OuchEnterOrder) (slot : Slot) : Prop where
  takes : TakesSlot (states n) (states (n + 1)) conn worker req slot
  registers : ∃ r, n < r ∧ r < m ∧ labels r = .record worker ∧
    Registers (states r) (states (r + 1)) conn req slot ∧
    ∀ j, n < j → j < m → j ≠ r → OwnLabel (states j) worker (labels j) → states (j + 1) = states j
  label : labels m = .push worker
  submits : Submits (states m) (states (m + 1)) conn worker req slot

end

-- The gateway of the connection's handler that works on the exchange, when no
-- other thread runs meanwhile.
def exchangeGateway (conn worker : Nat) : Gateway Exchange where
  allocate s req :=
    let o := orderOf req (clientIdOf conn) worker
    let shard := o.instrumentId % numShards
    ((s.lanes shard).admitOrder worker o ⟨conn, s.admissions⟩).map fun (lane, o) =>
      { (s.setLane shard lane).setWorker worker (.allocated conn shard o) with
        admissions := s.admissions + 1 }
  submit s _ := (s.record worker).push worker
  reject s req := s.reject worker req
  cancel s req := (s.cancel conn worker req).push worker

theorem gateway_handles_enter (s : Exchange) (conn worker : Nat) (req : OuchEnterOrder)
    (idle : s.gateway worker = .idle) :
    (exchangeGateway conn worker).handle s (.enter req) =
    ((s.enter conn worker req).record worker).push worker := by
  have refused : ((s.reject worker req).record worker).push worker = s.reject worker req := by
    simp [Exchange.record, Exchange.push, Exchange.reject, idle]
  simp only [Gateway.handle, exchangeGateway, Exchange.enter]
  split
  · cases (s.lanes ((orderOf req (clientIdOf conn) worker).instrumentId % numShards)).admitOrder
      worker (orderOf req (clientIdOf conn) worker)
      ⟨conn, s.admissions⟩ with
    | none => exact refused.symm
    | some result => rfl
  · exact refused.symm

theorem allocate_some_iff (pool : MemoryPool) (valid : pool.Valid) (worker : Nat)
    (member : worker < pool.numWorkers) :
    (pool.allocate worker).isSome = true ↔ ∃ slot : Nat, slot / pool.sliceCapacity = worker ∧
    pool.free slot ≠ 0 := by
  constructor
  · intro some_
    obtain ⟨⟨slot, next⟩, taken⟩ := Option.isSome_iff_exists.mp some_
    obtain ⟨home, _, _, balance⟩ := allocate_spec pool next worker slot valid member taken
    refine ⟨slot, home, ?_⟩
    rw [balance slot, if_pos rfl]
    omega
  · rintro ⟨slot, home, free⟩
    unfold MemoryPool.allocate
    cases queue : pool.recycleQueues worker with
    | cons index rest => rfl
    | nil =>
        have untouched : pool.untouched slot ≠ 0 := by simpa [MemoryPool.free, home, queue] using free
        have mark : pool.highWaterMark worker ≤ slot := by
          unfold MemoryPool.untouched at untouched
          rw [home] at untouched
          by_contra above
          simp [above] at untouched
        have below : slot < (worker + 1) * pool.sliceCapacity := by
          rw [← home, Nat.add_mul, Nat.one_mul]
          exact Nat.lt_div_mul_add valid.positive
        simp [Nat.lt_of_le_of_lt mark below]

section
variable (workers : Nat) (s : Exchange) (inv : ExchangeInv workers s)
include inv

theorem admits_iff (worker : Nat) (member : worker < workers) (req : OuchEnterOrder)
    (complete : req.raw.length = OuchEnterOrder.size) :
    Admits s worker req ↔ Acceptable s worker req := by
  have lane := inv.lanes (shardOfFrame req)
  have slots := allocate_some_iff _ lane.pool worker (lane.slices.2 ▸ member)
  rw [Admits, safe_to_admit_iff req complete]
  exact ⟨fun both => ⟨both.1, slots.mp both.2⟩, fun both => ⟨both.valid, slots.mpr both.room⟩⟩

theorem enter_takes_slot (conn worker : Nat) (req : OuchEnterOrder)
    (ready : s.ready conn = some worker) (admits : Admits s worker req) :
    ∃ slot, TakesSlot s (s.enter conn worker req) conn worker req slot ∧
      (s.enter conn worker req).gateway worker =
        .allocated conn (shardOfFrame req)
        { orderOf req (clientIdOf conn) worker with internalId := slot } := by
  have member : worker < workers :=
    inv.members worker (List.mem_of_getElem? (ready_some s conn worker ready).1)
  have lanes := inv.lanes (shardOfFrame req)
  rcases enter_outcome s conn worker req with ⟨refused, _⟩ | ⟨_, lane, o, taken, _, result⟩
  · exact absurd admits refused
  rw [result]
  unfold Lane.admitOrder at taken
  split at taken
  · cases taken
  rename_i slot pool given
  cases taken
  obtain ⟨home, _, _, balance⟩ := allocate_spec _ pool worker slot lanes.pool (lanes.slices.2 ▸ member) given
  refine ⟨slot, ⟨home, ?_, ?_, ?_, ?_, rfl, rfl⟩, set_worker_worker ..⟩
  · simpa [Exchange.setWorker, Exchange.setLane, shardOfFrame] using balance
  · simp [Exchange.setWorker, Exchange.setLane, shardOfFrame, Shared.construct, Shared.order]
  · simp [Exchange.setWorker, Exchange.setLane, shardOfFrame]
  · intro sh apart
    exact set_lane_other s _ _ sh apart

omit inv in
theorem enter_refuses (conn worker : Nat) (req : OuchEnterOrder) (refused : ¬ Admits s worker req) :
    Refuses s (s.enter conn worker req) worker req := by
  rcases enter_outcome s conn worker req with ⟨_, result⟩ | ⟨admits, _⟩
  · rw [result]
    exact ⟨Function.update_self .., fun other apart => Function.update_of_ne apart .., rfl, rfl, rfl⟩
  · exact absurd admits refused

theorem push_submits (conn worker : Nat) (req : OuchEnterOrder) (slot : Slot)
    (state : s.gateway worker = .recorded conn (shardOfFrame req)
      { orderOf req (clientIdOf conn) worker with internalId := slot })
    (room : ((s.lanes (shardOfFrame req)).queues worker).length + 1 < queueCapacity) :
    Submits s (s.push worker) conn worker req slot := by
  have holds := admitting_held s worker conn _ _ (by rw [state]; rfl)
  have stored := ((inv.lanes (shardOfFrame req)).held worker _ holds).2
  simp only [Exchange.push, state, push_task_room s worker _ _ room]
  refine ⟨set_lane_lane .., ?_, fun sh apart => set_lane_other _ _ _ sh apart, rfl, rfl⟩
  rw [show ((s.setLane (shardOfFrame req) _).setWorker worker .idle).lanes (shardOfFrame req) = _
    from set_lane_lane ..]
  exact stored

theorem record_registers (one : 1 ≤ workers) (sixteen : workers ≤ 16) (conn worker : Nat)
    (req : OuchEnterOrder) (slot : Slot)
    (valid : ValidEnter req)
    (state : s.gateway worker = .allocated conn (shardOfFrame req)
      { orderOf req (clientIdOf conn) worker with internalId := slot }) :
    Registers s (s.record worker) conn req slot := by
  have holds := admitting_held s worker conn _ _ (by rw [state]; rfl)
  obtain ⟨_, idFits, instFits, _⟩ := held_fits workers one sixteen s inv _ worker _ holds
  have token : decodeOrderToken req.orderToken = digitsValue req.orderToken := valid_enter_token req valid
  have session : (s.record worker).session =
      s.session.recordOrder (digitsValue req.orderToken) slot (decodeSymbol req.stock) (clientIdOf conn) := by
    simp [Exchange.record, state, orderOf, token]
  refine ⟨?_, fun other apart => ?_, ?_, ?_⟩
  · rw [session, record_lookup s.session _ slot (decodeSymbol req.stock) _ _ valid.token
      (client_id_bound conn) idFits instFits, if_pos rfl]
  · rw [session, SessionMap.recordOrder, if_pos valid.token, Function.update_of_ne apart]
  · simp [Exchange.record, state, Exchange.setWorker]
  · simp [Exchange.record, state, Exchange.setWorker]

omit inv in
theorem own_step_stays (next : Exchange) (label : Label)
    (step : exchangeStep workers s label = .ok next) (worker conn sh : Nat) (o : Order)
    (own : OwnLabel s worker label)
    (waits : (s.gateway worker = .allocated conn sh o ∧ label ≠ .record worker) ∨
      (s.gateway worker = .recorded conn sh o ∧
        (label ≠ .push worker ∨ ¬ ((s.lanes sh).queues worker).length + 1 < queueCapacity))) : next = s := by
  have busy : s.gateway worker ≠ .idle := by
    rcases waits with ⟨state, _⟩ | ⟨state, _⟩ <;> simp [state]
  have unready : ∀ other, s.connections[other]? = some worker → s.ready other = none := by
    intro other known
    simp [Exchange.ready, known, busy]
  cases label with
  | accept other => exact own.elim
  | pop shard other => exact own.elim
  | work shard => exact own.elim
  | close other =>
      cases step
      simp [unready other own]
  | enter other req =>
      cases step
      simp [unready other own]
  | cancel other req =>
      cases step
      simp [unready other own]
  | record other =>
      obtain rfl : other = worker := own
      cases step
      rcases waits with ⟨_, different⟩ | ⟨state, _⟩
      · exact absurd rfl different
      · simp [Exchange.record, state]
  | push other =>
      obtain rfl : other = worker := own
      cases step
      rcases waits with ⟨state, _⟩ | ⟨state, different | full⟩
      · simp [Exchange.push, state]
      · exact absurd rfl different
      · simp [Exchange.push, state, push_task_full s other sh _ full]

end

section
variable (labels : Nat → Label) (states : Nat → Exchange) (n conn worker : Nat)
  (req : OuchEnterOrder) (slot : Slot)

inductive Stage (m : Nat) : Prop where
  | allocated (state : (states m).gateway worker =
        .allocated conn (shardOfFrame req) { orderOf req (clientIdOf conn) worker with internalId := slot })
      (quiet : ∀ j, n < j → j < m → OwnLabel (states j) worker (labels j) →
        states (j + 1) = states j) : Stage m
  | recorded (state : (states m).gateway worker =
        .recorded conn (shardOfFrame req) { orderOf req (clientIdOf conn) worker with internalId := slot })
      (r : Nat) (after : n < r) (before : r < m) (label : labels r = .record worker)
      (registers : Registers (states r) (states (r + 1)) conn req slot)
      (quiet : ∀ j, n < j → j < m → j ≠ r → OwnLabel (states j) worker (labels j) →
        states (j + 1) = states j) : Stage m

variable (workers : Nat) (one : 1 ≤ workers) (sixteen : workers ≤ 16)
  (trace : Trace workers labels states) (valid : ValidEnter req)
include one sixteen trace valid

theorem stage_step (m : Nat) (later : n < m) (stage : Stage labels states n conn worker req slot m) :
    Stage labels states n conn worker req slot (m + 1) ∨
      ∃ r, n < r ∧ r < m ∧ labels r = .record worker ∧ Registers (states r) (states (r + 1)) conn req slot ∧
        (∀ j, n < j → j < m → j ≠ r → OwnLabel (states j) worker (labels j) → states (j + 1) = states j) ∧
        labels m = .push worker ∧ Submits (states m) (states (m + 1)) conn worker req slot ∧
        (states (m + 1)).gateway worker = .idle := by
  have inv := trace_inv workers one sixteen labels states trace m
  have step := trace.step m
  cases stage with
  | allocated state quiet =>
      rcases allocated_step workers _ _ _ step worker conn _ _ state with ⟨label, next⟩ | ⟨label, next⟩
      · have registers := record_registers workers (states m) inv one sixteen conn worker req slot valid state
        rw [label] at step
        have same : (states m).record worker = states (m + 1) := Except.ok.inj step
        rw [same] at registers
        refine .inl (.recorded next m later (Nat.lt_succ_self m) label registers
          fun j after upTo apart => quiet j after ?_)
        omega
      · refine .inl (.allocated next fun j after upTo own => ?_)
        by_cases here : j = m
        · subst here
          exact own_step_stays workers (states j) _ _ step worker conn _ _ own (.inl ⟨state, label⟩)
        · exact quiet j after (by omega) own
  | recorded state r after before label registers quiet =>
      by_cases ends : labels m = .push worker ∧
        (((states m).lanes (shardOfFrame req)).queues worker).length + 1 < queueCapacity
      · obtain ⟨pushes, room⟩ := ends
        have submits := push_submits workers (states m) inv conn worker req slot state room
        have idle := (recorded_push workers _ _ _ step worker conn _ _ state pushes room).1
        rw [pushes] at step
        have same : (states m).push worker = states (m + 1) := Except.ok.inj step
        rw [same] at submits
        exact .inr ⟨r, after, before, label, registers, quiet, pushes, submits, idle⟩
      · have waits : labels m ≠ .push worker ∨
            ¬ (((states m).lanes (shardOfFrame req)).queues worker).length + 1 < queueCapacity := by
          by_cases pushes : labels m = .push worker
          · exact .inr fun room => ends ⟨pushes, room⟩
          · exact .inl pushes
        have next := recorded_stays workers _ _ _ step worker conn _ _ state waits
        refine .inl (.recorded next r after (by omega) label registers fun j later upTo apart own => ?_)
        by_cases here : j = m
        · subst here
          exact own_step_stays workers (states j) _ _ step worker conn _ _ own (.inr ⟨state, waits⟩)
        · exact quiet j later (by omega) apart own

theorem stage_since (start : Stage labels states n conn worker req slot (n + 1)) (m : Nat) (later : n < m)
    (serving : ∀ j, n < j → j ≤ m → (states j).gateway worker ≠ .idle) :
    Stage labels states n conn worker req slot m := by
  induction m, Nat.succ_le_of_lt later using Nat.le_induction with
  | base => exact start
  | succ m after ih =>
      have before := ih after fun j first upTo => serving j first (by omega)
      rcases stage_step labels states n conn worker req slot workers one sixteen trace valid m after
        before with next | ⟨_, _, _, _, _, _, _, _, idle⟩
      · exact next
      · exact absurd idle (serving (m + 1) (by omega) (Nat.le_refl _))

end

end HftExchange
