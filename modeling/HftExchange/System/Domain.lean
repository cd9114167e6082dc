import HftExchange.System.Trace

set_option autoImplicit false

namespace HftExchange

open Base

structure InDomain (sh : Nat) (o : Order) : Prop where
  price : o.price < maxPrice
  id : o.internalId < maxOrdersLookup
  known : o.instrumentId < maxInstruments
  routed : o.instrumentId % numShards = sh

def SideAsSent (req : OuchEnterOrder) (o : Order) : Prop :=
  req.side = ascii 'B' ∧ o.side = .buy ∨ req.side = ascii 'S' ∧ o.side = .sell

-- The gateway admits the message: it passes the checks and the pool has a
-- slot for the worker.
def Admits (s : Exchange) (worker : Nat) (req : OuchEnterOrder) : Prop :=
  safeToAdmit req = true ∧ ((s.lanes (decodeSymbol req.stock % numShards)).pool.allocate worker).isSome = true

-- The condition on a step: what the gateway admits has a price on the ladder
-- and one of the two side bytes of the protocol.
def Fits (s : Exchange) : Label → Prop
  | .enter conn req =>
      ∀ worker, s.ready conn = some worker → Admits s worker req →
        req.price < maxPrice ∧ (req.side = ascii 'B' ∨ req.side = ascii 'S')
  | _ => True

section
variable (labels : Nat → Label) (states : Nat → Exchange)

def Takes (n conn worker : Nat) (req : OuchEnterOrder) : Prop :=
  labels n = .enter conn req ∧ (states n).ready conn = some worker

-- Up to moment m the worker has not come back to the loop over its buffer.
def ServesSince (n m conn worker : Nat) (req : OuchEnterOrder) : Prop :=
  Takes labels states n conn worker req ∧ n < m ∧ ∀ j, n < j → j ≤ m → (states j).gateway worker ≠ .idle

structure Enqueues (m worker conn sh : Nat) (o : Order) : Prop where
  label : labels m = .push worker
  hand : (states m).gateway worker = .recorded conn sh o
  pushed : ((states (m + 1)).lanes sh).queues worker = ((states m).lanes sh).queues worker ++
    [⟨.new o.internalId, conn⟩]

def TasksInDomain (m : Nat) : Prop :=
  ∀ worker conn sh o, Enqueues labels states m worker conn sh o →
    ((states m).lanes sh).shard.shared.order o.internalId = o ∧ InDomain sh o ∧
      ∃ n req, ServesSince labels states n m conn worker req ∧
        o = { orderOf req (clientIdOf conn) worker with internalId := o.internalId } ∧
        SideAsSent req o

-- A NEW task that is popped at moment m passes the test of Engine::run and the
-- one at the top of match_order.
def NothingDiscarded (m : Nat) : Prop :=
  ∀ sh worker slot conn rest, labels m = .pop sh worker → ((states m).lanes sh).engine = .idle →
    ((states m).lanes sh).queues worker = ⟨.new slot, conn⟩ :: rest →
    (((states m).lanes sh).shard.shared.order slot).instrumentId < maxInstruments ∧
      ¬ (maxOrdersLookup ≤ (((states m).lanes sh).shard.shared.order slot).internalId ∨
        maxPrice ≤ (((states m).lanes sh).shard.shared.order slot).price)

end

def WorkerPc.admitting : WorkerPc → Option (Nat × Nat × Order)
  | .allocated conn sh o => some (conn, sh, o)
  | .recorded conn sh o => some (conn, sh, o)
  | _ => none

theorem admitting_held (s : Exchange) (worker conn sh : Nat) (o : Order)
    (busy : (s.gateway worker).admitting = some (conn, sh, o)) :
    s.held sh worker = some o := by
  unfold Exchange.held
  cases state : s.gateway worker with
  | idle => simp [state, WorkerPc.admitting] at busy
  | cancelling c shard idx token => simp [state, WorkerPc.admitting] at busy
  | allocated c shard p =>
      simp only [state, WorkerPc.admitting, Option.some.injEq, Prod.mk.injEq] at busy
      obtain ⟨_, rfl, rfl⟩ := busy
      simp [WorkerPc.held]
  | recorded c shard p =>
      simp only [state, WorkerPc.admitting, Option.some.injEq, Prod.mk.injEq] at busy
      obtain ⟨_, rfl, rfl⟩ := busy
      simp [WorkerPc.held]

theorem admit_allocates (lane : Lane) (worker : Nat) (o : Order) (who : Admission) :
    (lane.admitOrder worker o who).isSome = (lane.pool.allocate worker).isSome := by
  unfold Lane.admitOrder
  cases lane.pool.allocate worker <;> rfl

theorem admit_order (lane next : Lane) (worker : Nat) (o built : Order) (who : Admission)
    (taken : lane.admitOrder worker o who = some (next, built)) :
    built = { o with internalId := built.internalId } := by
  unfold Lane.admitOrder at taken
  split at taken
  · cases taken
  · cases taken
    rfl

theorem enter_outcome (s : Exchange) (conn worker : Nat) (req : OuchEnterOrder) :
    (¬ Admits s worker req ∧ s.enter conn worker req = s.reject worker req) ∨
    (Admits s worker req ∧ ∃ lane o, (s.lanes (decodeSymbol req.stock % numShards)).admitOrder
      worker (orderOf req (clientIdOf conn) worker)
        ⟨conn, s.admissions⟩ = some (lane, o) ∧
        o = { orderOf req (clientIdOf conn) worker with internalId := o.internalId } ∧
      s.enter conn worker req = { (s.setLane (decodeSymbol req.stock % numShards) lane).setWorker worker
        (.allocated conn (decodeSymbol req.stock % numShards) o) with admissions := s.admissions + 1 }) := by
  have shard : (orderOf req (clientIdOf conn) worker).instrumentId % numShards =
    decodeSymbol req.stock % numShards := rfl
  by_cases safe : safeToAdmit req = true
  · have same := admit_allocates (s.lanes (decodeSymbol req.stock % numShards)) worker
      (orderOf req (clientIdOf conn) worker)
      ⟨conn, s.admissions⟩
    cases taken : (s.lanes (decodeSymbol req.stock % numShards)).admitOrder worker
      (orderOf req (clientIdOf conn) worker) ⟨conn, s.admissions⟩ with
    | none =>
        rw [taken] at same
        refine .inl ⟨fun admits => absurd (same.trans admits.2) (by simp), ?_⟩
        simp only [Exchange.enter, safe, if_true, shard, taken]
    | some result =>
        obtain ⟨lane, o⟩ := result
        rw [taken] at same
        refine .inr ⟨⟨safe, same.symm⟩, lane, o, rfl, admit_order _ lane worker _ o _ taken, ?_⟩
        simp only [Exchange.enter, safe, if_true, shard, taken]
  · refine .inl ⟨fun admits => safe admits.1, ?_⟩
    simp [Exchange.enter, safe]

section
variable (workers : Nat) (one : 1 ≤ workers) (sixteen : workers ≤ 16)
include one sixteen

theorem admitting_step (s next : Exchange) (label : Label) (inv : ExchangeInv workers s)
    (step : exchangeStep workers s label = .ok next)
    (worker conn sh : Nat) (o : Order) (busy : (next.gateway worker).admitting = some (conn, sh, o)) :
    (s.gateway worker).admitting = some (conn, sh, o) ∨
    ∃ req, label = .enter conn req ∧ s.ready conn = some worker ∧ Admits s worker req ∧
      o = { orderOf req (clientIdOf conn) worker with internalId := o.internalId } := by
  have move := exchange_step_move workers one sixteen s inv next label step
  cases move with
  | quiet _ _ lanes session gateway admissions connections => exact .inl (gateway ▸ busy)
  | engine _ shard lane extra move taken => exact .inl busy
  | recorded w c shard r state lookup =>
      by_cases here : worker = w
      · subst here
        simp only [set_worker_worker, WorkerPc.admitting] at busy
        exact .inl (by rw [state]; exact busy)
      · simp only [set_worker_other _ _ _ worker here] at busy
        exact .inl busy
  | cancelling c w req data ready lookup found own =>
      exact .inl (unmoved_worker (fun pc => pc.admitting = some (conn, sh, o)) s w worker _
        (by simp [WorkerPc.admitting]) busy).2
  | pushed w shard entry task =>
      exact .inl (unmoved_worker (fun pc => pc.admitting = some (conn, sh, o)) (s.setLane shard _) w
        worker _ (by simp [WorkerPc.admitting]) busy).2
  | admitted c w req shard r lane ready same lanes =>
      by_cases here : worker = w
      · subst here
        have idle := (ready_some s c worker ready).2.2
        have admits : Admits s worker req := by
          rcases enter_outcome s c worker req with ⟨_, rejected⟩ | ⟨admits, _⟩
          · simp only [exchangeStep, ready, rejected, checked_pure, Except.ok.injEq] at step
            have moved := congrArg (fun e : Exchange => e.gateway worker) step
            simp [Exchange.reject, Exchange.setWorker, idle] at moved
          · exact admits
        simp only [set_worker_worker, WorkerPc.admitting, Option.some.injEq, Prod.mk.injEq] at busy
        obtain ⟨rfl, rfl, rfl⟩ := busy
        exact .inr ⟨req, rfl, ready, admits, same⟩
      · simp only [set_worker_other _ _ _ worker here] at busy
        exact .inl busy

variable (labels : Nat → Label) (states : Nat → Exchange) (trace : Trace workers labels states)
include trace

theorem admitting_serves (m worker conn sh : Nat) (o : Order)
    (busy : ((states m).gateway worker).admitting = some (conn, sh, o)) :
    ∃ n req, ServesSince labels states n m conn worker req ∧ Admits (states n) worker req ∧
      o = { orderOf req (clientIdOf conn) worker with internalId := o.internalId } := by
  induction m with
  | zero =>
      rw [trace.start] at busy
      cases busy
  | succ m ih =>
      have notIdle : (states (m + 1)).gateway worker ≠ .idle := by
        intro idle
        rw [idle] at busy
        cases busy
      have inv := trace_inv workers one sixteen labels states trace m
      rcases admitting_step workers one sixteen (states m) _ _ inv
        (trace.step m) worker conn sh o busy with before | ⟨req, label, ready, admits, same⟩
      · obtain ⟨n, req, ⟨takes, earlier, since⟩, admits, same⟩ := ih before
        refine ⟨n, req, ⟨takes, by omega, fun j after upTo => ?_⟩, admits, same⟩
        by_cases last : j = m + 1
        · exact last ▸ notIdle
        · exact since j after (by omega)
      · refine ⟨m, req, ⟨⟨label, ready⟩, Nat.lt_succ_self m, fun j after upTo => ?_⟩, admits, same⟩
        rwa [show j = m + 1 by omega]

variable (fits : ∀ n, Fits (states n) (labels n))
include fits

theorem admitting_fits (m worker conn sh : Nat) (o : Order)
    (busy : ((states m).gateway worker).admitting = some (conn, sh, o)) :
    o.price < maxPrice ∧ ∃ n req, ServesSince labels states n m conn worker req ∧
      o = { orderOf req (clientIdOf conn) worker with internalId := o.internalId } ∧ SideAsSent req o := by
  obtain ⟨n, req, serves, admits, same⟩ :=
    admitting_serves workers one sixteen labels states trace m worker conn sh o busy
  have fit := fits n
  rw [serves.1.1] at fit
  obtain ⟨price, side⟩ := fit worker serves.1.2 admits
  have samePrice : o.price = req.price := by rw [same]; rfl
  have sameSide : o.side = sideOf req.side := by rw [same]; rfl
  refine ⟨samePrice ▸ price, n, req, serves, same, ?_⟩
  rw [SideAsSent, sameSide]
  rcases side with buy | sell
  · exact .inl ⟨buy, by rw [buy]; rfl⟩
  · exact .inr ⟨sell, by rw [sell]; rfl⟩

theorem ahead_price (n sh slot : Nat) (present : (states n).ahead workers sh slot) :
    (((states n).lanes sh).shard.shared.order slot).price < maxPrice := by
  induction n with
  | zero =>
      rw [trace.start] at present
      exact absurd rfl present
  | succ n ih =>
      have inv := trace_inv workers one sixteen labels states trace n
      have move := exchange_step_move workers one sixteen (states n) inv _ _ (trace.step n)
      obtain ⟨_, ⟨before, left, order⟩ | ⟨worker, conn, state, _⟩⟩ :=
        ahead_step workers (states n) _ _ inv move sh slot present
      · rw [order]
        exact ih before
      · exact (admitting_fits workers one sixteen labels states trace fits n worker conn sh _
          (by rw [state]; rfl)).1

theorem tasks_in_domain (m : Nat) : TasksInDomain labels states m := by
  intro worker conn sh o enqueues
  have inv := trace_inv workers one sixteen labels states trace m
  have busy : ((states m).gateway worker).admitting = some (conn, sh, o) := by rw [enqueues.hand]; rfl
  have holds := admitting_held (states m) worker conn sh o busy
  obtain ⟨underway, stored⟩ := (inv.lanes sh).held worker o holds
  have usable := (held_fits workers one sixteen (states m) inv sh worker o holds).1
  obtain ⟨price, message⟩ := admitting_fits workers one sixteen labels states trace fits m
    worker conn sh o busy
  exact ⟨stored, ⟨price, usable_bound workers _ one sixteen usable, underway.known, underway.routed⟩, message⟩

theorem nothing_discarded (m : Nat) : NothingDiscarded labels states m := by
  intro sh worker slot conn rest _ _ front
  have inv := (trace_inv workers one sixteen labels states trace m).lanes sh
  have member : slot ∈ newSlots (((states m).lanes sh).queues worker) := by simp [front, newSlots, newSlot]
  have underway := inv.queued worker slot member
  have count := List.count_pos_iff.mpr member
  have present : (states m).ahead workers sh slot := by
    rw [Exchange.ahead, Lane.ahead, underway.home]
    omega
  have usable := tally_usable workers sh _ _ inv slot (by
    rw [Lane.tally, inv.slices.1, underway.home]
    omega)
  have price := ahead_price workers one sixteen labels states trace fits m sh slot present
  refine ⟨underway.known, not_or.mpr ⟨?_, Nat.not_le.mpr price⟩⟩
  rw [underway.self]
  exact Nat.not_le.mpr (usable_bound workers slot one sixteen usable)

end

end HftExchange
