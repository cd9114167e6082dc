import HftExchange.System.TradingLoop

set_option autoImplicit false

namespace HftExchange

open Base

section
variable (client : Nat)

theorem own_tokens_append (first second : List ShardOp) :
    ownTokens client (first ++ second) = ownTokens client first ++ ownTokens client second :=
  List.filterMap_append

def ofToken (token : Nat) (o : Order) : Bool := o.clientId = client && o.clientOrderId = token

theorem of_token_fixed (token : Nat) : Fixed (ofToken client token) := fun _ _ => rfl

theorem submitted_tokens (token quantity : Nat) (ops : List ShardOp)
    (same : ∀ o, .submit o ∈ ops → ofToken client token o = true → o.quantity = quantity) :
    submittedIn (ofToken client token) ops = quantity * (ownTokens client ops).count token := by
  induction ops with
  | nil => rfl
  | cons op rest ih =>
      have later := ih fun o inside => same o (List.mem_cons_of_mem _ inside)
      rw [submittedIn] at later
      rw [submittedIn, List.map_cons, List.sum_cons, later]
      cases op with
      | cancel idx id => exact Nat.zero_add _
      | submit o =>
          have own := same o List.mem_cons_self
          by_cases mine : o.clientId = client
          · have tokens : ownTokens client (.submit o :: rest) = o.clientOrderId :: ownTokens client rest :=
              List.filterMap_cons_some (if_pos mine)
            by_cases here : o.clientOrderId = token
            · have quantities := own (by simp [ofToken, mine, here])
              rw [tokens, here, List.count_cons_self, ShardOp.submitted, countIf,
                if_pos (by simp [ofToken, mine, here]), quantities]
              ring
            · rw [tokens, List.count_cons_of_ne here, ShardOp.submitted, countIf,
                if_neg (by simp [ofToken, here]), Nat.zero_add]
          · have tokens : ownTokens client (.submit o :: rest) = ownTokens client rest :=
              List.filterMap_cons_none (if_neg mine)
            rw [tokens, ShardOp.submitted, countIf, if_neg (by simp [ofToken, mine]), Nat.zero_add]

end

theorem filled_sum (reports : List FillReport) (id : Nat) :
    filledQty reports id = ((reports : Multiset FillReport).map fun r => if r.orderId = id
      then r.filledQty else 0).sum := by
  induction reports using List.reverseRecOn with
  | nil => rfl
  | append_singleton reports r ih =>
      rw [filled_snoc, ih, ← Multiset.coe_add, Multiset.map_add, Multiset.sum_add]
      simp

theorem token_plain (link : FirmLink) (a : NormalizedOrderAction)
    (small : a.internalOrderId < maxLiveOrders) :
    orderTokenOf link.tokenBase a = link.tokenBase + a.internalOrderId := by
  have slice : link.tokenBase + 3125000 ≤ 50000000 := link.slice
  have live : a.internalOrderId < 1000000 := small
  exact Nat.mod_eq_of_lt (by omega)

def allExecutions (events : Nat → List Event) : Multiset Execution :=
  ∑ s ∈ Finset.range numShards, ↑(executionsIn ((events s).filterMap tradeOf))

section
variable (link : FirmLink) (memory : Nat → Byte) (loop : TradingLoop)

structure LoopAccounts (books : Nat → Nat → Resting) (events : Nat → List Event) : Prop where
  each : ∀ s, s < numShards → RunAccount (Own link loop.firm.dispatched) (loop.ops s)
    (loop.shards s) (books s) (events s)

variable (inv : LoopInv link memory loop)

include inv

theorem firm_tracked : TrackerRep loop.firm ∧ Accounted loop.firm := by
  obtain ⟨labels, run⟩ := inv.accounting
  exact accounting_run labels loop.firm run

theorem dispatched_small (a : NormalizedOrderAction) (inside : a ∈ loop.firm.dispatched) :
    a.internalOrderId < maxLiveOrders :=
  ((firm_tracked link memory loop inv).1.small a (List.mem_append_left _ inside)).1

theorem loop_accounts : ∃ books events, LoopAccounts link loop books events := by
  have each : ∀ s, ∃ books events, s < numShards → RunAccount (Own link loop.firm.dispatched)
      (loop.ops s) (loop.shards s) books events := by
    intro s
    by_cases known : s < numShards
    · obtain ⟨books, events, account⟩ := shard_run_account (Own link loop.firm.dispatched)
        (fun _ _ own => own) s _ _ (inv.engines s known)
        fun state o _ allowed inside => ⟨(inv.screened s known o inside).1, allowed.2.1, fun own => by
          obtain ⟨a, sent, carries⟩ := inv.placed s known o inside own
          refine ⟨a, sent, ?_, carries.instrument, carries.side⟩
          rw [carries.token, token_plain link a (dispatched_small link memory loop inv a sent)]⟩
      exact ⟨books, events, fun _ => account⟩
    · exact ⟨fun _ => [], [], fun inside => absurd inside known⟩
  choose books events accounts using each
  exact ⟨books, events, ⟨accounts⟩⟩

end

section
variable (link : FirmLink) (loop : TradingLoop) (books : Nat → Nat → Resting) (events : Nat → List Event)
  (accounts : LoopAccounts link loop books events)

include accounts

theorem all_reports :
    ∑ s ∈ Finset.range numShards, (ackReports (loop.shards s) : Multiset OutboundAck) =
    (allExecutions events).map Execution.ack := by
  rw [allExecutions, ← Multiset.coe_mapAddMonoidHom, map_sum]
  refine Finset.sum_congr rfl fun s inside => ?_
  rw [ack_reports_executions (accounts.each s (Finset.mem_range.mp inside))]
  rfl

theorem all_known (x : Execution) (member : x ∈ allExecutions events) :
    Own link loop.firm.dispatched x.order ∧ 0 < x.shares := by
  obtain ⟨s, inside, there⟩ := Multiset.mem_sum.mp member
  exact execution_known (accounts.each s (Finset.mem_range.mp inside)) x there

omit accounts in
theorem fill_of_ack (x : Execution) (own : Own link loop.firm.dispatched x.order)
    (mine : x.order.clientId = link.client) :
    (reportFill link.tokenBase x.ack.report).map Fill.report = some (x.fill link.tokenBase) := by
  obtain ⟨small, _, sent⟩ := own
  obtain ⟨a, _, token, _⟩ := sent mine
  have parsed : stoull (encodeOrderToken x.order.clientOrderId) = some x.order.clientOrderId :=
    stoull_token _ (Nat.lt_trans small (by decide))
  have above : link.tokenBase ≤ x.order.clientOrderId := by omega
  rw [reportFill, Execution.ack, executionReport, parsed, Option.bind_some, if_pos above]
  rfl

theorem backed_parts (reports : List FillReport) (backed : Backed link loop reports) :
    ∃ parts ≤ allExecutions events,
    (∀ x ∈ parts, x.order.clientId = link.client) ∧ (reports : Multiset FillReport) = parts.map
    (Execution.fill link.tokenBase) := by
  obtain ⟨acks, mine, less, rfl⟩ := backed
  rw [all_reports link loop books events accounts] at less
  obtain ⟨parts, inside, same⟩ := le_map_parts Execution.ack _ _ less
  have own : ∀ x ∈ parts, x.order.clientId = link.client := fun x member => by
    have pushed := Multiset.mem_map_of_mem Execution.ack member
    rw [same] at pushed
    exact mine x.ack (Multiset.mem_coe.mp pushed)
  refine ⟨parts, inside, own, ?_⟩
  rw [← Multiset.map_coe, fillsOf, ← Multiset.filterMap_coe, ← same, Multiset.filterMap_map,
    Multiset.map_filterMap]
  refine filter_map_all parts _ _ fun x member => ?_
  have known := (all_known link loop books events accounts x (Multiset.mem_of_le inside member)).1
  rw [Function.comp_apply]
  exact fill_of_ack link loop x known (own x member)

end

section
variable (link : FirmLink) (memory : Nat → Byte) (loop : TradingLoop) (inv : LoopInv link memory loop)

include inv

theorem token_action (a b : NormalizedOrderAction) (first : a ∈ loop.firm.dispatched)
    (second : b ∈ loop.firm.dispatched)
    (same : orderTokenOf link.tokenBase a = orderTokenOf link.tokenBase b) : a = b := by
  rw [token_plain link a (dispatched_small link memory loop inv a first),
    token_plain link b (dispatched_small link memory loop inv b second)]
    at same
  exact List.inj_on_of_nodup_map (firm_tracked link memory loop inv).1.distinct
    (List.mem_append_left _ first) (List.mem_append_left _ second)
    (Nat.add_left_cancel same)

theorem submitted_once (a : NormalizedOrderAction) (inside : a ∈ loop.firm.dispatched) :
    ∑ s ∈ Finset.range numShards, submittedIn (ofToken link.client (orderTokenOf link.tokenBase a))
    (loop.ops s) ≤ a.quantity := by
  have each : ∀ s ∈ Finset.range numShards,
    submittedIn (ofToken link.client (orderTokenOf link.tokenBase a)) (loop.ops s) =
      a.quantity * (ownTokens link.client (loop.ops s)).count (orderTokenOf link.tokenBase a) := by
    intro s known
    refine submitted_tokens link.client _ _ (loop.ops s) fun o there mine => ?_
    have own : o.clientId = link.client ∧ o.clientOrderId = orderTokenOf link.tokenBase a :=
      by simpa [ofToken] using mine
    obtain ⟨b, sent, carries⟩ := inv.placed s (Finset.mem_range.mp known) o there own.1
    rw [carries.quantity, token_action link memory loop inv a b inside sent (own.2.symm.trans carries.token)]
  have tokens := Multiset.nodup_iff_count_le_one.mp inv.once (orderTokenOf link.tokenBase a)
  simp only [Multiset.count_sum', Multiset.coe_count] at tokens
  rw [Finset.sum_congr rfl each, ← Finset.mul_sum]
  exact (Nat.mul_le_mul_left _ tokens).trans_eq (Nat.mul_one _)

variable (books : Nat → Nat → Resting) (events : Nat → List Event)
  (accounts : LoopAccounts link loop books events)

include accounts

theorem parts_bounded (parts : Multiset Execution) (less : parts ≤ allExecutions events)
    (mine : ∀ x ∈ parts, x.order.clientId = link.client)
    (a : NormalizedOrderAction) (inside : a ∈ loop.firm.dispatched) :
    ((parts.map (Execution.fill link.tokenBase)).map fun r => if r.orderId = a.internalOrderId
      then r.filledQty else 0).sum ≤ a.quantity := by
  let named (x : Execution) : Nat :=
    countIf (ofToken link.client (orderTokenOf link.tokenBase a)) x.order x.shares
  have token := token_plain link a (dispatched_small link memory loop inv a inside)
  have own : (parts.map (Execution.fill link.tokenBase)).map
    (fun r => if r.orderId = a.internalOrderId then r.filledQty else 0) =
      parts.map named := by
    rw [Multiset.map_map]
    refine Multiset.map_congr rfl fun x member => ?_
    obtain ⟨b, _, number, _⟩ :=
      (all_known link loop books events accounts x (Multiset.mem_of_le less member)).1.2.2
      (mine x member)
    have same : x.order.clientOrderId - link.tokenBase = a.internalOrderId ↔
        x.order.clientOrderId = link.tokenBase + a.internalOrderId := by
      omega
    simp [named, Execution.fill, countIf, ofToken, mine x member, token, same]
  obtain ⟨rest, split⟩ := Multiset.le_iff_exists_add.mp less
  calc ((parts.map (Execution.fill link.tokenBase)).map
        fun r => if r.orderId = a.internalOrderId then r.filledQty else 0).sum
    _ = (parts.map named).sum := by rw [own]
    _ ≤ ((allExecutions events).map named).sum := by
        rw [split, Multiset.map_add, Multiset.sum_add]
        exact Nat.le_add_right _ _
    _ = ∑ s ∈ Finset.range numShards,
      ((executionsIn ((events s).filterMap tradeOf)).map named).sum := sum_parts _ _ _
    _ ≤ ∑ s ∈ Finset.range numShards,
      submittedIn (ofToken link.client (orderTokenOf link.tokenBase a)) (loop.ops s) :=
        Finset.sum_le_sum fun s known => executed_submitted
          (accounts.each s (Finset.mem_range.mp known)) _ (of_token_fixed _ _)
    _ ≤ a.quantity := submitted_once link memory loop inv a inside

end

section
variable (link : FirmLink) (memory : Nat → Byte) (loop : TradingLoop) (inv : LoopInv link memory loop)

include inv

theorem due_allowed (r : FillReport) (member : r ∈ loop.due) :
    1 ≤ r.filledQty ∧ ∃ a ∈ loop.firm.dispatched, a.internalOrderId = r.orderId ∧
    a.instrumentId < maxInstruments ∧ filledQty loop.due r.orderId ≤ a.quantity := by
  obtain ⟨books, events, accounts⟩ := loop_accounts link memory loop inv
  obtain ⟨parts, less, mine, same⟩ := backed_parts link loop books events accounts loop.due inv.backed
  have listed : r ∈ parts.map (Execution.fill link.tokenBase) := same ▸ Multiset.mem_coe.mpr member
  obtain ⟨x, inside, rfl⟩ := Multiset.mem_map.mp listed
  obtain ⟨⟨_, known, sent⟩, positive⟩ := all_known link loop books events accounts x
    (Multiset.mem_of_le less inside)
  obtain ⟨a, dispatched, token, instrument, _⟩ := sent (mine x inside)
  have id : a.internalOrderId = (x.fill link.tokenBase).orderId := by
    rw [Execution.fill, token, Nat.add_sub_cancel_left]
  refine ⟨positive, a, dispatched, id, instrument ▸ known, ?_⟩
  rw [filled_sum, same, ← id]
  exact parts_bounded link memory loop inv books events accounts parts less mine a dispatched

end

theorem execute_begun (s : ExecutionEngine) (a : NormalizedOrderAction) :
    (s.executeAction a).begun = s.begun ∧ (s.executeAction a).dispatched = s.dispatched := by
  unfold ExecutionEngine.executeAction
  cases s.send with
  | idle => dsimp only; split <;> exact ⟨rfl, rfl⟩
  | tracked b | counted b => exact ⟨rfl, rfl⟩

theorem send_begun (s : ExecutionEngine) :
    s.sendStep.begun = s.begun ∧ ∀ a ∈ s.dispatched, a ∈ s.sendStep.dispatched := by
  unfold ExecutionEngine.sendStep
  cases s.send with
  | idle | tracked b => exact ⟨rfl, fun _ inside => inside⟩
  | counted b => exact ⟨rfl, fun _ inside => List.mem_append_left _ inside⟩

theorem report_begun (s : ExecutionEngine) (tracked : TrackerRep s) (r : FillReport)
    (allowed : FirmAllowed s (.report r)) :
    (s.onExecutionReport r).begun = s.begun ++ [r] ∧ (s.onExecutionReport r).dispatched = s.dispatched := by
  rw [report_accepted s tracked r allowed]
  exact ⟨by simp [ExecutionEngine.begun, allowed.1, FillPc.current], rfl⟩

theorem filled_append (first second : List FillReport) (id : Nat) :
    filledQty (first ++ second) id = filledQty first id + filledQty second id := by
  rw [filledQty, List.filter_append, List.map_append, List.sum_append]
  rfl

theorem drain_snoc (tokenBase : Nat) (chunks : List Bytes) (chunk : Bytes)
    (alive : (drainSocket tokenBase chunks).raised = false) :
    drainSocket tokenBase (chunks ++ [chunk]) =
      .after (drainSocket tokenBase chunks).fills (onMessage tokenBase chunk) := by
  induction chunks with
  | nil =>
      have single : drainSocket tokenBase [chunk] = onMessage tokenBase chunk := by
        rw [drainSocket]
        split
        · rfl
        · rename_i alive
          rw [Received.after, drainSocket, List.append_nil, ← Bool.eq_false_iff.mpr alive]
      rw [List.nil_append, single]
      rfl
  | cons first rest ih =>
      rw [drainSocket] at alive
      by_cases raised : (onMessage tokenBase first).raised = true
      · rw [if_pos raised, raised] at alive
        cases alive
      · rw [if_neg raised] at alive
        rw [List.cons_append, drainSocket, drainSocket, if_neg raised, if_neg raised, ih alive]
        simp only [Received.after, List.append_assoc]

section
variable (link : FirmLink) (memory : Nat → Byte) (loop : TradingLoop) (inv : LoopInv link memory loop)

include inv

theorem firm_moved (label : FirmLabel) (firm : ExecutionEngine)
    (allowed : FirmAllowed loop.firm label) (step : firmStep loop.firm label = .ok firm)
    (begun : firm.begun = loop.firm.begun) (grown : ∀ a ∈ loop.firm.dispatched, a ∈ firm.dispatched) :
    LoopInv link memory { loop with firm := firm } := by
  obtain ⟨labels, run⟩ := inv.accounting
  have due : ({ loop with firm := firm } : TradingLoop).due = loop.due := by rw [TradingLoop.due, begun]; rfl
  refine ⟨inv.engines, inv.screened, fun s known o inside own => ?_, inv.once, inv.gateway,
    inv.reported, due ▸ inv.received, inv.small,
    due ▸ inv.backed, labels ++ [label], .snoc labels label loop.firm firm run ⟨allowed, step⟩⟩
  obtain ⟨a, sent, carries⟩ := inv.placed s known o inside own
  exact ⟨a, grown a sent, carries⟩

theorem callback_inv (idle : loop.firm.fill = .idle) (fill : Fill) (rest : List Fill)
    (pending : loop.pending = fill :: rest) :
    LoopInv link memory { loop with firm := loop.firm.onExecutionReport fill.report, pending := rest } := by
  obtain ⟨labels, run⟩ := inv.accounting
  obtain ⟨tracked, accounted⟩ := firm_tracked link memory loop inv
  have reports : loop.due = loop.firm.delivered ++ fill.report :: rest.map Fill.report := by
    simp [TradingLoop.due, pending, ExecutionEngine.begun, idle, FillPc.current]
  obtain ⟨positive, a, sent, id, _, bounded⟩ := due_allowed link memory loop inv fill.report
    (by simp [reports])
  have allowed : FirmAllowed loop.firm (.report fill.report) := by
    refine ⟨idle, positive, a, sent, id, ?_⟩
    rw [reports, filled_append, ← List.singleton_append, filled_append,
      ← List.nil_append [fill.report], filled_snoc, if_pos rfl] at bounded
    omega
  obtain ⟨begun, dispatched⟩ := report_begun loop.firm tracked fill.report allowed
  have due : ({ loop with firm := loop.firm.onExecutionReport fill.report, pending := rest } :
      TradingLoop).due = loop.due := by
    rw [TradingLoop.due, begun, TradingLoop.due, pending, List.map_cons, List.append_assoc,
      List.singleton_append]
  exact ⟨inv.engines, inv.screened, fun s known o inside own =>
    dispatched ▸ inv.placed s known o inside own, inv.once, inv.gateway,
    inv.reported, due ▸ inv.received, inv.small, due ▸ inv.backed, labels ++ [.report fill.report],
    .snoc labels _ loop.firm _ run ⟨allowed, rfl⟩⟩

omit inv in
theorem backed_grown (reports : List FillReport) (next : TradingLoop) (backed : Backed link loop reports)
    (grown : ∀ s, s < numShards →
      (ackReports (loop.shards s)).Sublist (ackReports (next.shards s))) :
    Backed link next reports := by
  obtain ⟨acks, mine, less, same⟩ := backed
  refine ⟨acks, mine, less.trans (Finset.sum_le_sum fun s known => ?_), same⟩
  exact Multiset.coe_le.mpr (grown s (Finset.mem_range.mp known)).subperm

theorem exchange_reports (s : Nat) (known : s < numShards) (op : ShardOp) (next : Shard)
    (step : Guarded ShardAdmissible shardStep (loop.shards s) op next) :
    (ackReports (loop.shards s)).Sublist (ackReports next) := by
  obtain ⟨_, books, rep⟩ := shard_run_rep s _ _ (inv.engines s known)
  obtain ⟨events, _, _, _, _, out⟩ := shard_step_refines _ next books op rep step
  have split : ackSequence next.shared.out = ackSequence (loop.shards s).shared.out ++ ackSequence
      (events.flatMap Event.outputs) := by
    rw [out]
    exact List.filterMap_append
  rw [ackReports, ackReports, split, List.map_append]
  exact List.sublist_append_left _ _

theorem exchange_inv (s : Nat) (known : s < numShards) (op : ShardOp)
    (placed : loop.Placed link op) (next : Shard)
    (step : Guarded ShardAdmissible shardStep (loop.shards s) op next) : LoopInv link memory
      { loop with shards := Function.update loop.shards s next,
                  ops := Function.update loop.ops s (loop.ops s ++ [op]) } := by
  have grown : ∀ t, t < numShards → (ackReports (loop.shards t)).Sublist
      (ackReports (Function.update loop.shards s next t)) := by
    intro t _
    by_cases here : t = s
    · subst here
      rw [Function.update_self]
      exact exchange_reports link memory loop inv t known op next step
    · rw [Function.update_of_ne here]
  -- A task of the shard is an earlier one or this one.
  have tasks : ∀ t o, .submit o ∈ Function.update loop.ops s (loop.ops s ++ [op]) t →
      .submit o ∈ loop.ops t ∨ op = .submit o := by
    intro t o member
    by_cases here : t = s
    · subst here
      rw [Function.update_self] at member
      exact (List.mem_append.mp member).imp_right fun last => (List.mem_singleton.mp last).symm
    · rw [Function.update_of_ne here] at member
      exact .inl member
  refine ⟨fun t small => ?_, fun t small o member => ?_, fun t small o member own => ?_, ?_,
    inv.gateway, fun t small => ?_, inv.received,
    inv.small, backed_grown link loop _ _ inv.backed grown, inv.accounting⟩
  · by_cases here : t = s
    · subst here
      dsimp only
      rw [Function.update_self, Function.update_self]
      exact .snoc _ op _ next (inv.engines t small) step
    · dsimp only
      rw [Function.update_of_ne here, Function.update_of_ne here]
      exact inv.engines t small
  · rcases tasks t o member with before | rfl
    · exact inv.screened t small o before
    · exact ⟨placed.1, placed.2.1⟩
  · rcases tasks t o member with before | rfl
    · exact inv.placed t small o before own
    · exact (placed.2.2 own).1
  · have swapped := sum_update (Finset.range numShards)
      (fun ops => (ownTokens link.client ops : Multiset Nat)) loop.ops s (loop.ops s ++ [op])
      (Finset.mem_range.mpr known)
    rw [own_tokens_append, ← Multiset.coe_add, ← add_assoc, add_right_comm] at swapped
    rw [add_right_cancel swapped]
    have once := inv.once
    cases op with
    | cancel idx token =>
        rwa [show ownTokens link.client [ShardOp.cancel idx token] = [] from rfl,
        Multiset.coe_nil, add_zero]
    | submit o =>
        by_cases own : o.clientId = link.client
        · have fresh := (placed.2.2 own).2
          rw [show ownTokens link.client [ShardOp.submit o] =
            [o.clientOrderId] by simp [ownTokens, own], Multiset.coe_singleton,
            add_comm, Multiset.singleton_add, Multiset.nodup_cons]
          refine ⟨fun member => ?_, once⟩
          obtain ⟨t, small, inside⟩ := Multiset.mem_sum.mp member
          exact fresh t (List.mem_range.mpr (Finset.mem_range.mp small)) (Multiset.mem_coe.mp inside)
        · rwa [show ownTokens link.client [ShardOp.submit o] = [] by simp [ownTokens, own],
            Multiset.coe_nil, add_zero]
  · exact (inv.reported t small).trans (grown t small)

theorem gateway_inv (label : EgressLabel) (allowed : EgressAllowed loop.egress label)
    (reported : loop.Reported label) (next : Egress)
    (step : egressStep memory loop.egress label = .ok next) :
    LoopInv link memory { loop with egress := next, pushed := loop.pushed ++ [label] } := by
  refine ⟨inv.engines, inv.screened, inv.placed, inv.once,
    .snoc _ label _ next inv.gateway ⟨allowed, step⟩, fun s small => ?_, inv.received,
    inv.small, inv.backed, inv.accounting⟩
  have split : acksFrom s (loop.pushed ++ [label]) = acksFrom s loop.pushed ++ acksFrom s [label] :=
    List.filterMap_append
  dsimp only
  rw [split]
  cases label with
  | ack t ack =>
      by_cases here : t = s
      · subst here
        rw [show acksFrom t [EgressLabel.ack t ack] = [ack] by simp [acksFrom]]
        exact reported.2
      · rw [show acksFrom s [EgressLabel.ack t ack] = [] by simp [acksFrom, here], List.append_nil]
        exact inv.reported s small
  | accept fd others | close fd | writable fd answers | drain answers order =>
      rw [show acksFrom s [_] = [] from rfl, List.append_nil]
      exact inv.reported s small

theorem popped_made :
    ((loop.egress.conns link.conn).popped : Multiset OutboundAck) ≤
    ∑ s ∈ Finset.range numShards, ↑(ackReports (loop.shards s)) :=
  (popped_queued memory link.conn loop.pushed loop.egress inv.gateway).trans (Finset.sum_le_sum fun s known =>
    Multiset.coe_le.mpr (inv.reported s (Finset.mem_range.mp known)).subperm)

theorem recv_inv (chunk : Bytes) (receivable : loop.Receivable link chunk) : LoopInv link memory
    { loop with chunks := loop.chunks ++ [chunk], raised := (onMessage link.tokenBase chunk).raised,
                pending := (onMessage link.tokenBase chunk).fills } := by
  obtain ⟨earlier, calm⟩ := Prod.mk.inj inv.received
  rw [receivable.alive] at calm
  have grown := drain_snoc link.tokenBase loop.chunks chunk calm
  have small : ∀ fill ∈ (drainSocket link.tokenBase (loop.chunks ++ [chunk])).fills,
      fill.shares < strayShares := by
    rw [grown]
    exact List.forall_mem_append.mpr ⟨inv.small, receivable.small⟩
  have due : loop.firm.begun = (drainSocket link.tokenBase loop.chunks).fills.map Fill.report := by
    rw [earlier, TradingLoop.due, receivable.handled, List.map_nil, List.append_nil]
  have received : (drainSocket link.tokenBase (loop.chunks ++ [chunk])).fills.map Fill.report =
      loop.firm.begun ++ (onMessage link.tokenBase chunk).fills.map Fill.report := by
    rw [grown, Received.after, List.map_append, due]
  refine ⟨inv.engines, inv.screened, inv.placed, inv.once, inv.gateway, inv.reported, ?_, small,
    ?_, inv.accounting⟩
  · exact Prod.ext received (by rw [grown]; rfl)
  · have formed : ∀ ack ∈ (loop.egress.conns link.conn).popped, ∃ r : AckReport, ack.report = r.report := by
      intro ack member
      obtain ⟨s, known, made⟩ :=
        Multiset.mem_sum.mp (Multiset.mem_of_le (popped_made link memory loop inv) member)
      obtain ⟨⟨worker, report⟩, sequence, rfl⟩ := List.mem_map.mp (Multiset.mem_coe.mp made)
      obtain ⟨output, there, same⟩ := List.mem_filterMap.mp sequence
      have pushed : .ack worker report ∈ (loop.shards s).shared.out := by
        cases output <;> simp_all
      have inside := Finset.mem_range.mp known
      exact shard_ack_report s _ _ (inv.engines s inside) (inv.screened s inside) worker report pushed
    obtain ⟨reports, same, cut⟩ := popped_stream memory loop.pushed loop.egress inv.gateway link.conn formed
    have order := stream_sublist link.tokenBase reports _ (cut _ receivable.sent) small
    rw [expected_acks link.tokenBase _ reports same] at order
    obtain ⟨acks, part, fills⟩ := List.sublist_filterMap_iff.mp order
    refine ⟨acks, fun ack member => ?_,
      (Multiset.coe_le.mpr part.subperm).trans (popped_made link memory loop inv), ?_⟩
    · exact ((egress_run_inv memory _ _ inv.gateway).own link.conn ack (part.subset member)).trans
        receivable.own
    · rw [fillsOf, ← fills, received]
      rfl

theorem loop_step_inv (label : LoopLabel) (allowed : loop.Allowed link label) (next : TradingLoop)
    (step : loop.step link memory label = .ok next) : LoopInv link memory next := by
  cases label with
  | executeAction a =>
      cases step
      obtain ⟨begun, dispatched⟩ := execute_begun loop.firm a
      exact firm_moved link memory loop inv (.executeAction a) _ allowed rfl begun fun b inside =>
        dispatched ▸ inside
  | sendStep =>
      cases step
      obtain ⟨begun, grown⟩ := send_begun loop.firm
      exact firm_moved link memory loop inv .sendStep _ trivial rfl begun grown
  | exchange s op =>
      obtain ⟨shard, moved, result⟩ := (checked_bind_eq_ok _ _ _).mp step
      cases result
      exact exchange_inv link memory loop inv s allowed.1 op allowed.2.2 shard ⟨allowed.2.1, moved⟩
  | gateway label =>
      obtain ⟨egress, moved, result⟩ := (checked_bind_eq_ok _ _ _).mp step
      cases result
      exact gateway_inv link memory loop inv label allowed.1 allowed.2 egress moved
  | recv chunk =>
      cases step
      exact recv_inv link memory loop inv chunk allowed
  | callback =>
      rw [TradingLoop.step] at step
      split at step
      · cases step
        exact inv
      · rename_i fill rest pending
        cases step
        exact callback_inv link memory loop inv allowed fill rest pending
  | fillStep =>
      obtain ⟨firm, moved, result⟩ := (checked_bind_eq_ok _ _ _).mp step
      cases result
      obtain ⟨begun, dispatched, _⟩ := fill_step_keeps loop.firm firm moved
      exact firm_moved link memory loop inv .fillStep firm trivial moved begun fun b inside =>
        dispatched ▸ inside

end

theorem initial_loop_inv (link : FirmLink) (memory : Nat → Byte) : LoopInv link memory .init where
  engines _ _ := .start
  screened _ _ o member := by cases member
  placed _ _ o member := by cases member
  once := by simp [TradingLoop.init, ownTokens]
  gateway := .start
  reported _ _ := List.nil_sublist _
  received := rfl
  small fill member := by cases member
  backed := ⟨[], by simp, Multiset.zero_le _, rfl⟩
  accounting := ⟨[], .start⟩

theorem loop_run_inv (link : FirmLink) (memory : Nat → Byte) (labels : List LoopLabel) (loop : TradingLoop)
    (run : LoopRun link memory labels loop) : LoopInv link memory loop := by
  refine run_invariant (LoopInv link memory) (initial_loop_inv link memory) ?_ labels loop run
  rintro state label next inv ⟨allowed, step⟩
  exact loop_step_inv link memory state inv label allowed next step

section
variable (link : FirmLink) (memory : Nat → Byte) (loop : TradingLoop) (inv : LoopInv link memory loop)

include inv

theorem fill_defined : ∃ firm, loop.firm.fillStep = .ok firm := by
  obtain ⟨tracked, _⟩ := firm_tracked link memory loop inv
  refine fill_step_defined loop.firm tracked fun r state o inside same => ?_
  have member : r ∈ loop.due :=
    List.mem_append_left _ (by simp [ExecutionEngine.begun, state, FillPc.current])
  obtain ⟨_, a, sent, id, known, _⟩ := due_allowed link memory loop inv r member
  have equal := List.inj_on_of_nodup_map tracked.distinct (List.mem_append_left _ inside)
    (List.mem_append_left _ sent) (same.trans id.symm)
  rw [equal]
  exact Nat.lt_trans known (by decide)

end

theorem loop_never_faults (link : FirmLink) (memory : Nat → Byte) (labels : List LoopLabel)
    (loop : TradingLoop)
    (run : LoopRun link memory labels loop) (label : LoopLabel) (allowed : loop.Allowed link label)
    (slots : ∀ s idx token, label = .exchange s (.cancel idx token) → idx < maxOrdersLookup) :
    ∃ next, loop.step link memory label = .ok next ∧ LoopRun link memory (labels ++ [label]) next := by
  have inv := loop_run_inv link memory labels loop run
  have defined : ∃ next, loop.step link memory label = .ok next := by
    cases label with
    | exchange s op =>
        obtain ⟨_, books, rep⟩ := shard_run_rep s _ _ (inv.engines s allowed.1)
        have moved : ∃ next, shardStep (loop.shards s) op = .ok next := by
          cases op with
          | submit o =>
              obtain ⟨next, _, _, result, _⟩ := shard_submit_refines _ books o rep allowed.2.1
              exact ⟨next, result⟩
          | cancel idx token =>
              obtain ⟨next, _, _, result, _⟩ := shard_cancel_refines _ books idx token rep
                (slots s idx token rfl)
              exact ⟨next, result⟩
        obtain ⟨next, result⟩ := moved
        exact ⟨_, by rw [TradingLoop.step, result]; rfl⟩
    | gateway label =>
        obtain ⟨next, result, _⟩ := egress_step_inv memory loop.egress
          (egress_run_inv memory _ _ inv.gateway) label allowed.1
        exact ⟨_, by rw [TradingLoop.step, result]; rfl⟩
    | fillStep =>
        obtain ⟨next, result⟩ := fill_defined link memory loop inv
        exact ⟨_, by rw [TradingLoop.step, result]; rfl⟩
    | callback => cases pending : loop.pending <;> exact ⟨_, by rw [TradingLoop.step, pending]; rfl⟩
    | executeAction a | sendStep | recv chunk => exact ⟨_, rfl⟩
  obtain ⟨next, result⟩ := defined
  exact ⟨next, result, .snoc labels label loop next run ⟨allowed, result⟩⟩

theorem accepted_fill_defined :
    ∃ loop r next, LoopRun soldLink (fun _ => 0)
    (soldLoop.take 13) loop ∧ loop.firm.fill = .accepted r ∧
    loop.step soldLink (fun _ => 0) .fillStep = .ok next := by
  obtain ⟨loop, result⟩ := Option.isSome_iff_exists.mp
    (show (execute (TradingLoop.Allowed soldLink) (TradingLoop.step soldLink fun _ => 0) .init
        (soldLoop.take 13)).isSome = true by
      decide +kernel)
  have begun : (execute (TradingLoop.Allowed soldLink) (TradingLoop.step soldLink fun _ => 0) .init
    (soldLoop.take 13)).map
      (fun loop => loop.firm.fill) = some (.accepted ⟨7, 10, 100⟩) := by decide +kernel
  rw [result] at begun
  have run : LoopRun soldLink (fun _ => 0) (soldLoop.take 13) loop := execute_run _ _ _ _ loop result
  obtain ⟨next, moved, _⟩ := loop_never_faults soldLink (fun _ => 0) _ loop run .fillStep trivial (by simp)
  exact ⟨loop, _, next, run, Option.some.inj begun, moved⟩

end HftExchange
