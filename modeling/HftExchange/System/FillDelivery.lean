import HftExchange.Engine.FieldRanges
import HftExchange.Firm.AckDrain
import HftExchange.Gateway.EgressAcks

set_option autoImplicit false

namespace HftExchange

open Base

def Screened (ops : List ShardOp) : Prop :=
  ∀ o, .submit o ∈ ops → o.clientOrderId < maxClientOrders ∧ o.quantity ≤ riskEngine.maxOrderQty

theorem shard_ack_report (id : Nat) (ops : List ShardOp) (shard : Shard)
    (run : ShardRun (.init id) ops shard) (screened : Screened ops)
    (worker : Nat) (ack : OutboundAck) (member : .ack worker ack ∈ shard.shared.out) :
    ∃ r : AckReport, ack.report = r.report := by
  let Kind (o : Order) : Prop := o.clientOrderId < maxClientOrders ∧
    o.quantity ≤ riskEngine.maxOrderQty ∧ o.price < maxPrice
  obtain ⟨_, events, account⟩ := shard_run_account Kind
    (fun r qty kind => ⟨kind.1, Nat.le_trans (Nat.sub_le _ _) kind.2.1, kind.2.2⟩) id ops shard run
        fun state o _ allowed inside =>
      ⟨(screened o inside).1, (screened o inside).2, allowed.1.2.2.2.1⟩
  rw [account.out] at member
  obtain ⟨event, inside, made⟩ := List.mem_flatMap.mp member
  have live := account.live event inside
  have kinds := account.orders event inside
  cases event with
  | trade taker maker =>
      obtain ⟨takerToken, takerQuantity, _⟩ := kinds taker (by simp [Event.orders])
      obtain ⟨makerToken, _, makerPrice⟩ := kinds maker (by simp [Event.orders])
      have positive : 1 ≤ tradeQty taker maker := live (taker, maker) rfl
      have bounded : tradeQty taker maker ≤ riskEngine.maxOrderQty :=
        Nat.le_trans (trade_qty_le taker maker).1 takerQuantity
      obtain ⟨takers, first, _⟩ := ack_of_report taker maker.price _ 'R' takerToken
        ⟨positive, bounded⟩ makerPrice (.inr rfl)
      obtain ⟨makers, second, _⟩ := ack_of_report maker maker.price _ 'A' makerToken
        ⟨positive, bounded⟩ makerPrice (.inl rfl)
      simp only [Event.outputs, itchOf, dropCopyOf, first, second, List.mem_append, List.mem_cons,
        Output.ack.injEq, reduceCtorEq,
        List.not_mem_nil, or_false, false_or] at made
      rcases made with (⟨_, rfl⟩ | ⟨_, rfl⟩) | released
      · exact ⟨takers, rfl⟩
      · exact ⟨makers, rfl⟩
      · split at released <;> simp at released
  | reject o | rest o | filled o | cancel o => simp [Event.outputs, itchOf, dropCopyOf] at made

def reportFill (tokenBase : Nat) (report : OuchExecutionReport) : Option Fill :=
  (stoull report.orderToken).bind fun tokenVal =>
    if tokenBase ≤ tokenVal then some ⟨tokenVal - tokenBase, report.executedShares,
      report.executionPrice⟩ else none

def fillsOf (tokenBase : Nat) (acks : List OutboundAck) : List Fill := acks.filterMap fun ack =>
    reportFill tokenBase ack.report

theorem expected_acks (tokenBase : Nat) (acks : List OutboundAck) (reports : List AckReport)
    (same : acks.map OutboundAck.report = reports.map AckReport.report) :
    expected tokenBase reports = fillsOf tokenBase acks := by
  have each : ∀ r : AckReport, reportFill tokenBase r.report = fillOf tokenBase r := by
    intro r
    have parsed : stoull (encodeOrderToken r.token) = some r.token :=
      stoull_token r.token (Nat.lt_trans r.tokenOk (by decide))
    rw [reportFill, AckReport.report, parsed]
    rfl
  have calls := congrArg (List.filterMap (reportFill tokenBase)) same
  rw [List.filterMap_map, List.filterMap_map] at calls
  calc expected tokenBase reports
    _ = reports.filterMap (reportFill tokenBase ∘ AckReport.report) :=
        List.filterMap_congr fun r _ => by rw [Function.comp_apply, each r]
    _ = fillsOf tokenBase acks := calls.symm

section
variable (memory : Nat → Byte) (labels : List EgressLabel) (e : Egress)
  (run : EgressRun memory labels e) (k : Nat)
  (formed : ∀ ack ∈ (e.conns k).popped, ∃ r : AckReport, ack.report = r.report)

include run formed

theorem popped_stream :
    ∃ reports : List AckReport, (e.conns k).popped.map OutboundAck.report =
    reports.map AckReport.report ∧
    ∀ bytes, bytes <+: sentBytes (e.conns k).sends → bytes <+: reports.flatMap AckReport.bytes := by
  have known : (e.conns k).popped.map OutboundAck.report ∈ Set.range (List.map AckReport.report) := by
    rw [Set.range_list_map]
    intro report member
    obtain ⟨ack, inside, rfl⟩ := List.mem_map.mp member
    obtain ⟨r, same⟩ := formed ack inside
    exact ⟨r, same.symm⟩
  obtain ⟨reports, same⟩ := known
  have stream : reportBytes (e.conns k).popped = reports.flatMap AckReport.bytes := by
    have bytes := congrArg (List.flatMap OuchExecutionReport.bytes) same
    simp only [List.flatMap_map] at bytes
    exact bytes.symm
  exact ⟨reports, same.symm, fun bytes received =>
    stream ▸ received.trans ((egress_run_inv memory labels e run).cut k).sent⟩

end

theorem stream_sublist (tokenBase : Nat) (reports : List AckReport) (chunks : List Bytes)
    (within : chunks.flatten <+: reports.flatMap AckReport.bytes)
    (small : ∀ fill ∈ (drainSocket tokenBase chunks).fills, fill.shares < strayShares) :
    (drainSocket tokenBase chunks).fills.Sublist (expected tokenBase reports) := by
  have part := drain_sublist tokenBase reports chunks 0 (by rwa [List.drop_zero]) small
  have all := starting_split reports 0 chunks.flatten
  rw [show firstFrom 0 = 0 from rfl, List.drop_zero] at all
  rw [all, expected_append]
  exact part.trans (List.sublist_append_left _ _)

theorem drain_aligned (tokenBase : Nat) (chunks : List Bytes) (reports : List AckReport)
    (within : chunks.flatten <+: reports.flatMap AckReport.bytes)
    (aligned : ∀ chunk ∈ chunks, reportSize ∣ chunk.length) :
    drainSocket tokenBase chunks =
      ⟨expected tokenBase (reports.take (chunks.flatten.length / reportSize)), false⟩ := by
  induction chunks generalizing reports with
  | nil => rfl
  | cons chunk rest ih =>
      obtain ⟨⟨n, count⟩, later⟩ := List.forall_mem_cons.mp aligned
      rw [List.flatten_cons] at within
      have first := on_message_aligned tokenBase reports chunk ((List.prefix_append _ _).trans within)
      have following := prefix_drop (reports.flatMap AckReport.bytes) 0 chunk rest.flatten within
      rw [Nat.zero_add, count, drop_whole] at following
      have whole : (chunk ++ rest.flatten).length / reportSize = n + rest.flatten.length / reportSize := by
        rw [List.length_append, count, Nat.mul_add_div (by decide)]
      have own : chunk.length / reportSize = n := by rw [count, Nat.mul_div_cancel_left n (by decide)]
      rw [drainSocket, first, own, if_neg (Bool.false_ne_true), ih (reports.drop n) following later,
        List.flatten_cons, whole, List.take_add,
        expected_append]
      rfl

-- From the executions of the engines to the calls that the firm's receive
-- thread makes. As long as no fill is of an impossible size, the fills are for
-- reports that the worker took for this connection, in their order, and each is
-- for an execution that an engine reported to its client; a connection that is
-- read at report boundaries misses none of those that were sent.
theorem fills_follow_executions (ops : Nat → List ShardOp) (shards : Nat → Shard)
    (engines : ∀ s, s < numShards → ShardRun (.init s) (ops s) (shards s))
    (screened : ∀ s, s < numShards → Screened (ops s))
    (memory : Nat → Byte) (labels : List EgressLabel) (e : Egress) (run : EgressRun memory labels e)
    (queued : ∀ s ack, .ack s ack ∈ labels → s < numShards ∧
      ∃ worker, .ack worker ack ∈ (shards s).shared.out)
    (k tokenBase : Nat) (chunks : List Bytes) (received : chunks.flatten <+: sentBytes (e.conns k).sends) :
    ∃ reports : List AckReport, (e.conns k).popped.map OutboundAck.report = reports.map AckReport.report ∧
      ((∀ fill ∈ (drainSocket tokenBase chunks).fills, fill.shares < strayShares) →
        (drainSocket tokenBase chunks).fills.Sublist (expected tokenBase reports) ∧
        ∀ fill ∈ (drainSocket tokenBase chunks).fills, ∃ s worker ack, s < numShards ∧
        .ack worker ack ∈ (shards s).shared.out ∧
          ack.clientId = (e.conns k).clientId ∧ ack.report.orderToken = encodeOrderToken
          (tokenBase + fill.orderId) ∧
          ack.report.executedShares = fill.shares ∧ ack.report.executionPrice = fill.price) ∧
      ((∀ chunk ∈ chunks, reportSize ∣ chunk.length) →
        drainSocket tokenBase chunks =
          ⟨expected tokenBase (reports.take (chunks.flatten.length / reportSize)), false⟩) := by
  have inv := egress_run_inv memory labels e run
  have known : ∀ ack ∈ (e.conns k).popped, ∃ s worker, s < numShards ∧
      .ack worker ack ∈ (shards s).shared.out := by
    intro ack member
    obtain ⟨s, _, inside⟩ :=
      Multiset.mem_sum.mp (Multiset.mem_of_le (popped_queued memory k labels e run) member)
    obtain ⟨label, there, from_⟩ := List.mem_filterMap.mp inside
    have pushed : .ack s ack ∈ labels := by
      cases label <;> simp_all
    obtain ⟨small, worker, made⟩ := queued s ack pushed
    exact ⟨s, worker, small, made⟩
  obtain ⟨reports, same, cut⟩ := popped_stream memory labels e run k fun ack inside => by
    obtain ⟨s, worker, small, made⟩ := known ack inside
    exact shard_ack_report s (ops s) (shards s) (engines s small) (screened s small) worker ack made
  refine ⟨reports, same, fun small => ?_, drain_aligned tokenBase chunks reports (cut _ received)⟩
  have order := stream_sublist tokenBase reports chunks (cut _ received) small
  refine ⟨order, fun fill member => ?_⟩
  obtain ⟨r, inside, called⟩ := List.mem_filterMap.mp (order.subset member)
  have there : r.report ∈ (e.conns k).popped.map OutboundAck.report := same ▸ List.mem_map_of_mem inside
  obtain ⟨ack, popped, report⟩ := List.mem_map.mp there
  obtain ⟨s, worker, known', made⟩ := known ack popped
  unfold fillOf at called
  split at called
  · rename_i own
    cases called
    refine ⟨s, worker, ack, known', made, inv.own k ack popped, ?_,
      congrArg OuchExecutionReport.executedShares report,
      congrArg OuchExecutionReport.executionPrice report⟩
    rw [report, AckReport.report, Nat.add_sub_cancel' own]
  · cases called

def soldOps : List ShardOp :=
    [.submit ⟨1, 5, 100, 10, 1, 0, 0, .buy⟩, .submit ⟨2, 1_000_007, 100, 10, 2, 0, 0, .sell⟩]

def soldAcks : List OutboundAck :=
  ((execute ShardAdmissible shardStep (.init 0) soldOps).map fun shard =>
    (ackSequence shard.shared.out).map Prod.snd).getD []

def soldLabels : List EgressLabel :=
  [.accept 7 0, .accept 8 0] ++ soldAcks.map (.ack 0) ++
    [.drain [.sent 32, .sent 20, .again] [7, 8], .writable 8 [.sent 12]]

theorem own_execution_filled :
    ∃ (shards : Nat → Shard) (e : Egress),
    (∀ s, s < numShards → ShardRun (.init s) (if s = 0 then soldOps else []) (shards s)) ∧
    EgressRun (fun _ => 0) soldLabels e ∧
    (drainSocket 1_000_000 [sentBytes (e.conns 1).sends]).fills = [⟨7, 10, 100⟩] ∧
    ∀ fill ∈ (drainSocket 1_000_000 [sentBytes (e.conns 1).sends]).fills, ∃ s worker ack, s < numShards ∧
      .ack worker ack ∈ (shards s).shared.out ∧ ack.clientId = (e.conns 1).clientId := by
  obtain ⟨shard, result⟩ := Option.isSome_iff_exists.mp
    (show (execute ShardAdmissible shardStep (.init 0) soldOps).isSome = true by decide +kernel)
  obtain ⟨e, sent⟩ := Option.isSome_iff_exists.mp
    (show (execute EgressAllowed (egressStep fun _ => 0) .init soldLabels).isSome = true by decide +kernel)
  have shape : (execute EgressAllowed (egressStep fun _ => 0) .init soldLabels).map
      (fun e => drainSocket 1_000_000 [sentBytes (e.conns 1).sends]) =
        some ⟨[⟨7, 10, 100⟩], false⟩ := by decide +kernel
  rw [sent] at shape
  have fills : drainSocket 1_000_000 [sentBytes (e.conns 1).sends] = ⟨[⟨7, 10, 100⟩], false⟩ :=
    Option.some.inj shape
  have engines : ∀ s, s < numShards → ShardRun (.init s) (if s = 0 then soldOps else [])
      (if s = 0 then shard else .init s) := by
    intro s _
    by_cases here : s = 0
    · subst here
      exact execute_run ShardAdmissible shardStep soldOps _ shard result
    · rw [if_neg here, if_neg here]
      exact .start
  have screened : ∀ s, s < numShards → Screened (if s = 0 then soldOps else []) := by
    intro s _
    by_cases here : s = 0
    · subst here
      simp [Screened, soldOps, maxClientOrders, riskEngine]
    · simp [Screened, here]
  have queued : ∀ s ack, .ack s ack ∈ soldLabels → s < numShards ∧
      ∃ worker, .ack worker ack ∈ (if s = 0 then shard else .init s).shared.out := by
    intro s ack member
    have told : s = 0 ∧ ack ∈ soldAcks := by simpa [soldLabels, eq_comm, and_comm] using member
    obtain ⟨rfl, inside⟩ := told
    rw [soldAcks, result] at inside
    obtain ⟨⟨worker, other⟩, made, rfl⟩ := List.mem_map.mp inside
    obtain ⟨output, there, same⟩ := List.mem_filterMap.mp made
    cases output <;> simp_all
    exact ⟨by decide, worker, there⟩
  have run : EgressRun (fun _ => 0) soldLabels e := execute_run _ _ soldLabels _ e sent
  obtain ⟨reports, _, safe, _⟩ := fills_follow_executions _ _ engines screened
    (fun _ => 0) soldLabels e run queued 1 1_000_000
    [sentBytes (e.conns 1).sends] (by rw [List.flatten_singleton])
  have all := (safe (by rw [fills]; decide)).2
  refine ⟨fun s => if s = 0 then shard else .init s, e, engines, run, congrArg Received.fills fills,
    fun fill member => ?_⟩
  obtain ⟨s, worker, ack, small, made, client, _⟩ := all fill member
  exact ⟨s, worker, ack, small, made, client⟩

end HftExchange
