import HftExchange.Gateway.EgressAcks

set_option autoImplicit false

namespace HftExchange

open Base

-- The queues from the engines and, with its shard, every report that has left
-- them, as the labels alone give them.
structure AckFlow where
  queues : Nat → List OutboundAck
  popped : List (Nat × OutboundAck)

namespace AckFlow

def init : AckFlow := ⟨fun _ => [], []⟩

def step (flow : AckFlow) : EgressLabel → AckFlow
  | .ack shard ack => { flow with queues := Function.update flow.queues shard (flow.queues shard ++ [ack]) }
  | .drain _ _ =>
      { queues := fun shard => if shard ∈ List.range numShards then [] else flow.queues shard
        popped := flow.popped ++ (List.range numShards).flatMap fun shard =>
          (flow.queues shard).map (shard, ·) }
  | _ => flow

def after (labels : List EgressLabel) : AckFlow := labels.foldl step init

def fromShard (flow : AckFlow) (shard : Nat) : List OutboundAck :=
    (flow.popped.filter fun pop => pop.1 = shard).map Prod.snd

theorem after_snoc (labels : List EgressLabel) (label : EgressLabel) :
    after (labels ++ [label]) = (after labels).step label := by
  rw [after, List.foldl_append]
  rfl

theorem after_append (labels later : List EgressLabel) :
    ∃ more, (after (labels ++ later)).popped = (after labels).popped ++ more := by
  induction later using List.reverseRecOn with
  | nil => exact ⟨[], by simp⟩
  | append_singleton later label ih =>
      obtain ⟨more, grown⟩ := ih
      rw [← List.append_assoc, after_snoc]
      cases label with
      | drain answers order => exact ⟨_, by rw [step, grown, List.append_assoc]⟩
      | accept | close | writable | ack => exact ⟨more, grown⟩

theorem drained_from (queues : Nat → List OutboundAck) (shard : Nat) (shards : List Nat)
    (distinct : shards.Nodup) :
    ((shards.flatMap fun s => (queues s).map (s, ·)).filter fun pop => pop.1 = shard).map Prod.snd =
      if shard ∈ shards then queues shard else [] := by
  induction shards with
  | nil => rfl
  | cons first rest ih =>
      obtain ⟨fresh, distinct⟩ := List.nodup_cons.mp distinct
      rw [List.flatMap_cons, List.filter_append, List.map_append, ih distinct]
      by_cases here : first = shard
      · subst here
        simp [fresh, List.filter_map, Function.comp_def]
      · simp [here, Ne.symm here, List.filter_map, Function.comp_def]

theorem sent_popped (labels : List EgressLabel) (shard : Nat) :
    acksFrom shard labels = (after labels).fromShard shard ++ (after labels).queues shard := by
  induction labels using List.reverseRecOn with
  | nil => rfl
  | append_singleton labels label ih =>
      have split : acksFrom shard (labels ++ [label]) = acksFrom shard labels ++ acksFrom shard
        [label] := List.filterMap_append
      rw [after_snoc, split, ih]
      cases label with
      | accept | close | writable => exact List.append_nil _
      | ack other ack =>
          by_cases here : other = shard
          · subst here
            simp [step, fromShard, acksFrom]
          · simp [step, fromShard, acksFrom, here, Ne.symm here]
      | drain answers order =>
          have taken := drained_from (after labels).queues shard (List.range numShards) List.nodup_range
          simp only [step, fromShard, List.filter_append, List.map_append, taken]
          split <;> simp [acksFrom]

end AckFlow

def Popping (acks : List OutboundAck) (conn after : Conn) : Prop :=
  after.clientId = conn.clientId ∧ (after.isOpen = true → conn.isOpen = true) ∧
    ∃ taken rest, acks.filter (fun ack => ack.clientId = conn.clientId) = taken ++ rest ∧
      after.popped = conn.popped ++ taken ∧
      (conn.isOpen = false → taken = []) ∧ (after.isOpen = true → rest = [])

theorem undelivered_popping (conn after : Conn) (same : Undelivered conn after) : Popping [] conn after :=
  ⟨same.client, same.opened, [], [], rfl, by simp [same.popped], fun _ => rfl, fun _ => rfl⟩

theorem popping_trans (first second : List OutboundAck) (conn middle after : Conn)
    (before : Popping first conn middle)
    (later : Popping second middle after) : Popping (first ++ second) conn after := by
  obtain ⟨client, opened, taken, rest, split, popped, closed, all⟩ := before
  obtain ⟨client', opened', taken', rest', split', popped', closed', all'⟩ := later
  rw [client] at split'
  refine ⟨client'.trans client, fun live => opened (opened' live), ?_⟩
  cases live : middle.isOpen with
  | true =>
      refine ⟨taken ++ taken', rest', ?_, by rw [popped', popped, List.append_assoc], fun shut => ?_, all'⟩
      · rw [List.filter_append, split, split', all live, List.append_nil, List.append_assoc]
      · rw [opened live] at shut
        cases shut
  | false =>
      have none_ := closed' live
      subst none_
      refine ⟨taken, rest ++ rest', ?_, by rw [popped', popped, List.append_nil], closed, fun live' => ?_⟩
      · rw [List.filter_append, split, split', List.nil_append, List.append_assoc]
      · rw [opened' live'] at live
        cases live

structure Pops (acks : List OutboundAck) (e next : Egress) : Prop where
  accepted : next.accepted = e.accepted
  conns : ∀ k, Popping acks (e.conns k) (next.conns k)

theorem same_acks_pops (e next : Egress) (same : SameAcks e next) : Pops [] e next :=
  ⟨same.accepted, fun k => undelivered_popping _ _ (same.conns k)⟩

theorem pops_trans (first second : List OutboundAck) (e middle next : Egress)
    (before : Pops first e middle) (later : Pops second middle next) :
    Pops (first ++ second) e next :=
  ⟨later.accepted.trans before.accepted, fun k =>
    popping_trans first second _ _ _ (before.conns k) (later.conns k)⟩

theorem log_pop_pops (e : Egress) (ack : OutboundAck) : Pops [ack] e (e.logPop ack) := by
  refine ⟨rfl, fun k => ?_⟩
  by_cases own : (e.conns k).clientId = ack.clientId
  · cases live : (e.conns k).isOpen with
    | true =>
        have logged : (e.logPop ack).conns k =
          { e.conns k with popped := (e.conns k).popped ++ [ack] } :=
          by simp [Egress.logPop, live, own]
        rw [logged]
        exact ⟨rfl, id, [ack], [], by simp [own], rfl, fun shut =>
          absurd (live.symm.trans shut) (by simp), fun _ => rfl⟩
    | false =>
        have logged : (e.logPop ack).conns k = e.conns k := by simp [Egress.logPop, live]
        rw [logged]
        exact ⟨rfl, id, [], [ack], by simp [own], by simp, fun _ => rfl, fun live' =>
          absurd (live.symm.trans live') (by simp)⟩
  · have logged : (e.logPop ack).conns k = e.conns k := by simp [Egress.logPop, own]
    rw [logged]
    exact ⟨rfl, id, [], [], by simp [Ne.symm own], by simp, fun _ => rfl, fun _ => rfl⟩

section
variable (memory : Nat → Byte)

theorem deliver_pops (e next : Egress) (ack : OutboundAck) (done : e.deliver memory ack = .ok next) :
    Pops [ack] e next ∧ next.ackQueues = e.ackQueues := by
  have logged := log_pop_pops e ack
  unfold Egress.deliver at done
  dsimp only at done
  split at done
  · cases done
    exact ⟨logged, rfl⟩
  · rename_i fd found
    have same := send_report_acks _ next fd _ _ done
    have sent := same_acks_pops _ next same
    refine ⟨⟨sent.accepted, fun k => ?_⟩, same.queues⟩
    simpa using popping_trans [ack] [] _ _ _ (logged.conns k) (sent.conns k)

theorem deliver_all_pops (acks : List OutboundAck) (e next : Egress)
    (done : acks.foldlM (Egress.deliver memory) e = .ok next) :
    Pops acks e next ∧ next.ackQueues = e.ackQueues := by
  induction acks generalizing e with
  | nil =>
      cases done
      exact ⟨same_acks_pops next next (SameAcks.refl next), rfl⟩
  | cons ack rest ih =>
      obtain ⟨middle, first, later⟩ := (checked_bind_eq_ok _ _ _).mp done
      obtain ⟨pops, queues⟩ := deliver_pops memory e middle ack first
      obtain ⟨pops', queues'⟩ := ih middle later
      exact ⟨pops_trans [ack] rest e middle next pops pops', queues'.trans queues⟩

theorem drain_shard_pops (e next : Egress) (shard : Nat) (done : e.drainShard memory shard = .ok next) :
    Pops (e.ackQueues shard) e next ∧ next.ackQueues = Function.update e.ackQueues shard [] := by
  obtain ⟨pops, queues⟩ := deliver_all_pops memory _
    { e with ackQueues := Function.update e.ackQueues shard [] } next done
  exact ⟨⟨pops.accepted, pops.conns⟩, queues⟩

theorem drain_shards_pops (shards : List Nat) (distinct : shards.Nodup) (e next : Egress)
    (done : shards.foldlM (Egress.drainShard memory) e = .ok next) :
    Pops (shards.flatMap e.ackQueues) e next ∧ next.ackQueues = fun shard => if shard ∈ shards
      then [] else e.ackQueues shard := by
  induction shards generalizing e with
  | nil =>
      cases done
      exact ⟨same_acks_pops next next (SameAcks.refl next), by simp⟩
  | cons shard rest ih =>
      obtain ⟨fresh, distinct⟩ := List.nodup_cons.mp distinct
      obtain ⟨middle, first, later⟩ := (checked_bind_eq_ok _ _ _).mp done
      obtain ⟨pops, queues⟩ := drain_shard_pops memory e middle shard first
      obtain ⟨pops', queues'⟩ := ih distinct middle later
      have untouched : ∀ other ∈ rest, middle.ackQueues other = e.ackQueues other := by
        intro other member
        have different : other ≠ shard := by
          rintro rfl
          exact fresh member
        rw [queues, Function.update_of_ne different]
      refine ⟨?_, ?_⟩
      · have both := pops_trans _ _ e middle next pops pops'
        rwa [List.flatMap_congr untouched, ← List.flatMap_cons] at both
      · funext other
        rw [queues', queues]
        by_cases here : other = shard
        · subst here
          simp [fresh]
        · simp [here]

theorem flush_entries_pops (order : List Nat) (e next : Egress)
    (done : order.foldlM Egress.flushEntry e = .ok next) : SameAcks e next :=
  checked_foldlM_keeps Egress.flushEntry (SameAcks e) order
    (fun state fd _ after same step => same.trans (flush_entry_acks state after fd step)) e next
      (SameAcks.refl e) done

theorem drain_acks_pops (e next : Egress) (order : List Nat) (done : e.drainAcks memory order = .ok next) :
    Pops ((List.range numShards).flatMap e.ackQueues) e next ∧
      next.ackQueues = fun shard => if shard ∈ List.range numShards then [] else e.ackQueues shard := by
  obtain ⟨middle, drained, flushed⟩ := (checked_bind_eq_ok _ _ _).mp done
  obtain ⟨pops, queues⟩ := drain_shards_pops memory (List.range numShards) List.nodup_range e middle drained
  have same := flush_entries_pops order middle next flushed
  refine ⟨?_, same.queues.trans queues⟩
  simpa using pops_trans _ [] e middle next pops (same_acks_pops middle next same)

end

def acceptCount (labels : List EgressLabel) : Nat :=
  labels.countP fun label => match label with
    | .accept _ _ => true
    | _ => false

def poppedSince (earlier labels : List EgressLabel) (client : Nat) : List OutboundAck :=
  (((AckFlow.after labels).popped.drop (AckFlow.after earlier).popped.length).map Prod.snd).filter
    fun ack => ack.clientId = client

-- Connection k since it was accepted: what was popped for it is what the
-- queues have given up for its client, as long as it is open.
def LoggedSince (labels : List EgressLabel) (k : Nat) (conn : Conn) : Prop :=
  ∃ earlier fd others later, labels = earlier ++ .accept fd others :: later ∧ acceptCount earlier = k ∧
    ∃ rest, poppedSince earlier labels conn.clientId = conn.popped ++ rest ∧ (conn.isOpen = true → rest = [])

structure FlowInv (labels : List EgressLabel) (e : Egress) : Prop where
  queues : e.ackQueues = (AckFlow.after labels).queues
  accepted : e.accepted = acceptCount labels
  logged : ∀ k, k < e.accepted → LoggedSince labels k (e.conns k)

section
variable (labels : List EgressLabel) (label : EgressLabel)

theorem popped_since_snoc (earlier later : List EgressLabel) (client : Nat) (acks : List (Nat × OutboundAck))
    (more : (AckFlow.after (earlier ++ later ++ [label])).popped =
      (AckFlow.after (earlier ++ later)).popped ++ acks) :
    poppedSince earlier (earlier ++ later ++ [label]) client =
      poppedSince earlier (earlier ++ later) client ++ (acks.map Prod.snd).filter fun ack =>
        ack.clientId = client := by
  obtain ⟨middle, grown⟩ := AckFlow.after_append earlier later
  rw [poppedSince, poppedSince, more, grown, List.append_assoc, List.drop_left, List.drop_left,
    List.map_append, List.filter_append]

theorem logged_snoc (k : Nat) (conn after : Conn) (acks : List (Nat × OutboundAck))
    (more : (AckFlow.after (labels ++ [label])).popped = (AckFlow.after labels).popped ++ acks)
    (popping : Popping (acks.map Prod.snd) conn after) (logged : LoggedSince labels k conn) :
    LoggedSince (labels ++ [label]) k after := by
  obtain ⟨earlier, fd, others, later, rfl, count, rest, same, all⟩ := logged
  obtain ⟨client, opened, taken, left, split, popped, closed, complete⟩ := popping
  refine ⟨earlier, fd, others, later ++ [label], by simp, count, ?_⟩
  have since := popped_since_snoc label earlier (.accept fd others :: later) after.clientId acks more
  rw [client] at since
  rw [client, since, same, popped, split]
  cases live : conn.isOpen with
  | true =>
      refine ⟨left, ?_, complete⟩
      rw [all live, List.append_nil, List.append_assoc]
  | false =>
      refine ⟨rest ++ left, ?_, fun live' => absurd (opened live') (by simp [live])⟩
      rw [closed live, List.nil_append, List.append_nil, List.append_assoc]

theorem flow_snoc (e next : Egress) (acks : List (Nat × OutboundAck)) (inv : FlowInv labels e)
    (queues : next.ackQueues = (AckFlow.after (labels ++ [label])).queues) (accepts : acceptCount [label] = 0)
    (more : (AckFlow.after (labels ++ [label])).popped = (AckFlow.after labels).popped ++ acks)
    (pops : Pops (acks.map Prod.snd) e next) : FlowInv (labels ++ [label]) next := by
  refine ⟨queues, ?_, fun k known => ?_⟩
  · rw [pops.accepted, inv.accepted, acceptCount, acceptCount, List.countP_append]
    exact (Nat.add_eq_left.mpr accepts).symm
  · exact logged_snoc labels label k _ _ acks more (pops.conns k) (inv.logged k (pops.accepted ▸ known))

theorem flow_accept (memory : Nat → Byte) (e : Egress) (inv : FlowInv labels e) (fd others : Nat) :
    FlowInv (labels ++ [.accept fd others]) (e.accept memory fd others) := by
  have flow := AckFlow.after_snoc labels (.accept fd others)
  refine ⟨?_, ?_, fun k known => ?_⟩
  · rw [flow]
    exact inv.queues
  · rw [acceptCount, List.countP_append]
    exact congrArg (· + 1) inv.accepted
  · by_cases here : k = e.accepted
    · subst here
      refine ⟨labels, fd, others, [], rfl, inv.accepted.symm, [], ?_, fun _ => rfl⟩
      rw [poppedSince, flow]
      simp [AckFlow.step, Egress.accept, Egress.setState]
    · have old : (e.accept memory fd others).conns k = e.conns k := by
        simp [Egress.accept, Egress.setState, here]
      have before : k < e.accepted := by
        simp only [Egress.accept] at known
        omega
      rw [old]
      exact logged_snoc labels _ k _ _ [] (by rw [flow, List.append_nil]; rfl)
        (undelivered_popping _ _ (undelivered_refl _)) (inv.logged k before)

theorem flow_step (memory : Nat → Byte) (e next : Egress) (inv : FlowInv labels e)
    (step : egressStep memory e label = .ok next) :
    FlowInv (labels ++ [label]) next := by
  have unchanged : AckFlow.after (labels ++ [label]) = AckFlow.after labels →
    acceptCount [label] = 0 → SameAcks e next →
      FlowInv (labels ++ [label]) next := by
    intro flow accepts same
    refine flow_snoc labels label e next [] inv ?_ accepts (by rw [flow, List.append_nil])
      (same_acks_pops e next same)
    rw [flow, same.queues, inv.queues]
  cases label with
  | accept fd others =>
      cases step
      exact flow_accept labels memory e inv fd others
  | close fd =>
      cases step
      refine unchanged (AckFlow.after_snoc labels _) rfl ?_
      split
      · exact close_client_acks e fd
      · exact SameAcks.refl e
  | writable fd answers =>
      refine unchanged (AckFlow.after_snoc labels _) rfl ?_
      simp only [egressStep] at step
      split at step
      · have same := flush_or_close_acks _ next fd _ step
        exact ⟨same.queues, same.accepted, same.conns⟩
      · cases step
        exact SameAcks.refl e
  | drain answers order =>
      obtain ⟨pops, queues⟩ := drain_acks_pops memory { e with answers := answers } next order step
      have flow := AckFlow.after_snoc labels (.drain answers order)
      refine flow_snoc labels _ e next ((List.range numShards).flatMap fun shard =>
        ((AckFlow.after labels).queues shard).map (shard, ·)) inv
        ?_ rfl (by rw [flow]; rfl) ?_
      · rw [flow, queues, inv.queues]
        rfl
      · refine ⟨pops.accepted, fun k => ?_⟩
        have each := pops.conns k
        rw [inv.queues] at each
        simpa [List.map_flatMap, Function.comp_def] using each
  | ack shard ack =>
      cases step
      have flow := AckFlow.after_snoc labels (.ack shard ack)
      refine flow_snoc labels _ e _ [] inv ?_ rfl (by rw [flow, List.append_nil]; rfl) ⟨rfl, fun k => ?_⟩
      · rw [flow, AckFlow.step, ← inv.queues]
      · exact undelivered_popping _ _ (undelivered_refl _)

end

theorem egress_run_flow (memory : Nat → Byte) (labels : List EgressLabel) (e : Egress)
    (run : EgressRun memory labels e) :
    FlowInv labels e := by
  induction run with
  | start => exact ⟨rfl, rfl, fun k known => absurd known (Nat.not_lt_zero k)⟩
  | snoc labels label state next _ step ih => exact flow_step labels label memory state next ih step.2

-- In every interleaving: the two maps are inverse; every socket has got a
-- prefix of the reports popped for its own client, and of an open connection
-- the rest is in its buffer. What was popped for a connection is what has left
-- the queues for its client since it was accepted, and each queue has lost only
-- what was popped.
theorem egress_is_faithful (memory : Nat → Byte) (labels : List EgressLabel) (e : Egress)
    (run : EgressRun memory labels e) :
    (∀ fd c, (∃ st, e.clientStates fd = some st ∧ st.clientId = c) ↔ e.fdByClient c = some fd) ∧
    (∀ k, sentBytes (e.conns k).sends <+: reportBytes (e.conns k).popped ∧
      (∀ ack ∈ (e.conns k).popped, ack.clientId = (e.conns k).clientId) ∧
      ∀ before after, (e.conns k).sends = before ++ SendEvent.error :: after → after = []) ∧
    (∀ k, (e.conns k).isOpen = true → ∃ fd st, e.table fd = some k ∧ e.clientStates fd = some st ∧
      st.clientId = (e.conns k).clientId ∧
      sentBytes (e.conns k).sends ++ block st.outBuf 0 st.outLen = reportBytes (e.conns k).popped) ∧
    (∀ fd st, e.clientStates fd = some st → st.outLen ≤ outBufCap ∧
      ∃ k, e.table fd = some k ∧ (e.conns k).isOpen = true ∧ SendEvent.error ∉ (e.conns k).sends) ∧
    (∀ first second, first < e.accepted → second < e.accepted →
      (e.conns first).clientId = (e.conns second).clientId → first = second) ∧
    (∀ shard, acksFrom shard labels = (AckFlow.after labels).fromShard shard ++ e.ackQueues shard) ∧
    e.accepted = acceptCount labels ∧ (∀ k, k < e.accepted → LoggedSince labels k (e.conns k)) ∧
    ∀ label, EgressAllowed e label → ∃ next, egressStep memory e label = .ok next := by
  have inv := egress_run_inv memory labels e run
  have flow := egress_run_flow memory labels e run
  refine ⟨fun fd c => (inv.maps fd c).symm, fun k =>
    ⟨(inv.cut k).sent, inv.own k, (inv.cut k).last⟩, fun k live => ?_, fun fd st entry => ?_,
    inv.distinct, fun shard => ?_, flow.accepted, flow.logged, fun label allowed => ?_⟩
  · obtain ⟨fd, st, entry, behind⟩ := inv.opened k live
    have serves := entry_serves e inv fd k st entry behind
    exact ⟨fd, st, behind, entry, serves.client.symm, serves.holds.bytes⟩
  · obtain ⟨k, behind, serves⟩ := inv.attached fd st entry
    exact ⟨serves.holds.room, k, behind, serves.opened, serves.holds.working⟩
  · rw [flow.queues]
    exact AckFlow.sent_popped labels shard
  · obtain ⟨next, done, _⟩ := egress_step_inv memory e inv label allowed
    exact ⟨next, done⟩

-- Two connections, one after the other, on descriptor 7. The kernel takes ten
-- bytes of the first report and then no more; the connection is closed and its
-- descriptor reused, and a report for each client is drained.
def reuseDescriptor : List EgressLabel :=
  let report : OuchExecutionReport := ⟨ascii 'E', encodeOrderToken 5, 10, 100, ascii 'A', List.replicate 8 0⟩
  [.accept 7 0, .ack 0 ⟨report, 1⟩, .drain [.sent 10, .again] [7], .close 7, .accept 7 3,
    .ack 2 ⟨report, 1⟩, .ack 1 ⟨report, 5⟩,
    .drain [.sent 20, .again] [7]]

theorem reused_descriptor_faithful :
    ∃ e, EgressRun (fun _ => 0) reuseDescriptor e ∧ (sentBytes (e.conns 0).sends).length = 10 ∧
    (sentBytes (e.conns 1).sends).length = 20 ∧ (e.conns 1).clientId = 5 ∧
    sentBytes (e.conns 1).sends <+: reportBytes (e.conns 1).popped ∧
    LoggedSince reuseDescriptor 1 (e.conns 1) := by
  have shape : (execute EgressAllowed (egressStep fun _ => 0) .init reuseDescriptor).map (fun e =>
      ((sentBytes (e.conns 0).sends).length, (sentBytes (e.conns 1).sends).length,
        (e.conns 1).clientId)) = some (10, 20, 5) := by
    decide +kernel
  obtain ⟨e, result, shape⟩ := Option.map_eq_some_iff.mp shape
  simp only [Prod.mk.injEq] at shape
  have run : EgressRun (fun _ => 0) reuseDescriptor e := execute_run _ _ reuseDescriptor _ e result
  obtain ⟨_, faithful, _, _, _, _, count, logged, _⟩ := egress_is_faithful (fun _ => 0) reuseDescriptor e run
  have two : e.accepted = 2 := count
  exact ⟨e, run, shape.1, shape.2.1, shape.2.2, (faithful 1).1, logged 1 (by omega)⟩

end HftExchange
