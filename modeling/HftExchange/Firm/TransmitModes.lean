import HftExchange.Firm.Transmit

set_option autoImplicit false

namespace HftExchange

open Base

def Transmitter.Finished (s : Transmitter) : Prop := s.orderQueue = [] ∧ ∀ conn, s.pending conn = []

def messageFor (config : ConnectorConfig) (temp : TokenDigits) (a : NormalizedOrderAction) : OuchRequest :=
  if a.isCancel then .cancel (cancelRequest config a temp) else .enter (enterRequest config a temp 0)

def Writes (config : ConnectorConfig) (a : NormalizedOrderAction) (message : OuchRequest) : Prop :=
  ∃ temp, message.untimed = messageFor config temp a

def toConn (config : ConnectorConfig) (conn : Nat) (a : NormalizedOrderAction) : Bool :=
    connIdx config a = conn

def newToConn (config : ConnectorConfig) (conn : Nat) (a : NormalizedOrderAction) : Bool :=
    toConn config conn a && !a.isCancel

section
variable (config : ConnectorConfig)

def Carried (enqueued orderQueue : List NormalizedOrderAction) (messages : List OuchRequest) : Prop :=
  ∃ sent, enqueued = sent ++ orderQueue ∧ List.Forall₂ (Writes config) sent messages

def DirectRep (s : Transmitter) : Prop :=
  (∀ conn, s.pending conn = []) ∧ ∀ conn,
    Carried config (s.enqueued.filter (toConn config conn))
      (s.orderQueue.filter (toConn config conn)) (s.wires conn)

structure BatchedRep (s : Transmitter) : Prop where
  small : s.totalProcessed ≤ batchSize
  counts : ∀ conn, s.batchCounts conn ≤ s.totalProcessed
  used : ∀ conn, config.numConnections ≤ conn → s.batchCounts conn = 0
  kept : ∀ conn, Carried config (s.enqueued.filter (newToConn config conn))
    (s.orderQueue.filter (newToConn config conn))
    (s.wires conn ++ s.pending conn)

theorem carried_next (enqueued rest : List NormalizedOrderAction) (a : NormalizedOrderAction)
    (messages : List OuchRequest)
    (message : OuchRequest) (carried : Carried config enqueued (a :: rest) messages)
    (writes : Writes config a message) :
    Carried config enqueued rest (messages ++ [message]) := by
  obtain ⟨sent, split, written⟩ := carried
  exact ⟨sent ++ [a], by rw [split, List.append_assoc]; rfl, List.rel_append written (.cons writes .nil)⟩

theorem carried_all (enqueued : List NormalizedOrderAction) (messages : List OuchRequest)
    (carried : Carried config enqueued [] messages) :
    List.Forall₂ (Writes config) enqueued messages := by
  obtain ⟨sent, split, written⟩ := carried
  rwa [split, List.append_nil]

theorem enqueue_kept (s : Transmitter) (a : NormalizedOrderAction) (keep : NormalizedOrderAction →
    Bool) (messages : List OuchRequest)
    (kept : Carried config (s.enqueued.filter keep) (s.orderQueue.filter keep) messages) :
    Carried config ((s.enqueue a).enqueued.filter keep) ((s.enqueue a).orderQueue.filter keep) messages := by
  unfold Transmitter.enqueue
  split
  · obtain ⟨sent, split, written⟩ := kept
    exact ⟨sent, by simp only [List.filter_append, split, List.append_assoc], written⟩
  · exact kept

theorem enqueue_pending (s : Transmitter) (a : NormalizedOrderAction) :
    (s.enqueue a).wires = s.wires ∧ (s.enqueue a).batches = s.batches ∧
    (s.enqueue a).batchCounts = s.batchCounts ∧
      (s.enqueue a).totalProcessed = s.totalProcessed := by
  unfold Transmitter.enqueue
  split <;> exact ⟨rfl, rfl, rfl, rfl⟩

theorem direct_step (s next : Transmitter) (label : TransmitLabel) (rep : DirectRep config s)
    (step : transmitStep config Transmitter.directTurn s label = .ok next) : DirectRep config next := by
  obtain ⟨empty, kept⟩ := rep
  cases label with
  | enqueue a =>
      cases step
      obtain ⟨wires, batches, counts, _⟩ := enqueue_pending s a
      refine ⟨fun conn => by rw [Transmitter.pending, batches, counts]; exact empty conn, fun conn => ?_⟩
      rw [wires]
      exact enqueue_kept config s a _ _ (kept conn)
  | turn stamp temp =>
      simp only [transmitStep, Transmitter.directTurn] at step
      cases queue : s.orderQueue with
      | nil =>
          rw [queue] at step
          cases step
          exact ⟨empty, kept⟩
      | cons a rest =>
          rw [queue] at step
          have sent : ∀ message : OuchRequest, message.untimed = messageFor config temp a → DirectRep config
              (({ s with orderQueue := rest } : Transmitter).write (connIdx config a) [message]) := by
            intro message same
            refine ⟨empty, fun conn => ?_⟩
            have before := kept conn
            rw [queue, List.filter_cons] at before
            by_cases here : connIdx config a = conn
            · subst here
              simp only [toConn, decide_true, if_true] at before
              have after := carried_next config _ _ a _ message before ⟨temp, same⟩
              simpa [Transmitter.write] using after
            · have other : toConn config conn a = false := decide_eq_false here
              rw [other] at before
              simpa [Transmitter.write, Function.update_of_ne (Ne.symm here)] using before
          dsimp only at step
          split at step
          · rename_i new
            cases step
            refine sent _ ?_
            have notCancel : a.isCancel = false := by simpa using new
            simp only [messageFor, notCancel]
            rfl
          · rename_i cancel
            cases step
            refine sent _ ?_
            have isCancel : a.isCancel = true := by simpa using cancel
            simp only [messageFor, isCancel]
            rfl

theorem nothing_pending (s : Transmitter) (conn : Nat) (none : s.batchCounts conn ≤ 0) :
    s.pending conn = [] := by
  rw [Transmitter.pending, Nat.le_zero.mp none]
  rfl

theorem flush_rep (s : Transmitter) (rep : BatchedRep config s) : BatchedRep config (s.flush config) := by
  unfold Transmitter.flush
  split
  · refine ⟨Nat.zero_le _, fun conn => ?_, fun conn far => ?_, fun conn => ?_⟩
    · dsimp only
      split
      · exact Nat.le_refl 0
      · rename_i far
        exact Nat.le_of_eq (rep.used conn (Nat.le_of_not_lt far))
    · dsimp only
      rw [if_neg (Nat.not_lt.mpr far)]
      exact rep.used conn far
    · have before := rep.kept conn
      dsimp only [Transmitter.pending] at before ⊢
      split
      · simpa using before
      · rename_i far
        rw [rep.used conn (Nat.le_of_not_lt far)] at before ⊢
        exact before
  · exact rep

theorem flush_done (s : Transmitter) (rep : BatchedRep config s) :
    (s.flush config).orderQueue = s.orderQueue ∧
    (s.flush config).enqueued = s.enqueued ∧ (s.flush config).totalProcessed = 0 ∧
    ∀ conn, (s.flush config).pending conn = [] := by
  unfold Transmitter.flush
  split
  · refine ⟨rfl, rfl, rfl, fun conn => ?_⟩
    dsimp only [Transmitter.pending]
    split
    · rfl
    · rename_i far
      rw [rep.used conn (Nat.le_of_not_lt far)]
      rfl
  · rename_i none
    refine ⟨rfl, rfl, by omega, fun conn => ?_⟩
    have count := rep.counts conn
    exact nothing_pending s conn (by omega)

theorem batched_take (s : Transmitter) (stamp : Nat) (temp : TokenDigits)
    (some : 1 ≤ config.numConnections) (rep : BatchedRep config s)
    (a : NormalizedOrderAction) (rest : List NormalizedOrderAction)
    (queue : s.orderQueue = a :: rest) (room : s.totalProcessed < batchSize) :
    ∃ next, s.batchedTurn config stamp temp = .ok next ∧ BatchedRep config next ∧
    next.enqueued = s.enqueued ∧ next.orderQueue = rest := by
  have before := rep.kept
  simp only [queue, List.filter_cons] at before
  cases cancel : a.isCancel with
  | true =>
      refine ⟨{ s with orderQueue := rest }, by simp [Transmitter.batchedTurn, room, queue, cancel],
        ⟨rep.small, rep.counts, rep.used, fun conn => ?_⟩, rfl, rfl⟩
      have kept := before conn
      have skipped : newToConn config conn a = false := by simp [newToConn, cancel]
      rw [skipped] at kept
      exact kept
  | false =>
      have free : s.batchCounts (connIdx config a) < batchSize := Nat.lt_of_le_of_lt (rep.counts _) room
      have inside : connIdx config a < config.numConnections := Nat.mod_lt _ some
      refine ⟨{ s with
          orderQueue := rest
          batches := Function.update s.batches (connIdx config a)
            (Function.update (s.batches (connIdx config a)) (s.batchCounts (connIdx config a))
              (enterRequest config a temp stamp))
          batchCounts := Function.update s.batchCounts (connIdx config a)
            (s.batchCounts (connIdx config a) + 1)
          totalProcessed := s.totalProcessed + 1 },
            by simp [Transmitter.batchedTurn, room, queue, cancel, free],
        ⟨room, fun conn => ?_, fun conn far => ?_, fun conn => ?_⟩, rfl, rfl⟩
      · by_cases here : conn = connIdx config a
        · subst here
          simpa using rep.counts _
        · simpa [here] using Nat.le_succ_of_le (rep.counts conn)
      · have other : conn ≠ connIdx config a := by omega
        simpa [other] using rep.used conn far
      · have kept := before conn
        by_cases here : conn = connIdx config a
        · subst here
          have own : newToConn config (connIdx config a) a = true := by simp [newToConn, toConn, cancel]
          have stored : ∀ k ∈ List.range (s.batchCounts (connIdx config a)), OuchRequest.enter
              (Function.update (s.batches (connIdx config a)) (s.batchCounts (connIdx config a))
                (enterRequest config a temp stamp) k) =
              .enter (s.batches (connIdx config a) k) := by
            intro k member
            rw [Function.update_of_ne (Nat.ne_of_lt (List.mem_range.mp member))]
          have message : (OuchRequest.enter (enterRequest config a temp stamp)).untimed =
              messageFor config temp a := by
            simp only [messageFor, cancel]
            rfl
          rw [own] at kept
          have after := carried_next config _ _ a _ _ kept ⟨temp, message⟩
          simp only [Transmitter.pending, Function.update_self, List.range_succ, List.map_append,
            List.map_cons, List.map_nil,
            List.map_congr_left stored]
          simpa [Transmitter.pending] using after
        · have other : newToConn config conn a = false := by simp [newToConn, toConn, Ne.symm here]
          rw [other] at kept
          simpa [Transmitter.pending, here] using kept

theorem batched_turn_flush (s : Transmitter) (stamp : Nat) (temp : TokenDigits)
    (idle : s.orderQueue = [] ∨ ¬ s.totalProcessed < batchSize) :
    s.batchedTurn config stamp temp = .ok (s.flush config) := by
  unfold Transmitter.batchedTurn
  rcases idle with empty | full
  · rw [empty]
    split <;> rfl
  · rw [if_neg full]
    rfl

theorem batched_step (s : Transmitter) (label : TransmitLabel) (some : 1 ≤ config.numConnections)
    (rep : BatchedRep config s) :
    ∃ next, transmitStep config Transmitter.batchedTurn s label = .ok next ∧ BatchedRep config next := by
  cases label with
  | enqueue a =>
      obtain ⟨wires, batches, counts, total⟩ := enqueue_pending s a
      refine ⟨_, rfl, ?_, ?_, ?_, fun conn => ?_⟩
      · rw [total]
        exact rep.small
      · rw [total, counts]
        exact rep.counts
      · rw [counts]
        exact rep.used
      · rw [Transmitter.pending, wires, batches, counts]
        exact enqueue_kept config s a _ _ (rep.kept conn)
  | turn stamp temp =>
      by_cases room : s.totalProcessed < batchSize
      · cases queue : s.orderQueue with
        | nil => exact ⟨_, batched_turn_flush config s stamp temp (.inl queue), flush_rep config s rep⟩
        | cons a rest =>
            obtain ⟨next, step, rep', _⟩ := batched_take config s stamp temp some rep a rest queue room
            exact ⟨next, step, rep'⟩
      · exact ⟨_, batched_turn_flush config s stamp temp (.inr room), flush_rep config s rep⟩

theorem batched_run_rep (some : 1 ≤ config.numConnections) (batches : Nat → Nat → EnterRequest)
    (labels : List TransmitLabel)
    (s : Transmitter) (run : TransmitRun config Transmitter.batchedTurn (.init batches) labels s) :
    BatchedRep config s := by
  refine run_invariant (BatchedRep config) ⟨Nat.zero_le _, fun _ => Nat.le_refl 0, fun _ _ => rfl,
    fun _ => ⟨[], rfl, .nil⟩⟩ ?_ labels s run
  rintro state label next rep ⟨_, step⟩
  obtain ⟨other, step', rep'⟩ := batched_step config state label some rep
  cases step.symm.trans step'
  exact rep'

theorem direct_run_rep (batches : Nat → Nat → EnterRequest) (labels : List TransmitLabel) (s : Transmitter)
    (run : TransmitRun config Transmitter.directTurn (.init batches) labels s) : DirectRep config s := by
  refine run_invariant (DirectRep config) ⟨fun _ => rfl, fun _ => ⟨[], rfl, .nil⟩⟩ ?_ labels s run
  rintro state label next rep ⟨_, step⟩
  exact direct_step config state next label rep step

def noDigits : TokenDigits := Vector.replicate 14 0

theorem turn_then (s next final : Transmitter) (turns : List TransmitLabel)
    (step : s.batchedTurn config 0 noDigits = .ok next)
    (run : TransmitRun config Transmitter.batchedTurn next turns final) :
    TransmitRun config Transmitter.batchedTurn s (.turn 0 noDigits :: turns) final := by
  have first : TransmitRun config Transmitter.batchedTurn s [.turn 0 noDigits] next :=
    run_single (.turn 0 noDigits : TransmitLabel) next ⟨trivial, step⟩
  exact run_append [TransmitLabel.turn 0 noDigits] turns next final first run

theorem batched_finishes (some : 1 ≤ config.numConnections) (s : Transmitter) (rep : BatchedRep config s) :
    ∃ turns final, TransmitRun config Transmitter.batchedTurn s turns final ∧ final.Finished ∧
    final.enqueued = s.enqueued := by
  induction size : s.orderQueue.length using Nat.strongRecOn generalizing s with
  | _ n ih =>
      obtain ⟨queued, entered, zero, nothing⟩ := flush_done config s rep
      cases queue : s.orderQueue with
      | nil =>
          have step := batched_turn_flush config s 0 noDigits (.inl queue)
          exact ⟨_, s.flush config, turn_then config s _ _ [] step .start,
            ⟨queued.trans queue, nothing⟩, entered⟩
      | cons a rest =>
          have short : rest.length < n := by
            rw [queue, List.length_cons] at size
            omega
          by_cases room : s.totalProcessed < batchSize
          · obtain ⟨next, step, rep', same, left⟩ :=
              batched_take config s 0 noDigits some rep a rest queue room
            obtain ⟨turns, final, run, done, all⟩ := ih _ short next rep' (by rw [left])
            exact ⟨_, final, turn_then config s next final turns step run, done, all.trans same⟩
          · have step := batched_turn_flush config s 0 noDigits (.inr room)
            obtain ⟨next, step', rep', same, left⟩ :=
              batched_take config _ 0 noDigits some (flush_rep config s rep) a rest
                (queued.trans queue) (by rw [zero]; decide)
            obtain ⟨turns, final, run, done, all⟩ := ih _ short next rep' (by rw [left])
            exact ⟨_, final, turn_then config s _ final _ step
              (turn_then config _ next final turns step' run), done,
              all.trans (same.trans entered)⟩

theorem direct_sends (batches : Nat → Nat → EnterRequest) (temp : TokenDigits)
    (actions : List NormalizedOrderAction) :
    ∃ labels d, TransmitRun config Transmitter.directTurn (.init batches) labels d ∧ d.Finished ∧
    d.enqueued = actions ∧
      ∀ conn, (d.wires conn).map OuchRequest.untimed = (actions.filter (toConn config conn)).map
      (messageFor config temp) := by
  induction actions using List.reverseRecOn with
  | nil => exact ⟨[], .init batches, .start, ⟨rfl, fun _ => rfl⟩, rfl, fun _ => rfl⟩
  | append_singleton actions a ih =>
      obtain ⟨labels, d, run, ⟨empty, nothing⟩, entered, sent⟩ := ih
      let queued : Transmitter := { d with orderQueue := [a], enqueued := d.enqueued ++ [a] }
      have put : transmitStep config Transmitter.directTurn d (.enqueue a) = .ok queued := by
        simp [transmitStep, Transmitter.enqueue, empty, orderQueueSize, queued]
      have wrote : ∃ message : OuchRequest, message.untimed = messageFor config temp a ∧
          transmitStep config Transmitter.directTurn queued (.turn 0 temp) =
            .ok (({ queued with orderQueue := [] } : Transmitter).write (connIdx config a) [message]) := by
        cases cancel : a.isCancel with
        | true => exact ⟨.cancel (cancelRequest config a temp),
            by simp [messageFor, cancel, OuchRequest.untimed],
            by simp [transmitStep, Transmitter.directTurn, queued, cancel]⟩
        | false => exact ⟨.enter (enterRequest config a temp 0),
            by simp [messageFor, cancel, OuchRequest.untimed, enterRequest],
            by simp [transmitStep, Transmitter.directTurn, queued, cancel]⟩
      obtain ⟨message, same, step⟩ := wrote
      have before : TransmitRun config Transmitter.directTurn (.init batches)
          (labels ++ [.enqueue a]) queued :=
        .snoc labels (.enqueue a) d queued run ⟨trivial, put⟩
      let written : Transmitter := ({ queued with orderQueue := [] } : Transmitter).write
        (connIdx config a) [message]
      have after : TransmitRun config Transmitter.directTurn (.init batches)
          (labels ++ [.enqueue a] ++ [.turn 0 temp]) written :=
        .snoc _ (TransmitLabel.turn 0 temp) queued written before ⟨trivial, step⟩
      refine ⟨_, written, after, ⟨rfl, nothing⟩, congrArg (· ++ [a]) entered, fun conn => ?_⟩
      by_cases here : connIdx config a = conn
      · subst here
        have own : toConn config (connIdx config a) a = true := decide_eq_true rfl
        simp [written, Transmitter.write, queued, List.filter_append, sent, same, own]
      · have other : toConn config conn a = false := decide_eq_false here
        simp [written, Transmitter.write, queued, List.filter_append, sent, other, Ne.symm here]

end

theorem new_to_conn_all (config : ConnectorConfig) (conn : Nat) (actions : List NormalizedOrderAction) :
    (actions.filter (newToConn config conn)).length = (actions.filter (toConn config conn)).length ↔
      ∀ a ∈ actions, connIdx config a = conn → a.isCancel = false := by
  have both : actions.filter (newToConn config conn) = (actions.filter (toConn config conn)).filter
      (fun a => !a.isCancel) := by
    rw [List.filter_filter]
    exact List.filter_congr fun a _ => Bool.and_comm _ _
  rw [both, List.length_filter_eq_length_iff]
  constructor
  · intro all a member here
    simpa using all a (List.mem_filter.mpr ⟨member, decide_eq_true here⟩)
  · intro none a member
    obtain ⟨inside, here⟩ := List.mem_filter.mp member
    simp [none a inside (of_decide_eq_true here)]

def TokenFits (config : ConnectorConfig) (a : NormalizedOrderAction) : Prop :=
    orderTokenOf config.tokenBase a < 10 ^ 14

instance (config : ConnectorConfig) (a : NormalizedOrderAction) : Decidable (TokenFits config a) :=
    inferInstanceAs (Decidable (_ < _))

theorem message_token (config : ConnectorConfig) (a : NormalizedOrderAction) (first second : TokenDigits) :
    messageFor config first a = messageFor config second a ↔ TokenFits config a ∨ first = second := by
  have field : writeOrderToken first (orderTokenOf config.tokenBase a) = writeOrderToken second
    (orderTokenOf config.tokenBase a) ↔
      TokenFits config a ∨ first = second := by
    unfold writeOrderToken TokenFits
    split
    · rename_i small
      exact ⟨fun _ => .inl small, fun _ => rfl⟩
    · rename_i large
      exact ⟨fun same => .inr (Vector.toList_inj.mp same), fun same => congrArg _ (same.resolve_left large)⟩
  rw [← field]
  unfold messageFor
  split
  · exact ⟨fun same => congrArg CancelRequest.orderToken (OuchRequest.cancel.inj same), fun same =>
      by rw [cancelRequest, same, ← cancelRequest]⟩
  · exact ⟨fun same => congrArg EnterRequest.orderToken (OuchRequest.enter.inj same), fun same =>
      by rw [enterRequest, same, ← enterRequest]⟩

theorem writes_fit (config : ConnectorConfig) (actions : List NormalizedOrderAction)
    (messages : List OuchRequest)
    (fits : ∀ a ∈ actions, TokenFits config a) (written : List.Forall₂ (Writes config) actions messages) :
    messages.map OuchRequest.untimed = actions.map (messageFor config noDigits) := by
  induction written with
  | nil => rfl
  | @cons a message actions messages writes _ ih =>
      obtain ⟨own, others⟩ := List.forall_mem_cons.mp fits
      obtain ⟨temp, same⟩ := writes
      rw [List.map_cons, List.map_cons, ih others, same,
        (message_token config a temp noDigits).mpr (.inl own)]

def SameMessages (s d : Transmitter) : Prop :=
  ∀ conn, (s.wires conn).map OuchRequest.untimed = (d.wires conn).map OuchRequest.untimed

-- What the batched loop has sent is what every run of the direct loop over the
-- same actions sends.
def ModesAgree (config : ConnectorConfig) (batches : Nat → Nat → EnterRequest) (s : Transmitter) : Prop :=
  ∀ (labels : List TransmitLabel) (d : Transmitter), TransmitRun config Transmitter.directTurn
    (.init batches) labels d → d.Finished →
    d.enqueued = s.enqueued → SameMessages s d

section
variable (config : ConnectorConfig) (some : 1 ≤ config.numConnections) (batches batches' : Nat →
  Nat → EnterRequest)
  (labels : List TransmitLabel) (s : Transmitter)
    (run : TransmitRun config Transmitter.batchedTurn (.init batches) labels s)
  (finished : s.Finished)
include some run finished

theorem batched_wires (conn : Nat) :
    List.Forall₂ (Writes config) (s.enqueued.filter (newToConn config conn)) (s.wires conn) := by
  have kept := (batched_run_rep config some batches labels s run).kept conn
  rw [finished.1, finished.2 conn, List.append_nil] at kept
  exact carried_all config _ _ kept

theorem modes_agree (none : ∀ a ∈ s.enqueued, a.isCancel = false ∧ TokenFits config a) :
    ModesAgree config batches' s := by
  intro labels' d run' drained same conn
  obtain ⟨_, direct⟩ := direct_run_rep config batches' labels' d run'
  have theirs := direct conn
  rw [drained.1] at theirs
  have mine := batched_wires config some batches labels s run finished conn
  have all : s.enqueued.filter (newToConn config conn) = s.enqueued.filter (toConn config conn) :=
    List.filter_congr fun a member => by simp [newToConn, (none a member).1]
  have fits : ∀ a ∈ s.enqueued.filter (toConn config conn), TokenFits config a :=
    fun a member => (none a (List.mem_of_mem_filter member)).2
  rw [all] at mine
  rw [writes_fit config _ _ fits mine, writes_fit config _ _ fits (same ▸ carried_all config _ _ theirs)]

theorem agreeing_modes (agree : ModesAgree config batches' s) :
    ∀ a ∈ s.enqueued, a.isCancel = false ∧ TokenFits config a := by
  -- Two runs of the direct loop that differ in the bytes of its array.
  obtain ⟨_, first, run₁, done₁, entered₁, sent₁⟩ := direct_sends config batches' noDigits s.enqueued
  obtain ⟨_, second, run₂, done₂, entered₂, sent₂⟩ := direct_sends config batches'
    (Vector.replicate 14 1) s.enqueued
  have same₁ := agree _ first run₁ done₁ entered₁
  have same₂ := agree _ second run₂ done₂ entered₂
  intro a member
  refine ⟨?_, ?_⟩
  · have lengths := congrArg List.length ((same₁ (connIdx config a)).trans (sent₁ (connIdx config a)))
    rw [List.length_map, List.length_map,
      ← (batched_wires config some batches labels s run finished (connIdx config a)).length_eq]
      at lengths
    exact (new_to_conn_all config (connIdx config a) s.enqueued).mp lengths a member rfl
  · have equal := (sent₁ (connIdx config a)).symm.trans ((same₁ _).symm.trans ((same₂ _).trans (sent₂ _)))
    have own := List.map_inj_left.mp equal a (List.mem_filter.mpr ⟨member, decide_eq_true rfl⟩)
    exact ((message_token config a _ _).mp own).resolve_right (by decide)

end

-- The batched loop has no branch for a cancel: it takes it from the queue and
-- forgets it. On new orders the modes agree, as far as the tokens have digits
-- to write; and no batch overflows.
theorem transmit_modes_agree_iff (config : ConnectorConfig) (some : 1 ≤ config.numConnections)
    (batches batches' : Nat → Nat → EnterRequest)
    (labels : List TransmitLabel) (s : Transmitter)
    (run : TransmitRun config Transmitter.batchedTurn (.init batches) labels s) :
    (∀ conn, s.batchCounts conn ≤ batchSize) ∧
    (∀ label, ∃ next, transmitStep config Transmitter.batchedTurn s label = .ok next) ∧
      (∃ turns final, TransmitRun config Transmitter.batchedTurn s turns final ∧ final.Finished ∧
        final.enqueued = s.enqueued) ∧
      (s.Finished → (ModesAgree config batches' s ↔ ∀ a ∈ s.enqueued, a.isCancel = false ∧
        TokenFits config a)) := by
  have rep := batched_run_rep config some batches labels s run
  refine ⟨fun conn => Nat.le_trans (rep.counts conn) rep.small, fun label => ?_,
    batched_finishes config some s rep, fun finished => ?_⟩
  · obtain ⟨next, step, _⟩ := batched_step config s label some rep
    exact ⟨next, step⟩
  · exact ⟨agreeing_modes config some batches batches' labels s run finished,
      modes_agree config some batches batches' labels s run finished⟩

def oneConnection : ConnectorConfig := ⟨1, 0, [ascii 'H', ascii 'F', ascii 'T', ascii '1']⟩

def twoConnections : ConnectorConfig := { oneConnection with numConnections := 2 }

def blankBatches : Nat → Nat → EnterRequest :=
    fun _ _ => enterRequest oneConnection ⟨0, 0, 0, 0, false, false, 0, 0, 0⟩ noDigits 0

def sampleAction (id : Nat) (isCancel : Bool) : NormalizedOrderAction :=
    ⟨id, 7, 100, 10, true, isCancel, 0, 0, 0⟩

def otherAction (id : Nat) : NormalizedOrderAction := ⟨id, 8, 90, 5, false, false, 0, 0, 0⟩

-- Four new orders on two connections. The batched loop sends the first three in
-- one round, two of them in one batch, and the last one in the next round.
def newOrders : List NormalizedOrderAction :=
    [sampleAction 1 false, otherAction 2, sampleAction 3 false, otherAction 4]

def twoRounds : List TransmitLabel :=
  [.enqueue (sampleAction 1 false), .turn 1 noDigits, .enqueue (otherAction 2),
    .enqueue (sampleAction 3 false), .turn 2 noDigits,
    .turn 3 noDigits, .turn 4 noDigits, .enqueue (otherAction 4), .turn 5 noDigits, .turn 6 noDigits]

def oneByOne : List TransmitLabel :=
  newOrders.map .enqueue ++ [.turn 11 noDigits, .turn 12 noDigits, .turn 13 noDigits, .turn 14 noDigits]

theorem new_order_modes_agree :
    ∃ s d : Transmitter,
    TransmitRun twoConnections Transmitter.batchedTurn (.init blankBatches) twoRounds s ∧
    TransmitRun twoConnections Transmitter.directTurn (.init blankBatches) oneByOne d ∧
    s.enqueued = newOrders ∧
    (s.wires 0).length = 2 ∧ (s.wires 1).length = 2 ∧ SameMessages s d := by
  have batched : (execute (fun _ _ => True) (transmitStep twoConnections Transmitter.batchedTurn)
    (.init blankBatches) twoRounds).map
      (fun s => (s.orderQueue, s.totalProcessed, s.enqueued, (s.wires 0).length,
        (s.wires 1).length)) = some ([], 0, newOrders, 2, 2) := by
    decide
  have direct : (execute (fun _ _ => True) (transmitStep twoConnections Transmitter.directTurn)
    (.init blankBatches) oneByOne).map
      (fun d => (d.orderQueue, d.enqueued)) = some ([], newOrders) := by decide
  obtain ⟨s, resultS, factsS⟩ := Option.map_eq_some_iff.mp batched
  obtain ⟨d, resultD, factsD⟩ := Option.map_eq_some_iff.mp direct
  simp only [Prod.mk.injEq] at factsS factsD
  obtain ⟨emptyS, none, sentS, zero, one⟩ := factsS
  obtain ⟨emptyD, sentD⟩ := factsD
  have run : TransmitRun twoConnections Transmitter.batchedTurn (.init blankBatches) twoRounds s :=
    execute_run _ _ _ _ s resultS
  have run' : TransmitRun twoConnections Transmitter.directTurn (.init blankBatches) oneByOne d :=
    execute_run _ _ _ _ d resultD
  have counts := (batched_run_rep twoConnections (by decide) blankBatches _ s run).counts
  have finished : s.Finished :=
    ⟨emptyS, fun conn => nothing_pending s conn (by rw [← none]; exact counts conn)⟩
  have fits : ∀ a ∈ s.enqueued, a.isCancel = false ∧ TokenFits twoConnections a := by
    rw [sentS]
    simp only [newOrders, List.forall_mem_cons]
    exact ⟨⟨rfl, by decide⟩, ⟨rfl, by decide⟩, ⟨rfl, by decide⟩, ⟨rfl, by decide⟩, by simp⟩
  have agree := ((transmit_modes_agree_iff twoConnections (by decide) blankBatches blankBatches
    twoRounds s run).2.2.2 finished).mpr fits
  exact ⟨s, d, run, run', sentS, zero, one,
    agree oneByOne d run' ⟨emptyD, (direct_run_rep twoConnections blankBatches _ d run').1⟩
      (sentD.trans sentS.symm)⟩

theorem batched_cancel_lost :
    ¬ ∀ (config : ConnectorConfig) (labels labels' : List TransmitLabel) (s d : Transmitter),
    1 ≤ config.numConnections → TransmitRun config Transmitter.batchedTurn (.init blankBatches) labels s →
    TransmitRun config Transmitter.directTurn (.init blankBatches) labels' d → s.Finished →
    d.Finished → d.enqueued = s.enqueued →
    SameMessages s d := by
  intro always
  have batched : (execute (fun _ _ => True) (transmitStep oneConnection Transmitter.batchedTurn)
    (.init blankBatches)
      [.enqueue (sampleAction 1 true), .turn 5 noDigits]).map (fun s =>
        (s.orderQueue, s.totalProcessed, s.enqueued, s.wires 0)) =
      some ([], 0, [sampleAction 1 true], []) := by decide
  have direct : (execute (fun _ _ => True) (transmitStep oneConnection Transmitter.directTurn)
    (.init blankBatches)
      [.enqueue (sampleAction 1 true), .turn 7 noDigits]).map (fun d =>
        (d.orderQueue, d.enqueued, d.wires 0)) =
      some ([], [sampleAction 1 true], [.cancel ⟨ascii 'X', encodeOrderToken 1, 10⟩]) := by decide
  obtain ⟨s, resultS, factsS⟩ := Option.map_eq_some_iff.mp batched
  obtain ⟨d, resultD, factsD⟩ := Option.map_eq_some_iff.mp direct
  simp only [Prod.mk.injEq] at factsS factsD
  obtain ⟨emptyS, none, sentS, wiresS⟩ := factsS
  obtain ⟨emptyD, sentD, wiresD⟩ := factsD
  have run : TransmitRun oneConnection Transmitter.batchedTurn (.init blankBatches) _ s :=
    execute_run _ _ _ _ s resultS
  have run' : TransmitRun oneConnection Transmitter.directTurn (.init blankBatches) _ d :=
    execute_run _ _ _ _ d resultD
  have counts := (batched_run_rep oneConnection (by decide) blankBatches _ s run).counts
  have finished : s.Finished :=
    ⟨emptyS, fun conn => nothing_pending s conn (by rw [← none]; exact counts conn)⟩
  have same := always oneConnection _ _ s d (by decide) run run' finished
    ⟨emptyD, (direct_run_rep oneConnection blankBatches _ d run').1⟩ (sentD.trans sentS.symm) 0
  rw [wiresS, wiresD] at same
  exact absurd same (by decide)

end HftExchange
