import HftExchange.Base.Runs
import HftExchange.Protocol.Messages

set_option autoImplicit false

namespace HftExchange

open Base

-- What a call of send reports: a count, EAGAIN, EINTR, another error, or zero.
inductive SendOutcome where
  | sent (n : Nat)
  | wouldBlock
  | interrupted
  | failed
  | closed
deriving DecidableEq, Repr

inductive SendBytesPc where
  | idle
  | sending (messages : List Bytes) (totalSent : Nat)
deriving DecidableEq, Repr

def SendBytesPc.loop (messages : List Bytes) (totalSent : Nat) : SendBytesPc :=
  if totalSent < messages.flatten.length then .sending messages totalSent else .idle

-- The client, what the socket has accepted, and the history: all messages
-- serialised for the connection, and whether one was given up half-way.
structure TcpSender where
  connected : Bool
  pc : SendBytesPc
  wire : Bytes
  serialised : List Bytes
  cutShort : Bool
deriving DecidableEq, Repr

-- The thread has a buffer of messages to send (one message, or a batch), a call
-- of send returns, or the receive thread finds the connection closed.
inductive SenderLabel where
  | transmit (messages : List Bytes)
  | send (outcome : SendOutcome)
  | receiveFailed
deriving DecidableEq, Repr

def atBoundary (messages : List Bytes) (totalSent : Nat) : Bool :=
  (List.range (messages.length + 1)).any fun k => (messages.take k).flatten.length = totalSent

namespace TcpSender

def init : TcpSender := ⟨true, .idle, [], [], false⟩

-- Any error but the two that are expected ends the call and the caller's loop.
def giveUp (s : TcpSender) (messages : List Bytes) (totalSent : Nat) : TcpSender :=
  { s with connected := false, pc := .idle, cutShort := s.cutShort || !atBoundary messages totalSent }

-- send_bytes reports a full socket only while nothing is sent, and the caller
-- then starts the buffer again unless the connection is gone.
def onOutcome (s : TcpSender) (messages : List Bytes) (totalSent : Nat) : SendOutcome → TcpSender
  | .sent n =>
      { s with
        wire := s.wire ++ (messages.flatten.drop totalSent).take n
        pc := .loop messages (totalSent + n) }
  | .wouldBlock => if totalSent = 0 then if s.connected then s else { s with pc := .idle } else s
  | .interrupted => s
  | .failed => s.giveUp messages totalSent
  | .closed => s.giveUp messages totalSent

end TcpSender

def senderStep (s : TcpSender) : SenderLabel → Checked TcpSender
  | .transmit messages =>
      match s.pc with
      | .idle => pure { s with serialised := s.serialised ++ messages, pc := .loop messages 0 }
      | .sending _ _ => pure s
  | .send outcome =>
      match s.pc with
      | .idle => pure s
      | .sending messages totalSent => pure (s.onOutcome messages totalSent outcome)
  | .receiveFailed => pure { s with connected := false }

def TcpSender.asked (s : TcpSender) : Nat :=
  match s.pc with
  | .idle => 0
  | .sending messages totalSent => messages.flatten.length - totalSent

-- A count is positive and at most what was asked for.
def SendContract (s : TcpSender) : SenderLabel → Prop
  | .send (.sent n) => 1 ≤ n ∧ n ≤ s.asked
  | _ => True

instance (s : TcpSender) : (label : SenderLabel) → Decidable (SendContract s label)
  | .send (.sent _) => inferInstanceAs (Decidable (_ ∧ _))
  | .send .wouldBlock | .send .interrupted | .send .failed | .send .closed => inferInstanceAs (Decidable True)
  | .transmit _ | .receiveFailed => inferInstanceAs (Decidable True)

-- The socket accepts nothing more once a message was cut short.
def NothingAfterCut (s : TcpSender) : SenderLabel → Prop
  | .send (.sent _) => s.cutShort = false
  | _ => True

instance (s : TcpSender) : (label : SenderLabel) → Decidable (NothingAfterCut s label)
  | .send (.sent _) => inferInstanceAs (Decidable (_ = _))
  | .send .wouldBlock | .send .interrupted | .send .failed | .send .closed => inferInstanceAs (Decidable True)
  | .transmit _ | .receiveFailed => inferInstanceAs (Decidable True)

-- Whole messages, each at most once and in order, and at most a part of the
-- one that comes next.
def Framed (messages : List Bytes) (wire : Bytes) : Prop :=
  ∃ (sent : List Bytes) (cut : Bytes), wire = sent.flatten ++ cut ∧
    (cut = [] ∧ sent.Sublist messages ∨ ∃ next, (sent ++ [next]).Sublist messages ∧ cut <+: next ∧ cut ≠ next)

theorem framed_append (messages more : List Bytes) (wire : Bytes) (framed : Framed messages wire) :
    Framed (messages ++ more) wire := by
  obtain ⟨sent, cut, bytes, ending⟩ := framed
  refine ⟨sent, cut, bytes,
    ending.imp (fun ⟨none_, order⟩ => ⟨none_, order.trans (List.sublist_append_left ..)⟩) ?_⟩
  rintro ⟨next, order, proper⟩
  exact ⟨next, order.trans (List.sublist_append_left ..), proper⟩

theorem take_messages (messages : List Bytes) (n : Nat) :
    ∃ k cut, messages.flatten.take n = (messages.take k).flatten ++ cut ∧
    (cut = [] ∨ ∃ next, messages[k]? = some next ∧ cut <+: next ∧ cut ≠ next) := by
  induction messages generalizing n with
  | nil => exact ⟨0, [], by simp, .inl rfl⟩
  | cons first rest ih =>
      by_cases inside : n < first.length
      · refine ⟨0, first.take n, ?_, .inr ⟨first, rfl, List.take_prefix n first, fun whole => ?_⟩⟩
        · rw [List.flatten_cons, List.take_append_of_le_length (Nat.le_of_lt inside)]
          rfl
        · have length := congrArg List.length whole
          rw [List.length_take] at length
          omega
      · obtain ⟨k, cut, part, ending⟩ := ih (n - first.length)
        refine ⟨k + 1, cut, ?_, by simpa using ending⟩
        rw [List.flatten_cons, List.take_append, List.take_of_length_le (Nat.le_of_not_lt inside),
          part, List.take_succ_cons, List.flatten_cons,
          List.append_assoc]

theorem framed_part (earlier messages sent : List Bytes) (n : Nat) (order : sent.Sublist earlier) :
    Framed (earlier ++ messages) (sent.flatten ++ messages.flatten.take n) := by
  obtain ⟨k, cut, part, ending⟩ := take_messages messages n
  refine ⟨sent ++ messages.take k, cut, by rw [part, List.flatten_append, List.append_assoc],
    ending.imp (fun none_ => ⟨none_, ?_⟩) ?_⟩
  · exact order.append (List.take_sublist k messages)
  · rintro ⟨next, there, proper⟩
    refine ⟨next, ?_, proper⟩
    have longer : messages.take k ++ [next] = messages.take (k + 1) := by
      rw [List.take_add_one, there]
      rfl
    rw [List.append_assoc, longer]
    exact order.append (List.take_sublist (k + 1) messages)

def SendBytesPc.current : SendBytesPc → List Bytes × Nat
  | .idle => ([], 0)
  | .sending messages totalSent => (messages, totalSent)

theorem loop_more (messages : List Bytes) (totalSent : Nat) (more : totalSent < messages.flatten.length) :
    (SendBytesPc.loop messages totalSent).current = (messages, totalSent) :=
      by rw [SendBytesPc.loop, if_pos more, SendBytesPc.current]

theorem loop_done (messages : List Bytes) (totalSent : Nat) (done : ¬ totalSent < messages.flatten.length) :
    (SendBytesPc.loop messages totalSent).current = ([], 0) :=
      by rw [SendBytesPc.loop, if_neg done, SendBytesPc.current]

-- Up to the first cut the wire holds the messages sent and the part of the
-- current buffer; after it, nothing is added.
structure SenderInv (s : TcpSender) : Prop where
  clean : s.cutShort = false → ∃ earlier sent : List Bytes, s.serialised = earlier ++
    s.pc.current.1 ∧ sent.Sublist earlier ∧
    s.wire = sent.flatten ++ s.pc.current.1.flatten.take s.pc.current.2
  cut : s.cutShort = true → Framed s.serialised s.wire ∧ s.pc.current.2 = 0

theorem sender_framed (s : TcpSender) (inv : SenderInv s) : Framed s.serialised s.wire := by
  cases cut : s.cutShort with
  | true => exact (inv.cut cut).1
  | false =>
      obtain ⟨earlier, sent, all, order, bytes⟩ := inv.clean cut
      rw [all, bytes]
      exact framed_part earlier s.pc.current.1 sent s.pc.current.2 order

theorem transmit_inv (s : TcpSender) (messages : List Bytes) (inv : SenderInv s) (idle : s.pc = .idle) :
    SenderInv { s with serialised := s.serialised ++ messages, pc := .loop messages 0 } := by
  have nothing : s.pc.current = ([], 0) := by rw [idle, SendBytesPc.current]
  refine ⟨fun clean => ?_, fun cut => ⟨framed_append _ messages _ (inv.cut cut).1, ?_⟩⟩
  · obtain ⟨earlier, sent, all, order, bytes⟩ := inv.clean clean
    rw [nothing, List.append_nil] at all
    rw [nothing] at bytes
    dsimp only
    by_cases some_ : 0 < messages.flatten.length
    · rw [loop_more messages 0 some_, all]
      exact ⟨earlier, sent, rfl, order, bytes⟩
    · rw [loop_done messages 0 some_, all]
      exact ⟨earlier ++ messages, sent, (List.append_nil _).symm,
        order.trans (List.sublist_append_left ..), bytes⟩
  · dsimp only
    by_cases some_ : 0 < messages.flatten.length
    · rw [loop_more messages 0 some_]
    · rw [loop_done messages 0 some_]

section
variable (s : TcpSender) (messages : List Bytes) (totalSent : Nat) (inv : SenderInv s)
  (pc : s.pc = .sending messages totalSent)
include inv pc

theorem sent_inv (n : Nat) (clean : s.cutShort = false) :
    SenderInv (s.onOutcome messages totalSent (.sent n)) := by
  have current : s.pc.current = (messages, totalSent) := by rw [pc, SendBytesPc.current]
  obtain ⟨earlier, sent, all, order, bytes⟩ := inv.clean clean
  rw [current] at all bytes
  refine ⟨fun _ => ?_, fun cut => absurd (clean.symm.trans cut) (by decide)⟩
  have wire : s.wire ++ (messages.flatten.drop totalSent).take n = sent.flatten ++
      messages.flatten.take (totalSent + n) := by
    rw [bytes, List.append_assoc, List.take_add]
  simp only [TcpSender.onOutcome]
  by_cases more : totalSent + n < messages.flatten.length
  · rw [loop_more messages _ more]
    exact ⟨earlier, sent, all, order, wire⟩
  · rw [List.take_of_length_le (Nat.le_of_not_lt more), ← List.flatten_append] at wire
    rw [loop_done messages _ more]
    exact ⟨earlier ++ messages, sent ++ messages, all.trans (List.append_nil _).symm,
      order.append (.refl _), wire.trans (List.append_nil _).symm⟩

theorem drop_inv (none_ : totalSent = 0) : SenderInv { s with pc := .idle } := by
  have current : s.pc.current = (messages, totalSent) := by rw [pc, SendBytesPc.current]
  refine ⟨fun clean => ?_, fun cut => ⟨(inv.cut cut).1, rfl⟩⟩
  obtain ⟨earlier, sent, all, order, bytes⟩ := inv.clean clean
  rw [current] at all bytes
  refine ⟨s.serialised, sent, by simp [SendBytesPc.current], ?_,
    by simpa [SendBytesPc.current, none_] using bytes⟩
  rw [all]
  exact order.trans (List.sublist_append_left ..)

theorem give_up_inv : SenderInv (s.giveUp messages totalSent) := by
  have current : s.pc.current = (messages, totalSent) := by rw [pc, SendBytesPc.current]
  cases cut : s.cutShort with
  | true => exact ⟨fun clean => by simp [TcpSender.giveUp, cut] at clean, fun _ => ⟨(inv.cut cut).1, rfl⟩⟩
  | false =>
      obtain ⟨earlier, sent, all, order, bytes⟩ := inv.clean cut
      rw [current] at all bytes
      have framed := sender_framed s inv
      refine ⟨fun clean => ?_, fun _ => ⟨framed, rfl⟩⟩
      have boundary : atBoundary messages totalSent = true := by simpa [TcpSender.giveUp, cut] using clean
      obtain ⟨k, _, whole⟩ := List.any_eq_true.mp boundary
      have part : messages.flatten.take totalSent = (messages.take k).flatten := by
        rw [← of_decide_eq_true whole]
        nth_rewrite 2 [← List.take_append_drop k messages]
        rw [List.flatten_append, List.take_left]
      refine ⟨s.serialised, sent ++ messages.take k, by simp [TcpSender.giveUp, SendBytesPc.current], ?_, ?_⟩
      · rw [all]
        exact order.append (List.take_sublist k messages)
      · simpa [TcpSender.giveUp, SendBytesPc.current, part] using bytes

theorem send_outcome_inv (outcome : SendOutcome) (last : NothingAfterCut s (.send outcome)) :
    SenderInv (s.onOutcome messages totalSent outcome) := by
  cases outcome with
  | sent n => exact sent_inv s messages totalSent inv pc n last
  | wouldBlock =>
      simp only [TcpSender.onOutcome]
      split
      · split
        · exact inv
        · exact drop_inv s messages totalSent inv pc ‹_›
      · exact inv
  | interrupted => exact inv
  | failed => exact give_up_inv s messages totalSent inv pc
  | closed => exact give_up_inv s messages totalSent inv pc

end

def SenderRun (start : TcpSender) : List SenderLabel → TcpSender → Prop :=
  Run start (Guarded (fun s label => SendContract s label ∧ NothingAfterCut s label) senderStep)

theorem sender_run_inv (labels : List SenderLabel) (s : TcpSender)
    (run : SenderRun .init labels s) : SenderInv s := by
  refine run_invariant SenderInv ⟨fun _ => ⟨[], [], rfl, List.Sublist.refl _, rfl⟩, fun cut =>
    by cases cut⟩ ?_ labels s run
  rintro before label after inv ⟨⟨_, last⟩, step⟩
  cases label with
  | transmit messages =>
      simp only [senderStep] at step
      cases pc : before.pc with
      | idle =>
          rw [pc] at step
          cases step
          exact transmit_inv before messages inv pc
      | sending current totalSent =>
          rw [pc] at step
          cases step
          exact inv
  | send outcome =>
      simp only [senderStep] at step
      cases pc : before.pc with
      | idle =>
          rw [pc] at step
          cases step
          exact inv
      | sending messages totalSent =>
          rw [pc] at step
          cases step
          exact send_outcome_inv before messages totalSent inv pc outcome last
  | receiveFailed =>
      cases step
      exact ⟨inv.clean, inv.cut⟩

theorem step_after_cut (before after : TcpSender) (label : SenderLabel) (last : NothingAfterCut before label)
    (step : senderStep before label = .ok after) (cut : before.cutShort = true) :
    after.cutShort = true ∧ after.wire = before.wire := by
  cases label with
  | transmit messages =>
      simp only [senderStep] at step
      split at step <;> cases step <;> exact ⟨cut, rfl⟩
  | receiveFailed =>
      cases step
      exact ⟨cut, rfl⟩
  | send outcome =>
      simp only [senderStep] at step
      split at step
      · cases step
        exact ⟨cut, rfl⟩
      · cases step
        cases outcome with
        | sent n => exact absurd (last.symm.trans cut) (by decide)
        | wouldBlock =>
            simp only [TcpSender.onOutcome]
            split
            · split <;> exact ⟨cut, rfl⟩
            · exact ⟨cut, rfl⟩
        | interrupted => exact ⟨cut, rfl⟩
        | failed | closed => exact ⟨by simp [TcpSender.onOutcome, TcpSender.giveUp, cut], rfl⟩

theorem outbound_framed (labels : List SenderLabel) (s : TcpSender) (run : SenderRun .init labels s) :
    Framed s.serialised s.wire ∧ (s.cutShort = true → ∀ more final, SenderRun s more final →
      final.wire = s.wire) := by
  refine ⟨sender_framed s (sender_run_inv labels s run), fun cut more final further => ?_⟩
  refine (run_invariant (fun state => state.cutShort = true ∧ state.wire = s.wire)
    ⟨cut, rfl⟩ ?_ more final further).2
  rintro before label after ⟨cut', same⟩ ⟨⟨_, last⟩, step⟩
  obtain ⟨still, wire⟩ := step_after_cut before after label last step cut'
  exact ⟨still, wire.trans same⟩

def resumedLabels : List SenderLabel :=
  [.transmit [(cancelFrame 1).raw], .send .wouldBlock, .send (.sent 7), .send .wouldBlock,
    .send .interrupted, .send (.sent 12),
    .transmit [(cancelFrame 2).raw], .send (.sent 1), .send .failed,
      .transmit [(cancelFrame 3).raw], .send .failed]

theorem resumed_cancel_framed :
    ∃ s, SenderRun .init resumedLabels s ∧ s.cutShort = true ∧
    s.wire = (cancelFrame 1).raw ++ [ascii 'X'] ∧
    Framed s.serialised s.wire := by
  have result : (execute (fun s label => SendContract s label ∧ NothingAfterCut s label) senderStep
    .init resumedLabels).map
      (fun s => (s.cutShort, s.wire)) = some (true, (cancelFrame 1).raw ++ [ascii 'X']) := by decide
  obtain ⟨s, found, facts⟩ := Option.map_eq_some_iff.mp result
  obtain ⟨cut, wire⟩ := Prod.mk.inj facts
  have run := execute_run _ senderStep resumedLabels .init s found
  exact ⟨s, run, cut, wire, (outbound_framed resumedLabels s run).1⟩

-- The error is one after which the socket goes on accepting bytes, such as a
-- lack of buffers.
def cutLabels : List SenderLabel :=
  [.transmit [(cancelFrame 1).raw], .send (.sent 1), .send .failed, .transmit [(cancelFrame 2).raw],
    .send (.sent 19)]

theorem cut_cancel_unframed :
    ∃ s, Run .init (Guarded SendContract senderStep) cutLabels s ∧
    s.serialised = [(cancelFrame 1).raw, (cancelFrame 2).raw] ∧
    s.wire = ascii 'X' :: (cancelFrame 2).raw ∧ ¬ Framed s.serialised s.wire := by
  have result : (execute SendContract senderStep .init cutLabels).map (fun s => (s.serialised, s.wire)) =
      some ([(cancelFrame 1).raw, (cancelFrame 2).raw], ascii 'X' :: (cancelFrame 2).raw) := by decide
  obtain ⟨s, found, facts⟩ := Option.map_eq_some_iff.mp result
  obtain ⟨serialised, wire⟩ := Prod.mk.inj facts
  refine ⟨s, execute_run _ senderStep cutLabels .init s found, serialised, wire, ?_⟩
  rw [serialised, wire]
  rintro ⟨sent, cut, bytes, ending⟩
  have lists : ∀ sent ∈ [(cancelFrame 1).raw, (cancelFrame 2).raw].sublists, sent ≠ [] →
      sent.flatten.take 19 ≠ (ascii 'X' :: (cancelFrame 2).raw).take 19 ∧
        19 ≤ sent.flatten.length := by decide
  by_cases none_ : sent = []
  · rw [none_, List.flatten_nil, List.nil_append] at bytes
    rcases ending with ⟨empty, _⟩ | ⟨next, order, part, _⟩
    · rw [empty] at bytes
      cases bytes
    · have one : ∀ next ∈ [(cancelFrame 1).raw, (cancelFrame 2).raw], next.length = 19 := by decide
      have short := part.length_le
      rw [← bytes, one next (order.subset (List.mem_append_right _ (List.mem_singleton_self next)))] at short
      exact absurd short (by decide)
  · have listed : sent ∈ [(cancelFrame 1).raw, (cancelFrame 2).raw].sublists := List.mem_sublists.mpr
      (ending.elim (fun ⟨_, order⟩ => order) fun ⟨_, order, _⟩ => (List.sublist_append_left ..).trans order)
    obtain ⟨different, long⟩ := lists sent listed none_
    refine different ?_
    rw [bytes, List.take_append_of_le_length long]

end HftExchange
