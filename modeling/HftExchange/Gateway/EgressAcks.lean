import HftExchange.Base.Sums
import HftExchange.Gateway.EgressRun

set_option autoImplicit false

namespace HftExchange

open Base

def acksFrom (shard : Nat) (labels : List EgressLabel) : List OutboundAck :=
  labels.filterMap fun label => match label with
    | .ack from_ ack => if from_ = shard then some ack else none
    | _ => none

def Egress.held (e : Egress) (k : Nat) : Multiset OutboundAck :=
  ↑(e.conns k).popped + ∑ s ∈ Finset.range numShards, ↑(e.ackQueues s)

structure Undelivered (conn after : Conn) : Prop where
  popped : after.popped = conn.popped
  client : after.clientId = conn.clientId
  opened : after.isOpen = true → conn.isOpen = true

structure SameAcks (e next : Egress) : Prop where
  queues : next.ackQueues = e.ackQueues
  accepted : next.accepted = e.accepted
  conns : ∀ k, Undelivered (e.conns k) (next.conns k)

theorem undelivered_refl (conn : Conn) : Undelivered conn conn := ⟨rfl, rfl, id⟩

theorem SameAcks.refl (e : Egress) : SameAcks e e := ⟨rfl, rfl, fun k => undelivered_refl (e.conns k)⟩

theorem SameAcks.popped {e next : Egress} (same : SameAcks e next) (k : Nat) :
    (next.conns k).popped = (e.conns k).popped :=
  (same.conns k).popped

theorem SameAcks.trans {e middle next : Egress} (first : SameAcks e middle)
    (second : SameAcks middle next) : SameAcks e next where
  queues := second.queues.trans first.queues
  accepted := second.accepted.trans first.accepted
  conns k := by
    obtain ⟨popped, client, opened⟩ := first.conns k
    obtain ⟨popped', client', opened'⟩ := second.conns k
    exact ⟨popped'.trans popped, client'.trans client, fun live => opened (opened' live)⟩

theorem SameAcks.held {e next : Egress} (same : SameAcks e next) (k : Nat) : next.held k = e.held k := by
  rw [Egress.held, same.queues, same.popped k]
  rfl

theorem on_conn_acks (e : Egress) (fd : Nat) (change : Conn → Conn)
    (keeps : ∀ conn, Undelivered conn (change conn)) :
    SameAcks e (e.onConn fd change) := by
  rw [Egress.onConn]
  split
  · rename_i k behind
    refine ⟨rfl, rfl, fun other => ?_⟩
    by_cases here : other = k
    · subst here
      simp only [Function.update_self]
      exact keeps _
    · simp only [Function.update_of_ne here]
      exact undelivered_refl _
  · exact SameAcks.refl e

theorem undelivered_closed (conn : Conn) : Undelivered conn { conn with isOpen := false } :=
    ⟨rfl, rfl, by simp⟩

theorem close_client_acks (e : Egress) (fd : Nat) : SameAcks e (e.closeClient fd) := by
  unfold Egress.closeClient
  split
  · rename_i st entry
    have changed := on_conn_acks { e with
      fdByClient := Function.update e.fdByClient st.clientId none
      clientStates := Function.update e.clientStates fd none } fd (fun conn =>
        { conn with isOpen := false }) undelivered_closed
    exact ⟨changed.queues, changed.accepted, changed.conns⟩
  · have changed := on_conn_acks e fd (fun conn => { conn with isOpen := false }) undelivered_closed
    exact ⟨changed.queues, changed.accepted, changed.conns⟩

theorem flush_acks (e next : Egress) (fd : Nat) (st st' : OutState) (failed : Bool)
    (done : e.flush fd st = .ok (next, st', failed)) :
    SameAcks e next := by
  obtain ⟨flushed, _, result⟩ := (checked_bind_eq_ok _ _ _).mp done
  cases result
  have changed := on_conn_acks (e.setState fd flushed.state) fd
    (fun conn => { conn with sends := conn.sends ++ flushed.sends })
    fun conn => ⟨rfl, rfl, id⟩
  exact ⟨changed.queues, changed.accepted, changed.conns⟩

theorem flush_or_close_acks (e next : Egress) (fd : Nat) (st : OutState)
    (done : e.flushOrClose fd st = .ok next) : SameAcks e next := by
  obtain ⟨⟨middle, st', failed⟩, flushed, result⟩ := (checked_bind_eq_ok _ _ _).mp done
  have first := flush_acks e middle fd st st' failed flushed
  cases result
  cases failed with
  | false => exact first
  | true => exact first.trans (close_client_acks middle fd)

theorem append_acks (e next : Egress) (fd : Nat) (st : OutState) (data : Bytes)
    (done : e.append fd st data = .ok next) : SameAcks e next := by
  obtain ⟨outBuf, _, result⟩ := (checked_bind_eq_ok _ _ _).mp done
  cases result
  exact ⟨rfl, rfl, fun k => undelivered_refl (e.conns k)⟩

theorem send_report_acks (e next : Egress) (fd : Nat) (st : OutState) (data : Bytes)
    (done : e.sendReport fd st data = .ok next) :
    SameAcks e next := by
  unfold Egress.sendReport at done
  split at done
  · obtain ⟨⟨middle, st', failed⟩, flushed, result⟩ := (checked_bind_eq_ok _ _ _).mp done
    have first := flush_acks e middle fd st st' failed flushed
    dsimp only at result
    split at result
    · cases result
      exact first.trans (close_client_acks middle fd)
    · split at result
      · cases result
        exact first.trans (close_client_acks middle fd)
      · exact first.trans (append_acks middle next fd st' data result)
  · exact append_acks e next fd st data done

theorem flush_entry_acks (e next : Egress) (fd : Nat) (done : e.flushEntry fd = .ok next) :
    SameAcks e next := by
  unfold Egress.flushEntry at done
  split at done
  · split at done
    · exact flush_or_close_acks e next fd _ done
    · cases done
      exact SameAcks.refl e
  · cases done
    exact SameAcks.refl e

section
variable (memory : Nat → Byte) (k : Nat)

theorem deliver_held (e next : Egress) (ack : OutboundAck)
    (done : e.deliver memory ack = .ok next) : next.held k ≤ e.held k + {ack} := by
  have logged : (e.logPop ack).held k ≤ e.held k + {ack} := by
    have one : ({ack} : Multiset OutboundAck) = ↑[ack] := rfl
    simp only [Egress.held, Egress.logPop]
    split
    · rw [← Multiset.coe_add, ← one, add_right_comm]
    · exact Multiset.le_add_right _ _
  unfold Egress.deliver at done
  dsimp only at done
  split at done
  · cases done
    exact logged
  · rename_i fd found
    have same := send_report_acks _ next fd _ _ done
    exact (same.held k).trans_le logged

theorem deliver_all_held (acks : List OutboundAck) (e next : Egress)
    (done : acks.foldlM (Egress.deliver memory) e = .ok next) :
    next.held k ≤ e.held k + ↑acks := by
  induction acks generalizing e with
  | nil =>
      cases done
      exact Multiset.le_add_right _ _
  | cons ack rest ih =>
      obtain ⟨middle, first, later⟩ := (checked_bind_eq_ok _ _ _).mp done
      calc next.held k
        _ ≤ middle.held k + ↑rest := ih middle later
        _ ≤ e.held k + {ack} + ↑rest := by gcongr; exact deliver_held memory k e middle ack first
        _ = e.held k + ↑(ack :: rest) := by rw [add_assoc, Multiset.singleton_add, Multiset.cons_coe]

theorem drain_shard_held (e next : Egress) (shard : Nat) (known : shard < numShards)
    (done : e.drainShard memory shard = .ok next) :
    next.held k ≤ e.held k := by
  have taken := sum_update (Finset.range numShards)
    (fun acks : List OutboundAck => (acks : Multiset OutboundAck)) e.ackQueues shard []
    (Finset.mem_range.mpr known)
  rw [Multiset.coe_nil, add_zero] at taken
  calc next.held k
    _ ≤ ({ e with ackQueues := Function.update e.ackQueues shard [] } : Egress).held
      k + ↑(e.ackQueues shard) :=
        deliver_all_held memory k _ _ next done
    _ = e.held k := by rw [Egress.held, add_assoc, taken, Egress.held]

theorem drain_acks_held (e next : Egress) (order : List Nat)
    (done : e.drainAcks memory order = .ok next) : next.held k ≤ e.held k := by
  obtain ⟨middle, drained, flushed⟩ := (checked_bind_eq_ok _ _ _).mp done
  have first : middle.held k ≤ e.held k := checked_foldlM_keeps (Egress.drainShard memory)
    (fun state => state.held k ≤ e.held k)
    (List.range numShards) (fun state shard inside after less step =>
      (drain_shard_held memory k state after shard (List.mem_range.mp inside) step).trans less) e
        middle le_rfl drained
  exact checked_foldlM_keeps Egress.flushEntry (fun state => state.held k ≤ e.held k) order
    (fun state fd _ after less step => ((flush_entry_acks state after fd step).held k).trans_le
      less) middle next first flushed

theorem egress_step_held (e next : Egress) (label : EgressLabel)
    (step : egressStep memory e label = .ok next) :
    next.held k ≤ e.held k + ∑ s ∈ Finset.range numShards, ↑(acksFrom s [label]) := by
  cases label with
  | accept fd others =>
      cases step
      refine le_trans ?_ (Multiset.le_add_right _ _)
      by_cases here : k = e.accepted
      · subst here
        simp [Egress.held, Egress.accept, Egress.setState]
      · simp [Egress.held, Egress.accept, Egress.setState, here]
  | close fd =>
      cases step
      refine le_trans ?_ (Multiset.le_add_right _ _)
      split
      · exact ((close_client_acks e fd).held k).le
      · exact le_rfl
  | writable fd answers =>
      simp only [egressStep] at step
      refine le_trans ?_ (Multiset.le_add_right _ _)
      split at step
      · exact ((flush_or_close_acks _ next fd _ step).held k).le
      · cases step
        exact le_rfl
  | drain answers order =>
      have less := drain_acks_held memory k { e with answers := answers } next order step
      exact less.trans (Multiset.le_add_right _ _)
  | ack shard ack =>
      cases step
      have each : ∀ s, ((Function.update e.ackQueues shard (e.ackQueues shard ++ [ack]) s :
        List OutboundAck) : Multiset OutboundAck) =
          ↑(e.ackQueues s) + ↑(acksFrom s [.ack shard ack]) := by
        intro s
        by_cases here : s = shard
        · subst here
          rw [Function.update_self, ← Multiset.coe_add]
          simp [acksFrom]
        · simp [acksFrom, here, Ne.symm here]
      simp only [Egress.held, each, Finset.sum_add_distrib, add_assoc]
      exact le_rfl

theorem egress_run_held (labels : List EgressLabel) (e : Egress) (run : EgressRun memory labels e) :
    e.held k ≤ ∑ s ∈ Finset.range numShards, ↑(acksFrom s labels) := by
  induction run with
  | start => simp [Egress.held, Egress.init]
  | snoc labels label state next before step ih =>
      have more : ∀ s, (acksFrom s (labels ++ [label]) : Multiset OutboundAck) =
          ↑(acksFrom s labels) + ↑(acksFrom s [label]) := fun s => by
        rw [acksFrom, List.filterMap_append, ← Multiset.coe_add]
        rfl
      simp only [more, Finset.sum_add_distrib]
      exact (egress_step_held memory k state next label step.2).trans (add_le_add_left ih _)

theorem popped_queued (labels : List EgressLabel) (e : Egress) (run : EgressRun memory labels e) :
    ((e.conns k).popped : Multiset OutboundAck) ≤ ∑ s ∈ Finset.range numShards, ↑(acksFrom s labels) :=
  (Multiset.le_add_right _ _).trans (egress_run_held memory k labels e run)

end

end HftExchange
