import HftExchange.Gateway.Egress

set_option autoImplicit false

namespace HftExchange

open Base

def SendEvent.bytes : SendEvent → Bytes
  | wrote bytes => bytes
  | error => []

def sentBytes (sends : List SendEvent) : Bytes := sends.flatMap SendEvent.bytes

def reportBytes (acks : List OutboundAck) : Bytes := acks.flatMap fun ack => ack.report.bytes

theorem sent_bytes_append (first second : List SendEvent) :
    sentBytes (first ++ second) = sentBytes first ++ sentBytes second :=
  List.flatMap_append

theorem report_bytes_append (first second : List OutboundAck) :
    reportBytes (first ++ second) = reportBytes first ++ reportBytes second :=
  List.flatMap_append

structure Holds (st : OutState) (sends : List SendEvent) (due : Bytes) : Prop where
  room : st.outLen ≤ outBufCap
  bytes : sentBytes sends ++ block st.outBuf 0 st.outLen = due
  working : SendEvent.error ∉ sends

structure Cut (sends : List SendEvent) (due : Bytes) : Prop where
  sent : sentBytes sends <+: due
  last : ∀ before after, sends = before ++ SendEvent.error :: after → after = []

theorem arm_keeps (st : OutState) (on : Bool) :
    (armEpollout st on).clientId = st.clientId ∧ (armEpollout st on).outBuf = st.outBuf ∧
    (armEpollout st on).outLen = st.outLen := by
  unfold armEpollout
  split <;> exact ⟨rfl, rfl, rfl⟩

theorem holds_congr (st next : OutState) (sends : List SendEvent) (due : Bytes)
    (sameBuf : next.outBuf = st.outBuf)
    (sameLen : next.outLen = st.outLen) (holds : Holds st sends due) : Holds next sends due :=
  ⟨sameLen ▸ holds.room, by rw [sameBuf, sameLen]; exact holds.bytes, holds.working⟩

theorem holds_cut (st : OutState) (sends : List SendEvent) (due more : Bytes)
    (holds : Holds st sends due) : Cut sends (due ++ more) where
  sent := ⟨block st.outBuf 0 st.outLen ++ more, by rw [← List.append_assoc, holds.bytes]⟩
  last before after split := by
    refine absurd ?_ holds.working
    rw [split]
    simp

theorem failed_cut (st : OutState) (sends : List SendEvent) (due : Bytes)
    (holds : Holds st sends due) :
    Cut (sends ++ [.error]) due where
  sent := by
    rw [sent_bytes_append]
    exact ⟨block st.outBuf 0 st.outLen, by simpa [sentBytes, SendEvent.bytes] using holds.bytes⟩
  last before after split := by
    rcases List.eq_nil_or_concat after with rfl | ⟨rest, final, rfl⟩
    · rfl
    · rw [List.concat_eq_append, ← List.cons_append, ← List.append_assoc] at split
      refine absurd ?_ holds.working
      rw [(List.append_inj' split rfl).1]
      simp

theorem send_holds (st : OutState) (sends : List SendEvent) (due : Bytes)
    (holds : Holds st sends due) (n : Nat) (positive : 0 < n)
    (offered : n ≤ st.outLen) :
    ∃ next, st.shift n = .ok next ∧ next.clientId = st.clientId ∧
      Holds next (sends ++ [.wrote ((block st.outBuf 0 st.outLen).take n)]) due := by
  have room := holds.room
  have left : sizeSub st.outLen n = st.outLen - n :=
    size_sub_eq _ _ offered (Nat.lt_of_le_of_lt room (by decide))
  have rest : (block st.outBuf 0 st.outLen).drop n = block st.outBuf n (st.outLen - n) := by
    rw [block_drop _ _ _ _ offered, Nat.zero_add]
  have working : SendEvent.error ∉ sends ++ [.wrote ((block st.outBuf 0 st.outLen).take n)] := by
    simpa using holds.working
  have bytes : sentBytes (sends ++ [.wrote ((block st.outBuf 0 st.outLen).take n)]) ++
      block st.outBuf n (st.outLen - n) = due := by
    rw [← holds.bytes, ← rest, sent_bytes_append, List.append_assoc]
    simp [sentBytes, SendEvent.bytes]
  unfold OutState.shift
  rw [left]
  by_cases some_ : 0 < st.outLen - n
  · simp only [if_pos some_, move_block_ok outBufCap st.outBuf 0 n (st.outLen - n) (by omega) (by omega)]
    refine ⟨_, rfl, rfl, Nat.le_trans (Nat.sub_le ..) room, ?_, working⟩
    have moved := block_patch st.outBuf 0 (block st.outBuf n (st.outLen - n))
    rw [block_length] at moved
    rw [moved]
    exact bytes
  · simp only [if_neg some_]
    refine ⟨_, rfl, rfl, Nat.le_trans (Nat.sub_le ..) room, ?_, working⟩
    have none_ : st.outLen - n = 0 := by omega
    rw [none_] at bytes ⊢
    exact bytes

theorem flush_out_spec (answers : List SendResult) (st : OutState) (sends : List SendEvent)
    (due : Bytes) (holds : Holds st sends due) :
    ∃ flushed, flushOut answers st = .ok flushed ∧ flushed.state.clientId = st.clientId ∧
      (flushed.failed = false → Holds flushed.state (sends ++ flushed.sends) due) ∧
      (flushed.failed = true → Cut (sends ++ flushed.sends) due) := by
  induction answers generalizing st sends with
  | nil =>
      rw [flushOut.eq_def]
      dsimp only
      split
      · obtain ⟨client, buf, len⟩ := arm_keeps st true
        exact ⟨_, rfl, client, fun _ => by simpa using holds_congr st _ sends due buf len holds,
          fun failed => by cases failed⟩
      · obtain ⟨client, buf, len⟩ := arm_keeps st false
        exact ⟨_, rfl, client, fun _ => by simpa using holds_congr st _ sends due buf len holds,
          fun failed => by cases failed⟩
  | cons answer rest ih =>
      rw [flushOut.eq_def]
      dsimp only
      by_cases some_ : 0 < st.outLen
      · rw [if_pos some_]
        cases answer with
        | again =>
            obtain ⟨client, buf, len⟩ := arm_keeps st true
            exact ⟨_, rfl, client, fun _ => by simpa using holds_congr st _ sends due buf len holds,
              fun failed => by cases failed⟩
        | failed => exact ⟨⟨st, [.error], true, rest⟩, rfl, rfl, (fun fine => by cases fine),
            fun _ => failed_cut st sends due holds⟩
        | sent count =>
            have room := holds.room
            simp only [load_block_ok outBufCap st.outBuf 0 st.outLen (by omega), checked_bind_ok]
            by_cases positive : 0 < min count st.outLen
            · rw [if_pos positive]
              obtain ⟨next, moved, same, after⟩ := send_holds st sends due holds _ positive
                (Nat.min_le_right ..)
              obtain ⟨flushed, result, client, fine, broken⟩ := ih _ _ after
              refine ⟨{ flushed with
                  sends := .wrote ((block st.outBuf 0 st.outLen).take (min count st.outLen)) ::
                    flushed.sends },
                by rw [moved, checked_bind_ok, result]; rfl, client.trans same, fun ok => ?_, fun failed => ?_⟩
              · simpa using fine ok
              · simpa using broken failed
            · rw [if_neg positive]
              exact ⟨⟨st, [.error], true, rest⟩, rfl, rfl, (fun fine => by cases fine), fun _ =>
                failed_cut st sends due holds⟩
      · rw [if_neg some_]
        obtain ⟨client, buf, len⟩ := arm_keeps st false
        exact ⟨_, rfl, client, fun _ => by simpa using holds_congr st _ sends due buf len holds,
          fun failed => by cases failed⟩

theorem append_holds (st : OutState) (sends : List SendEvent) (due data : Bytes) (holds : Holds st sends due)
    (room : st.outLen + data.length ≤ outBufCap) :
    storeBlock outBufCap st.outBuf st.outLen data = .ok (patch st.outBuf st.outLen data) ∧
      Holds { st with outBuf := patch st.outBuf st.outLen data, outLen := st.outLen + data.length }
        sends (due ++ data) := by
  refine ⟨store_block_ok _ _ _ _ room, room, ?_, holds.working⟩
  have written := block_patch st.outBuf st.outLen data
  rw [block_append, block_patch_before _ _ _ _ _ (by omega), Nat.zero_add, written,
    ← List.append_assoc, holds.bytes]

end HftExchange
