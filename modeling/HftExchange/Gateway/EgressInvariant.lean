import HftExchange.Base.Runs
import HftExchange.Gateway.EgressFlush

set_option autoImplicit false

namespace HftExchange

open Base

structure Serves (e : Egress) (st : OutState) (k : Nat) : Prop where
  known : k < e.accepted
  opened : (e.conns k).isOpen = true
  client : (e.conns k).clientId = st.clientId
  holds : Holds st (e.conns k).sends (reportBytes (e.conns k).popped)

structure EgressInv (e : Egress) : Prop where
  maps : ∀ fd c, e.fdByClient c = some fd ↔ ∃ st, e.clientStates fd = some st ∧ st.clientId = c
  attached : ∀ fd st, e.clientStates fd = some st → ∃ k, e.table fd = some k ∧ Serves e st k
  detached : ∀ fd, e.clientStates fd = none → e.table fd = none
  opened : ∀ k, (e.conns k).isOpen = true → ∃ fd st, e.clientStates fd = some st ∧ e.table fd = some k
  ids : ∀ k, k < e.accepted → (e.conns k).clientId < e.nextClientId
  distinct : ∀ first second, first < e.accepted → second < e.accepted →
    (e.conns first).clientId = (e.conns second).clientId → first = second
  own : ∀ k, ∀ ack ∈ (e.conns k).popped, ack.clientId = (e.conns k).clientId
  cut : ∀ k, Cut (e.conns k).sends (reportBytes (e.conns k).popped)

def Egress.replaced (e : Egress) (fd k : Nat) (st : OutState) (conn : Conn)
    (answers : List SendResult) : Egress :=
  { e with
    clientStates := Function.update e.clientStates fd (some st)
    conns := Function.update e.conns k conn
    answers := answers }

def Egress.torn (e : Egress) (fd k client : Nat) (conn : Conn) (answers : List SendResult) : Egress :=
  { e with
    clientStates := Function.update e.clientStates fd none
    fdByClient := Function.update e.fdByClient client none
    table := Function.update e.table fd none
    conns := Function.update e.conns k conn
    answers := answers }

section
variable (e : Egress) (fd k : Nat) (behind : e.table fd = some k) (st : OutState) (conn : Conn)
  (answers : List SendResult)

theorem replaced_self (entry : e.clientStates fd = some st) :
    e.replaced fd k st (e.conns k) answers = { e with answers := answers } := by
  simp [Egress.replaced, ← entry]

include behind

theorem close_replaced :
    (e.replaced fd k st conn answers).closeClient fd =
    e.torn fd k st.clientId { conn with isOpen := false } answers := by
  simp [Egress.closeClient, Egress.replaced, Egress.torn, Egress.onConn, behind]

theorem flush_replaced (flushed : Flushed) (result : flushOut answers st = .ok flushed) :
    (e.replaced fd k st conn answers).flush fd st = .ok
      (e.replaced fd k flushed.state { conn with sends := conn.sends ++ flushed.sends }
        flushed.answers, flushed.state, flushed.failed) := by
  simp [Egress.flush, Egress.replaced, Egress.setState, Egress.onConn, behind, result]

omit behind in
theorem append_replaced (data : Bytes) (outBuf : Nat → Byte)
    (stored : storeBlock outBufCap st.outBuf st.outLen data = .ok outBuf) :
    (e.replaced fd k st conn answers).append fd st data =
      .ok (e.replaced fd k { st with outBuf := outBuf, outLen := st.outLen + data.length } conn answers) := by
  simp [Egress.append, Egress.replaced, Egress.setState, stored]

theorem flush_or_close_spec (due : Bytes) (holds : Holds st conn.sends due) :
    ∃ next, (e.replaced fd k st conn answers).flushOrClose fd st = .ok next ∧
      ((∃ st' sends answers', st'.clientId = st.clientId ∧ Holds st' sends due ∧
          next = e.replaced fd k st' { conn with sends := sends } answers') ∨
        ∃ sends answers', Cut sends due ∧ next = e.torn fd k st.clientId
          { conn with sends := sends, isOpen := false } answers') := by
  obtain ⟨flushed, result, client, fine, broken⟩ := flush_out_spec answers st conn.sends due holds
  have flush := flush_replaced e fd k behind st conn answers flushed result
  cases failed : flushed.failed with
  | false =>
      refine ⟨_, ?_, .inl ⟨flushed.state, _, flushed.answers, client, fine failed, rfl⟩⟩
      simp [Egress.flushOrClose, flush, failed]
  | true =>
      refine ⟨_, ?_, .inr ⟨_, flushed.answers, broken failed, rfl⟩⟩
      simp [Egress.flushOrClose, flush, failed, close_replaced e fd k behind, client]

theorem send_report_spec (due data : Bytes) (holds : Holds st conn.sends due) :
    ∃ next, (e.replaced fd k st conn answers).sendReport fd st data = .ok next ∧
      ((∃ st' sends answers', st'.clientId = st.clientId ∧ Holds st' sends (due ++ data) ∧
          next = e.replaced fd k st' { conn with sends := sends } answers') ∨
        ∃ sends answers', Cut sends (due ++ data) ∧
          next = e.torn fd k st.clientId { conn with sends := sends, isOpen := false } answers') := by
  by_cases full : outBufCap < st.outLen + data.length
  · obtain ⟨flushed, result, client, fine, broken⟩ := flush_out_spec answers st conn.sends due holds
    have flush := flush_replaced e fd k behind st conn answers flushed result
    cases failed : flushed.failed with
    | true =>
        have cut := broken failed
        refine ⟨_, ?_, .inr ⟨_, flushed.answers, ⟨cut.sent.trans (List.prefix_append _ _), cut.last⟩, rfl⟩⟩
        simp [Egress.sendReport, full, flush, failed, close_replaced e fd k behind, client]
    | false =>
        by_cases still : outBufCap < flushed.state.outLen + data.length
        · refine ⟨_, ?_, .inr ⟨_, flushed.answers, holds_cut flushed.state _ due data (fine failed), rfl⟩⟩
          simp [Egress.sendReport, full, flush, failed, still, close_replaced e fd k behind, client]
        · obtain ⟨stored, after⟩ := append_holds flushed.state _ due data (fine failed)
            (Nat.le_of_not_lt still)
          refine ⟨_, ?_, .inl
            ⟨{ flushed.state with outBuf := patch flushed.state.outBuf flushed.state.outLen data,
                                  outLen := flushed.state.outLen + data.length },
            _, flushed.answers, client, after, rfl⟩⟩
          simp [Egress.sendReport, full, flush, failed, still, append_replaced e fd k _ _ _ data _ stored]
  · obtain ⟨stored, after⟩ := append_holds st conn.sends due data holds (Nat.le_of_not_lt full)
    refine ⟨_, ?_, .inl
      ⟨{ st with outBuf := patch st.outBuf st.outLen data, outLen := st.outLen + data.length },
      conn.sends, answers, rfl,
      after, rfl⟩⟩
    simp [Egress.sendReport, full, append_replaced e fd k _ _ _ data _ stored]

end

section
variable (e : Egress) (inv : EgressInv e) (k : Nat) (conn : Conn)
include inv

theorem histories_inv (sameClient : conn.clientId = (e.conns k).clientId)
    (own : ∀ ack ∈ conn.popped, ack.clientId = conn.clientId)
    (cut : Cut conn.sends (reportBytes conn.popped)) :
    (∀ i, i < e.accepted → (Function.update e.conns k conn i).clientId < e.nextClientId) ∧
    (∀ first second, first < e.accepted → second < e.accepted →
      (Function.update e.conns k conn first).clientId =
      (Function.update e.conns k conn second).clientId → first = second) ∧
    (∀ i, ∀ ack ∈ (Function.update e.conns k conn i).popped,
      ack.clientId = (Function.update e.conns k conn i).clientId) ∧
    ∀ i, Cut (Function.update e.conns k conn i).sends
    (reportBytes (Function.update e.conns k conn i).popped) := by
  have client : ∀ i, (Function.update e.conns k conn i).clientId = (e.conns i).clientId := by
    intro i
    by_cases here : i = k
    · subst here
      rw [Function.update_self, sameClient]
    · rw [Function.update_of_ne here]
  refine ⟨fun i bound => ?_, fun first second low low' same => ?_, fun i => ?_, fun i => ?_⟩
  · rw [client]
    exact inv.ids i bound
  · rw [client, client] at same
    exact inv.distinct first second low low' same
  · by_cases here : i = k
    · subst here
      rw [Function.update_self]
      exact own
    · rw [Function.update_of_ne here]
      exact inv.own i
  · by_cases here : i = k
    · subst here
      rw [Function.update_self]
      exact cut
    · rw [Function.update_of_ne here]
      exact inv.cut i

end

section
variable (e : Egress) (inv : EgressInv e) (fd k : Nat) (st : OutState)
  (entry : e.clientStates fd = some st) (behind : e.table fd = some k)
  (conn : Conn) (sameClient : conn.clientId = (e.conns k).clientId)
    (own : ∀ ack ∈ conn.popped, ack.clientId = conn.clientId)
  (answers : List SendResult)
include inv entry behind

theorem entry_serves : Serves e st k := by
  obtain ⟨other, found, serves⟩ := inv.attached fd st entry
  rw [behind] at found
  cases found
  exact serves

theorem behind_unique (other : Nat) (st' : OutState) (entry' : e.clientStates other = some st')
    (behind' : e.table other = some k) :
    other = fd := by
  have first := entry_serves e inv fd k st entry behind
  obtain ⟨_, found, second⟩ := inv.attached other st' entry'
  rw [behind'] at found
  cases found
  have one := (inv.maps fd st.clientId).mpr ⟨st, entry, rfl⟩
  have two := (inv.maps other st.clientId).mpr ⟨st', entry', second.client.symm.trans first.client⟩
  exact Option.some.inj (two.symm.trans one)

include sameClient own

theorem replaced_inv (st' : OutState) (client : st'.clientId = st.clientId) (opened : conn.isOpen = true)
    (holds : Holds st' conn.sends (reportBytes conn.popped)) :
    EgressInv (e.replaced fd k st' conn answers) := by
  have serves := entry_serves e inv fd k st entry behind
  have cut : Cut conn.sends (reportBytes conn.popped) := by simpa using holds_cut st' conn.sends _ [] holds
  obtain ⟨ids, distinct, owns, cuts⟩ := histories_inv e inv k conn sameClient own cut
  refine ⟨fun other c => ?_, fun other st'' found => ?_, fun other gone => ?_, fun i live => ?_,
    ids, distinct, owns, cuts⟩
  · rw [show (e.replaced fd k st' conn answers).fdByClient = e.fdByClient from rfl, inv.maps other c]
    by_cases here : other = fd
    · subst here
      simp [Egress.replaced, entry, client]
    · simp [Egress.replaced, here]
  · by_cases here : other = fd
    · subst here
      simp only [Egress.replaced, Function.update_self, Option.some.injEq] at found
      subst found
      refine ⟨k, behind, serves.known, ?_, ?_, ?_⟩
      · simp only [Egress.replaced, Function.update_self, opened]
      · simp only [Egress.replaced, Function.update_self, sameClient, serves.client, client]
      · simp only [Egress.replaced, Function.update_self]
        exact holds
    · simp only [Egress.replaced, Function.update_of_ne here] at found
      obtain ⟨i, table, other'⟩ := inv.attached other st'' found
      have different : i ≠ k := by
        rintro rfl
        exact here (behind_unique e inv fd i st entry behind other st'' found table)
      refine ⟨i, table, other'.known, ?_, ?_, ?_⟩
      · simp only [Egress.replaced, Function.update_of_ne different]
        exact other'.opened
      · simp only [Egress.replaced, Function.update_of_ne different]
        exact other'.client
      · simp only [Egress.replaced, Function.update_of_ne different]
        exact other'.holds
  · by_cases here : other = fd
    · subst here
      simp [Egress.replaced] at gone
    · simp only [Egress.replaced, Function.update_of_ne here] at gone
      exact inv.detached other gone
  · by_cases here : i = k
    · subst here
      exact ⟨fd, st', by simp [Egress.replaced], behind⟩
    · simp only [Egress.replaced, Function.update_of_ne here] at live
      obtain ⟨other, st'', found, table⟩ := inv.opened i live
      have different : other ≠ fd := by
        rintro rfl
        rw [behind] at table
        exact here (Option.some.inj table).symm
      exact ⟨other, st'', by simpa only [Egress.replaced, Function.update_of_ne different] using found, table⟩

theorem torn_inv (closed : conn.isOpen = false) (cut : Cut conn.sends (reportBytes conn.popped)) :
    EgressInv (e.torn fd k st.clientId conn answers) := by
  obtain ⟨ids, distinct, owns, cuts⟩ := histories_inv e inv k conn sameClient own cut
  have mapped := (inv.maps fd st.clientId).mpr ⟨st, entry, rfl⟩
  refine ⟨fun other c => ?_, fun other st'' found => ?_, fun other gone => ?_, fun i live => ?_,
    ids, distinct, owns, cuts⟩
  · by_cases here : other = fd
    · subst here
      simp only [Egress.torn, Function.update_self, reduceCtorEq, false_and, exists_false, iff_false]
      by_cases same : c = st.clientId
      · subst same
        simp
      · rw [Function.update_of_ne same]
        intro found
        obtain ⟨st'', entry'', client⟩ := (inv.maps other c).mp found
        rw [entry] at entry''
        cases entry''
        exact same client.symm
    · simp only [Egress.torn, Function.update_of_ne here]
      by_cases same : c = st.clientId
      · subst same
        rw [Function.update_self]
        refine ⟨(fun found => by cases found), fun found => ?_⟩
        have found := (inv.maps other st.clientId).mpr found
        exact absurd (Option.some.inj (found.symm.trans mapped)) here
      · rw [Function.update_of_ne same]
        exact inv.maps other c
  · by_cases here : other = fd
    · subst here
      simp [Egress.torn] at found
    · simp only [Egress.torn, Function.update_of_ne here] at found ⊢
      obtain ⟨i, table, other'⟩ := inv.attached other st'' found
      have different : i ≠ k := by
        rintro rfl
        exact here (behind_unique e inv fd i st entry behind other st'' found table)
      refine ⟨i, table, other'.known, ?_, ?_, ?_⟩
      · simp only [Function.update_of_ne different]
        exact other'.opened
      · simp only [Function.update_of_ne different]
        exact other'.client
      · simp only [Function.update_of_ne different]
        exact other'.holds
  · by_cases here : other = fd
    · subst here
      simp [Egress.torn]
    · simp only [Egress.torn, Function.update_of_ne here] at gone ⊢
      exact inv.detached other gone
  · by_cases here : i = k
    · subst here
      simp [Egress.torn, closed] at live
    · simp only [Egress.torn, Function.update_of_ne here] at live
      obtain ⟨other, st'', found, table⟩ := inv.opened i live
      have different : other ≠ fd := by
        rintro rfl
        rw [behind] at table
        exact here (Option.some.inj table).symm
      exact ⟨other, st'', by simpa only [Egress.torn, Function.update_of_ne different] using found,
        by simpa only [Egress.torn, Function.update_of_ne different] using table⟩

end

end HftExchange
