import HftExchange.Gateway.EgressInvariant

set_option autoImplicit false

namespace HftExchange

open Base

theorem initial_egress_inv : EgressInv .init where
  maps fd c := by simp [Egress.init]
  attached fd st found := by cases found
  detached _ _ := rfl
  opened k live := by cases live
  ids k bound := absurd bound (Nat.not_lt_zero k)
  distinct first _ bound := absurd bound (Nat.not_lt_zero first)
  own k ack member := by cases member
  cut k := ⟨List.prefix_refl _, fun before after split => by
    have empty : ([] : List SendEvent) = before ++ .error :: after := split
    simp at empty⟩

section
variable (e : Egress) (inv : EgressInv e)
include inv

theorem outcome_inv (fd k : Nat) (st : OutState) (entry : e.clientStates fd = some st)
    (behind : e.table fd = some k) (conn : Conn)
    (sameClient : conn.clientId = (e.conns k).clientId) (opened : conn.isOpen = true)
    (own : ∀ ack ∈ conn.popped, ack.clientId = conn.clientId) (due : Bytes)
    (same : reportBytes conn.popped = due) (next : Egress)
    (outcome : (∃ st' sends answers', st'.clientId = st.clientId ∧ Holds st' sends due ∧
        next = e.replaced fd k st' { conn with sends := sends } answers') ∨
      ∃ sends answers', Cut sends due ∧ next = e.torn fd k st.clientId
        { conn with sends := sends, isOpen := false } answers') :
    EgressInv next := by
  subst same
  rcases outcome with ⟨st', sends, answers', client, holds, rfl⟩ | ⟨sends, answers', cut, rfl⟩
  · exact replaced_inv e inv fd k st entry behind { conn with sends := sends } sameClient own
      answers' st' client opened holds
  · exact torn_inv e inv fd k st entry behind { conn with sends := sends, isOpen := false }
      sameClient own answers' rfl cut

theorem flush_or_close_inv (fd : Nat) (st : OutState) (entry : e.clientStates fd = some st)
    (answers : List SendResult) :
    ∃ next, ({ e with answers := answers } : Egress).flushOrClose fd st = .ok next ∧ EgressInv next := by
  obtain ⟨k, behind, serves⟩ := inv.attached fd st entry
  obtain ⟨next, done, outcome⟩ := flush_or_close_spec e fd k behind st (e.conns k) answers _ serves.holds
  rw [replaced_self e fd k st answers entry] at done
  exact ⟨next, done, outcome_inv e inv fd k st entry behind (e.conns k) rfl serves.opened
    (inv.own k) _ rfl next outcome⟩

theorem close_client_inv (fd : Nat) (st : OutState) (entry : e.clientStates fd = some st) :
    EgressInv (e.closeClient fd) := by
  obtain ⟨k, behind, serves⟩ := inv.attached fd st entry
  have close := close_replaced e fd k behind st (e.conns k) e.answers
  rw [replaced_self e fd k st e.answers entry] at close
  rw [show e.closeClient fd = _ from close]
  exact torn_inv e inv fd k st entry behind { e.conns k with isOpen := false } rfl
    (inv.own k) e.answers rfl (inv.cut k)

theorem log_pop_absent (ack : OutboundAck) (absent : e.fdByClient ack.clientId = none) :
    e.logPop ack = e := by
  have nobody : ∀ k, ¬ ((e.conns k).isOpen = true ∧ (e.conns k).clientId = ack.clientId) := by
    rintro k ⟨live, same⟩
    obtain ⟨fd, st, entry, behind⟩ := inv.opened k live
    have client := (entry_serves e inv fd k st entry behind).client
    have found := (inv.maps fd ack.clientId).mpr ⟨st, entry, client.symm.trans same⟩
    rw [absent] at found
    cases found
  simp [Egress.logPop, nobody]

theorem log_pop_found (ack : OutboundAck) (fd k : Nat) (st : OutState) (entry : e.clientStates fd = some st)
    (behind : e.table fd = some k) (client : st.clientId = ack.clientId) :
    e.logPop ack = e.replaced fd k st { e.conns k with popped := (e.conns k).popped ++ [ack] } e.answers := by
  have serves := entry_serves e inv fd k st entry behind
  have conns : (e.logPop ack).conns = Function.update e.conns k
      { e.conns k with popped := (e.conns k).popped ++ [ack] } := by
    funext i
    by_cases here : i = k
    · subst here
      rw [Function.update_self, Egress.logPop]
      simp only [serves.opened, serves.client, client, and_self, if_true]
    · rw [Function.update_of_ne here, Egress.logPop]
      refine if_neg ?_
      rintro ⟨live, same⟩
      obtain ⟨other, st', entry', behind'⟩ := inv.opened i live
      have known := (entry_serves e inv other i st' entry' behind').known
      exact here (inv.distinct i k known serves.known (same.trans (client.symm.trans serves.client.symm)))
  have states : Function.update e.clientStates fd (some st) = e.clientStates := by
    rw [← entry, Function.update_eq_self]
  rw [Egress.replaced, states, ← conns]
  rfl

theorem deliver_inv (memory : Nat → Byte) (ack : OutboundAck) :
    ∃ next, e.deliver memory ack = .ok next ∧ EgressInv next := by
  have lookup : (e.logPop ack).fdByClient = e.fdByClient := rfl
  simp only [Egress.deliver, lookup]
  cases found : e.fdByClient ack.clientId with
  | none => exact ⟨e, by simp [log_pop_absent e inv ack found], inv⟩
  | some fd =>
      obtain ⟨st, entry, client⟩ := (inv.maps fd ack.clientId).mp found
      obtain ⟨k, behind, serves⟩ := inv.attached fd st entry
      have logged := log_pop_found e inv ack fd k st entry behind client
      have entry' : (e.logPop ack).clientStates fd = some st := entry
      have same : (e.logPop ack).setState fd st = e.replaced fd k st
          { e.conns k with popped := (e.conns k).popped ++ [ack] } e.answers := by
        rw [logged]
        simp [Egress.setState, Egress.replaced]
      obtain ⟨next, done, outcome⟩ := send_report_spec e fd k behind st
        { e.conns k with popped := (e.conns k).popped ++ [ack] } e.answers
        _ ack.report.bytes serves.holds
      refine ⟨next, ?_, outcome_inv e inv fd k st entry behind
        { e.conns k with popped := (e.conns k).popped ++ [ack] } rfl serves.opened ?_ _ ?_
        next outcome⟩
      · simp only [entry', Option.getD_some, same]
        exact done
      · intro other member
        rcases List.mem_append.mp member with before | last
        · exact inv.own k other before
        · rw [List.mem_singleton.mp last]
          exact (serves.client.trans client).symm
      · rw [report_bytes_append]
        simp [reportBytes]

end

theorem fold_inv {α : Type} (turn : Egress → α → Checked Egress)
    (keeps : ∀ e item, EgressInv e → ∃ next, turn e item = .ok next ∧ EgressInv next)
    (items : List α) (e : Egress) (inv : EgressInv e) :
    ∃ next, items.foldlM turn e = .ok next ∧ EgressInv next := by
  induction items generalizing e with
  | nil => exact ⟨e, rfl, inv⟩
  | cons item rest ih =>
      obtain ⟨middle, first, inv'⟩ := keeps e item inv
      obtain ⟨next, done, last⟩ := ih middle inv'
      exact ⟨next, by rw [List.foldlM_cons, first]; exact done, last⟩

theorem queues_inv (e : Egress) (inv : EgressInv e) (queues : Nat → List OutboundAck)
    (answers : List SendResult) :
    EgressInv { e with ackQueues := queues, answers := answers } :=
  ⟨inv.maps, fun fd st entry => by
    obtain ⟨k, behind, serves⟩ := inv.attached fd st entry
    exact ⟨k, behind, serves.known, serves.opened, serves.client, serves.holds⟩,
    inv.detached, inv.opened, inv.ids, inv.distinct, inv.own, inv.cut⟩

theorem drain_acks_inv (memory : Nat → Byte) (e : Egress) (inv : EgressInv e) (order : List Nat) :
    ∃ next, e.drainAcks memory order = .ok next ∧ EgressInv next := by
  obtain ⟨middle, first, inv'⟩ := fold_inv (Egress.drainShard memory)
    (fun e shard inv => fold_inv (Egress.deliver memory) (fun e ack inv => deliver_inv e inv memory ack) _ _
      (queues_inv e inv _ e.answers)) (List.range numShards) e inv
  obtain ⟨next, second, last⟩ := fold_inv Egress.flushEntry (fun e fd inv => by
    unfold Egress.flushEntry
    cases entry : e.clientStates fd with
    | none => exact ⟨e, rfl, inv⟩
    | some st =>
        simp only
        split
        · exact flush_or_close_inv e inv fd st entry e.answers
        · exact ⟨e, rfl, inv⟩) order middle inv'
  exact ⟨next, by rw [Egress.drainAcks, first, checked_bind_ok, second], last⟩

theorem accept_egress_inv (memory : Nat → Byte) (e : Egress) (inv : EgressInv e) (fd others : Nat)
    (closed : e.table fd = none)
    (few : e.nextClientId + others < 2 ^ 32 - 1) : EgressInv (e.accept memory fd others) := by
  have small : (e.nextClientId + others) % 2 ^ 32 = e.nextClientId + others := Nat.mod_eq_of_lt (by omega)
  have free : e.clientStates fd = none := by
    cases entry : e.clientStates fd with
    | none => rfl
    | some st =>
        obtain ⟨k, behind, _⟩ := inv.attached fd st entry
        rw [closed] at behind
        cases behind
  have older : ∀ other st, e.clientStates other = some st → st.clientId ≠ e.nextClientId + others := by
    intro other st entry
    obtain ⟨k, _, serves⟩ := inv.attached other st entry
    have bound := inv.ids k serves.known
    rw [serves.client] at bound
    omega
  have elsewhere : ∀ i, i < e.accepted → i ≠ e.accepted := fun i bound => Nat.ne_of_lt bound
  simp only [Egress.accept, Egress.setState, free, Option.getD_none, small]
  refine ⟨fun other c => ?_, fun other st found => ?_, fun other gone => ?_, fun i live => ?_,
    fun i bound => ?_,
    fun first second low low' same => ?_, fun i => ?_, fun i => ?_⟩
  · by_cases here : other = fd
    · subst here
      by_cases same : c = e.nextClientId + others
      · simp [same]
      · have unmapped : e.fdByClient c ≠ some other := by
          intro found
          obtain ⟨st, entry, _⟩ := (inv.maps other c).mp found
          rw [free] at entry
          cases entry
        simp [same, unmapped, Ne.symm same]
    · by_cases same : c = e.nextClientId + others
      · subst same
        simp only [Function.update_self, Option.some.injEq, Ne.symm here,
          Function.update_of_ne here, false_iff, not_exists, not_and]
        exact older other
      · simp only [Function.update_of_ne same, Function.update_of_ne here]
        exact inv.maps other c
  · by_cases here : other = fd
    · subst here
      simp only [Function.update_self, Option.some.injEq] at found ⊢
      subst found
      refine ⟨e.accepted, rfl, Nat.lt_succ_self _, by simp, by simp, ?_⟩
      simp only [Function.update_self]
      exact ⟨Nat.zero_le _, rfl, by simp⟩
    · simp only [Function.update_of_ne here] at found ⊢
      obtain ⟨k, behind, serves⟩ := inv.attached other st found
      have different := elsewhere k serves.known
      refine ⟨k, behind, Nat.lt_succ_of_lt serves.known, ?_, ?_, ?_⟩
      · simp only [Function.update_of_ne different]
        exact serves.opened
      · simp only [Function.update_of_ne different]
        exact serves.client
      · simp only [Function.update_of_ne different]
        exact serves.holds
  · by_cases here : other = fd
    · subst here
      simp at gone
    · simp only [Function.update_of_ne here] at gone ⊢
      exact inv.detached other gone
  · by_cases here : i = e.accepted
    · subst here
      exact ⟨fd, _, Function.update_self .., Function.update_self ..⟩
    · simp only [Function.update_of_ne here] at live
      obtain ⟨other, st, entry, behind⟩ := inv.opened i live
      have different : other ≠ fd := by
        rintro rfl
        rw [free] at entry
        cases entry
      exact ⟨other, st, by simpa only [Function.update_of_ne different] using entry,
        by simpa only [Function.update_of_ne different] using behind⟩
  · by_cases here : i = e.accepted
    · subst here
      simp only [Function.update_self]
      omega
    · simp only [Function.update_of_ne here] at bound ⊢
      have before := inv.ids i (by omega)
      omega
  · by_cases here : first = e.accepted
    · by_cases there : second = e.accepted
      · rw [here, there]
      · have before := inv.ids second (by simp only at low'; omega)
        simp only [here, Function.update_self, Function.update_of_ne there] at same
        omega
    · by_cases there : second = e.accepted
      · have before := inv.ids first (by simp only at low; omega)
        simp only [there, Function.update_self, Function.update_of_ne here] at same
        omega
      · simp only [Function.update_of_ne here, Function.update_of_ne there] at same
        exact inv.distinct first second (by simp only at low; omega) (by simp only at low'; omega) same
  · by_cases here : i = e.accepted
    · subst here
      simp
    · simp only [Function.update_of_ne here]
      exact inv.own i
  · by_cases here : i = e.accepted
    · subst here
      simp only [Function.update_self]
      exact ⟨List.prefix_refl _, fun before after split => by simp at split⟩
    · simp only [Function.update_of_ne here]
      exact inv.cut i

theorem egress_step_inv (memory : Nat → Byte) (e : Egress) (inv : EgressInv e) (label : EgressLabel)
    (allowed : EgressAllowed e label) :
    ∃ next, egressStep memory e label = .ok next ∧ EgressInv next := by
  cases label with
  | accept fd others => exact ⟨_, rfl, accept_egress_inv memory e inv fd others allowed.1 allowed.2⟩
  | close fd =>
      refine ⟨_, rfl, ?_⟩
      cases entry : e.clientStates fd with
      | none => simpa using inv
      | some st => simpa using close_client_inv e inv fd st entry
  | writable fd answers =>
      rw [egressStep]
      cases entry : e.clientStates fd with
      | none => exact ⟨e, rfl, inv⟩
      | some st => exact flush_or_close_inv e inv fd st entry answers
  | drain answers order => exact drain_acks_inv memory _ (queues_inv e inv e.ackQueues answers) order
  | ack shard ack => exact ⟨_, rfl, queues_inv e inv _ e.answers⟩

def EgressRun (memory : Nat → Byte) : List EgressLabel → Egress → Prop :=
    Run .init (Guarded EgressAllowed (egressStep memory))

theorem egress_run_inv (memory : Nat → Byte) (labels : List EgressLabel) (e : Egress)
    (run : EgressRun memory labels e) : EgressInv e := by
  refine run_invariant EgressInv initial_egress_inv ?_ labels e run
  rintro state label next inv ⟨allowed, step⟩
  obtain ⟨other, result, inv'⟩ := egress_step_inv memory state inv label allowed
  cases step.symm.trans result
  exact inv'

end HftExchange
