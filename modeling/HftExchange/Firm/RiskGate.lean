import HftExchange.Firm.TickPipeline
import HftExchange.Protocol.ItchWire

set_option autoImplicit false

namespace HftExchange

open Base

def Surroundings.second (look : Surroundings) : Nat := look.tsc / 3500000000

-- What the checks other than the rate limit ask of an action, at the look at
-- which it is checked.
structure Passed (look : Surroundings) (a : NormalizedOrderAction) : Prop where
  live : look.killSwitch = false
  size : a.isCancel = false → a.quantity ≤ RiskManager.maxOrderQty
  inventory : a.isCancel = false →
    if a.isBuy then (look.currentPositions a.instrumentId + BitVec.ofNat 32 a.quantity).toInt ≤
      RiskManager.maxPosition
    else -RiskManager.maxPosition ≤
      (look.currentPositions a.instrumentId - BitVec.ofNat 32 a.quantity).toInt

-- A position that an order of the greatest size cannot make overflow.
def Modest (position : BitVec 32) : Prop :=
  -(2 ^ 31 - 1000) ≤ position.toInt ∧ position.toInt ≤ 2 ^ 31 - 1001

def StaysWithin (look : Surroundings) (a : NormalizedOrderAction) : Prop :=
  if a.isBuy then (look.currentPositions a.instrumentId).toInt + a.quantity ≤
    RiskManager.maxPosition
  else -RiskManager.maxPosition ≤ (look.currentPositions a.instrumentId).toInt - a.quantity

theorem passed_within (look : Surroundings) (a : NormalizedOrderAction) (new : a.isCancel = false)
    (passed : Passed look a) (modest : Modest (look.currentPositions a.instrumentId)) :
    StaysWithin look a := by
  obtain ⟨low, high⟩ := modest
  have size := passed.size new
  have inventory := passed.inventory new
  rw [RiskManager.maxOrderQty] at size
  have quantity : (BitVec.ofNat 32 a.quantity).toInt = a.quantity := by
    have small : (BitVec.ofNat 32 a.quantity).toNat = a.quantity :=
      Nat.mod_eq_of_lt (by omega)
    rw [BitVec.toInt_eq_toNat_of_lt (by omega), small]
  unfold StaysWithin
  split at inventory
  · rename_i buy
    rw [if_pos buy]
    rw [BitVec.toInt_add, quantity, Int.bmod_eq_of_le (by omega) (by omega)] at inventory
    exact inventory
  · rename_i sell
    rw [if_neg sell]
    rw [BitVec.toInt_sub, quantity, Int.bmod_eq_of_le (by omega) (by omega)] at inventory
    exact inventory

section
variable (around : Nat → Surroundings)

-- The orders sent, each with the look at which it was checked, and how many of
-- the new ones were in one second.
abbrev SentLog := List (Nat × NormalizedOrderAction)

def newIn (second : Nat) (entry : Nat × NormalizedOrderAction) : Bool :=
    !entry.2.isCancel && (around entry.1).second = second

def sentIn (log : SentLog) (second : Nat) : Nat := log.countP (newIn around second)

-- The rule of the gate: no more than so many new orders a second.
def AdmittedNext (log : SentLog) (look : Nat) (a : NormalizedOrderAction) : Prop :=
  Passed (around look) a ∧
    (a.isCancel = true ∨ sentIn around log (around look).second < RiskManager.msgRateLimitPerSec)

-- The counter of the risk manager counts what comes as far as the limit in the
-- current second, sent or not.
structure GateInv (risk : RiskManager) (looks : Nat) (log : SentLog) : Prop where
  before : ∀ entry ∈ log, entry.1 < looks
  ordered : log.Pairwise fun first second => first.1 < second.1
  passed : ∀ entry ∈ log, Passed (around entry.1) entry.2
  current : ∀ look, looks ≤ look → risk.currentSecond ≤ (around look).second
  counted : sentIn around log risk.currentSecond = min risk.msgCountThisSecond RiskManager.msgRateLimitPerSec
  small : risk.msgCountThisSecond ≤ looks
  later : ∀ second, risk.currentSecond < second → sentIn around log second = 0
  limited : ∀ second, sentIn around log second ≤ RiskManager.msgRateLimitPerSec

theorem sent_in_append (log : SentLog) (look : Nat) (a : NormalizedOrderAction) (second : Nat) :
    sentIn around (log ++ [(look, a)]) second =
      sentIn around log second + if a.isCancel = false ∧ (around look).second = second then 1 else 0 := by
  rw [sentIn, List.countP_append, List.countP_singleton, newIn, sentIn]
  cases a.isCancel <;> simp

section
variable (risk : RiskManager) (look : Nat) (log : SentLog) (a : NormalizedOrderAction)
  (inv : GateInv around risk look log)
  (clock : ∀ first second, first ≤ second → (around first).tsc ≤ (around second).tsc)
include inv

theorem gate_look : GateInv around risk (look + 1) log :=
  { inv with
    before := fun entry member => Nat.lt_succ_of_lt (inv.before entry member)
    current := fun later bound => inv.current later (Nat.le_of_succ_le bound)
    small := Nat.le_succ_of_le inv.small }

theorem gate_cancel (cancel : a.isCancel = true) (passed : Passed (around look) a) :
    GateInv around risk (look + 1) (log ++ [(look, a)]) := by
  have same : ∀ second, sentIn around (log ++ [(look, a)]) second = sentIn around log second := by
    intro second
    rw [sent_in_append, if_neg (by simp [cancel]), Nat.add_zero]
  have next := gate_look around risk look log inv
  refine { next with
    before := List.forall_mem_append.mpr ⟨next.before, by simp⟩
    ordered := List.pairwise_append.mpr ⟨inv.ordered, List.pairwise_singleton _ _,
      fun entry member last single => ?_⟩
    passed := List.forall_mem_append.mpr ⟨inv.passed, by simpa using passed⟩
    counted := (same _).trans inv.counted
    later := fun second after => (same second).trans (inv.later second after)
    limited := fun second => (same second).trans_le (inv.limited second) }
  rw [List.mem_singleton.mp single]
  exact inv.before entry member

include clock

theorem gate_second :
    ∃ count, GateInv around ⟨count, (around look).second⟩ look log ∧
    risk.underRateLimit (around look) =
      (decide ((count + 1) % 2 ^ 64 ≤ RiskManager.msgRateLimitPerSec),
        ⟨(count + 1) % 2 ^ 64, (around look).second⟩) := by
  have order := inv.current look (Nat.le_refl look)
  have turn : ∀ later, look ≤ later → (around look).second ≤ (around later).second := fun later bound =>
    Nat.div_le_div_right (clock look later bound)
  by_cases same : (around look).second = risk.currentSecond
  · refine ⟨risk.msgCountThisSecond, { inv with current := turn, counted := ?_, later := ?_ }, ?_⟩
    · exact same ▸ inv.counted
    · exact same ▸ inv.later
    · rw [RiskManager.underRateLimit, Surroundings.second] at *
      simp only [same, ne_eq, not_true_eq_false, if_false]
  · have fresh : sentIn around log (around look).second = 0 := inv.later _ (by omega)
    refine ⟨0, { inv with current := turn, counted := ?_, small := Nat.zero_le _, later := ?_ }, ?_⟩
    · exact fresh.trans (Nat.zero_min _).symm
    · intro second after
      exact inv.later second (Nat.lt_of_le_of_lt order after)
    · rw [RiskManager.underRateLimit, Surroundings.second] at *
      simp only [same, ne_eq, not_false_eq_true, if_true]

variable (few : look + 1 < 2 ^ 64)
include few

theorem gate_limited (new : a.isCancel = false) (passed : Passed (around look) a) :
    GateInv around (risk.underRateLimit (around look)).2 (look + 1)
      (if (risk.underRateLimit (around look)).1 then log ++ [(look, a)] else log) ∧
    ((risk.underRateLimit (around look)).1 = true ↔ sentIn around log (around look).second <
      RiskManager.msgRateLimitPerSec) := by
  obtain ⟨count, turned, result⟩ := gate_second around risk look log inv clock
  have counted := turned.counted
  have small := turned.small
  dsimp only at counted small
  have whole : (count + 1) % 2 ^ 64 = count + 1 := Nat.mod_eq_of_lt (by omega)
  have next := gate_look around _ look log turned
  rw [result, whole]
  by_cases room : count + 1 ≤ RiskManager.msgRateLimitPerSec
  · rw [decide_eq_true room, if_pos rfl]
    have more : sentIn around (log ++ [(look, a)]) (around look).second = count + 1 := by
      rw [sent_in_append, if_pos ⟨new, rfl⟩, counted, Nat.min_eq_left (Nat.le_of_succ_le room)]
    have others : ∀ second, (around look).second ≠ second →
        sentIn around (log ++ [(look, a)]) second = sentIn around log second := by
      intro second other
      rw [sent_in_append, if_neg fun both => other both.2, Nat.add_zero]
    refine ⟨{ next with
      before := List.forall_mem_append.mpr ⟨next.before, by simp⟩
      ordered := List.pairwise_append.mpr ⟨turned.ordered, List.pairwise_singleton _ _,
        fun entry member last single => ?_⟩
      passed := List.forall_mem_append.mpr ⟨turned.passed, by simpa using passed⟩
      counted := more.trans (Nat.min_eq_left room).symm
      small := Nat.succ_le_succ small
      later := fun second after => (others second (Nat.ne_of_lt after)).trans (turned.later second after)
      limited := fun second => ?_ }, iff_of_true rfl ?_⟩
    · rw [List.mem_singleton.mp single]
      exact turned.before entry member
    · by_cases here : (around look).second = second
      · rw [← here, more]
        exact room
      · rw [others second here]
        exact turned.limited second
    · rw [counted]
      omega
  · rw [decide_eq_false room, if_neg Bool.false_ne_true]
    refine ⟨{ next with counted := ?_, small := Nat.succ_le_succ small }, iff_of_false Bool.false_ne_true ?_⟩
    · dsimp only
      rw [counted]
      omega
    · rw [counted]
      omega

theorem check_order_spec (safe : Bool) (next : RiskManager)
    (checked : risk.checkOrder (around look) a = .ok (safe, next)) :
    GateInv around next (look + 1) (if safe then log ++ [(look, a)] else log) ∧
    (safe = true ↔ AdmittedNext around log look a) := by
  have kept := gate_look around risk look log inv
  have refused (blocked : ¬ Passed (around look) a) (same : (false, risk) = (safe, next)) :
      GateInv around next (look + 1) (if safe then log ++ [(look, a)] else log) ∧
        (safe = true ↔ AdmittedNext around log look a) := by
    cases same
    exact ⟨kept, iff_of_false Bool.false_ne_true fun admitted => blocked admitted.1⟩
  have limited (new : a.isCancel = false) (passed : Passed (around look) a)
    (same : risk.underRateLimit (around look) = (safe, next)) :
      GateInv around next (look + 1) (if safe then log ++ [(look, a)] else log) ∧
        (safe = true ↔ AdmittedNext around log look a) := by
    have step := gate_limited around risk look log a inv clock few new passed
    rw [same] at step
    exact ⟨step.1, step.2.trans ⟨fun room => ⟨passed, .inr room⟩, fun admitted =>
      admitted.2.resolve_left (by simp [new])⟩⟩
  unfold RiskManager.checkOrder at checked
  by_cases dead : (around look).killSwitch = true
  · rw [if_pos dead] at checked
    exact refused (fun passed => by simp [passed.live] at dead) (Except.ok.inj checked)
  · rw [if_neg dead] at checked
    have live : (around look).killSwitch = false := Bool.eq_false_iff.mpr dead
    by_cases cancel : a.isCancel = true
    · rw [if_pos cancel] at checked
      have passed : Passed (around look) a :=
        ⟨live, fun new => by simp [cancel] at new, fun new => by simp [cancel] at new⟩
      cases checked
      exact ⟨gate_cancel around risk look log a inv cancel passed, iff_of_true rfl ⟨passed, .inl cancel⟩⟩
    · rw [if_neg cancel] at checked
      have new : a.isCancel = false := Bool.eq_false_iff.mpr cancel
      by_cases fat : RiskManager.maxOrderQty < a.quantity
      · rw [if_pos fat] at checked
        exact refused (fun passed => absurd (passed.size new) (Nat.not_le.mpr fat)) (Except.ok.inj checked)
      · rw [if_neg fat] at checked
        obtain ⟨position, fetched, decided⟩ := (checked_bind_eq_ok _ _ _).mp checked
        have known : position = (around look).currentPositions a.instrumentId := by
          unfold fetch at fetched
          split at fetched
          · exact (Except.ok.inj fetched).symm
          · cases fetched
        subst known
        have passed_iff : Passed (around look) a ↔ if a.isBuy then
            ((around look).currentPositions a.instrumentId +
              BitVec.ofNat 32 a.quantity).toInt ≤ RiskManager.maxPosition
          else -RiskManager.maxPosition ≤ ((around look).currentPositions a.instrumentId -
            BitVec.ofNat 32 a.quantity).toInt :=
          ⟨fun passed => passed.inventory new, fun inventory =>
            ⟨live, fun _ => Nat.le_of_not_lt fat, fun _ => inventory⟩⟩
        cases side : a.isBuy with
        | true =>
            simp only [side, if_true] at decided passed_iff
            split at decided
            · rename_i high
              exact refused (fun passed => absurd (passed_iff.mp passed) (Int.not_le.mpr high))
                (Except.ok.inj decided)
            · rename_i fits
              exact limited new (passed_iff.mpr (Int.not_lt.mp fits)) (Except.ok.inj decided)
        | false =>
            simp only [side, Bool.false_eq_true, if_false] at decided passed_iff
            split at decided
            · rename_i low
              exact refused (fun passed => absurd (passed_iff.mp passed) (Int.not_le.mpr low))
                (Except.ok.inj decided)
            · rename_i fits
              exact limited new (passed_iff.mpr (Int.not_lt.mp fits)) (Except.ok.inj decided)

end

section
variable {F : Type} (ops : FloatOps F) (clock : ∀ first second, first ≤ second →
  (around first).tsc ≤ (around second).tsc)

theorem execute_action_sent (p next : TickPipeline F) (a : NormalizedOrderAction)
    (done : p.executeAction a = .ok next) :
    next.risk = p.risk ∧ next.looks = p.looks ∧ next.sentOrders = p.sentOrders ++ [a] := by
  unfold TickPipeline.executeAction at done
  split at done
  · obtain ⟨tracker, _, result⟩ := (checked_bind_eq_ok _ _ _).mp done
    cases result
    exact ⟨rfl, rfl, rfl⟩
  · cases done
    exact ⟨rfl, rfl, rfl⟩

def Gated (p : TickPipeline F) (log : SentLog) : Prop :=
  GateInv around p.risk p.looks log ∧ log.map Prod.snd = p.sentOrders

theorem submit_looks (p next : TickPipeline F) (a : NormalizedOrderAction)
    (done : p.submit around a = .ok next) : next.looks = p.looks + 1 := by
  obtain ⟨⟨safe, risk⟩, _, result⟩ := (checked_bind_eq_ok _ _ _).mp done
  cases safe with
  | true => exact (execute_action_sent _ next a result).2.1
  | false =>
      cases result
      rfl

include clock in
theorem submit_gated (p next : TickPipeline F) (a : NormalizedOrderAction) (log : SentLog)
    (gated : Gated around p log)
    (few : p.looks + 1 < 2 ^ 64) (done : p.submit around a = .ok next) :
    (∃ log', Gated around next log') ∧
    (next.sentOrders = p.sentOrders ++ [a] ↔ AdmittedNext around log p.looks a) := by
  obtain ⟨⟨safe, risk⟩, checked, result⟩ := (checked_bind_eq_ok _ _ _).mp done
  obtain ⟨inv, sent⟩ := gated
  obtain ⟨inv', admitted⟩ := check_order_spec around p.risk p.looks log a inv clock few safe risk checked
  cases safe with
  | true =>
      obtain ⟨sameRisk, sameLooks, more⟩ := execute_action_sent _ next a result
      refine ⟨⟨log ++ [(p.looks, a)], ?_, ?_⟩, iff_of_true more (admitted.mp rfl)⟩
      · rw [sameRisk, sameLooks]
        exact inv'
      · rw [List.map_append, sent, more]
        rfl
  | false =>
      cases result
      refine ⟨⟨log, inv', sent⟩, iff_of_false (fun same => ?_) fun allowed =>
        absurd (admitted.mpr allowed) Bool.false_ne_true⟩
      have lengths : p.sentOrders.length = p.sentOrders.length + 1 := by simpa using congrArg List.length same
      omega

def GateKept (p : TickPipeline F) : Prop := p.looks < 2 ^ 64 → ∃ log, Gated around p log

include clock

theorem submit_kept (p next : TickPipeline F) (a : NormalizedOrderAction) (kept : GateKept around p)
    (done : p.submit around a = .ok next) :
    GateKept around next := by
  intro few
  rw [submit_looks around p next a done] at few
  obtain ⟨log, gated⟩ := kept (by omega)
  exact (submit_gated around clock p next a log gated few done).1

theorem on_tick_kept (p next : TickPipeline F) (tick : NormalizedTick) (kept : GateKept around p)
    (done : p.onTick ops around tick = .ok next) :
    GateKept around next := by
  obtain ⟨builder, _, snapped⟩ := (checked_bind_eq_ok _ _ _).mp done
  obtain ⟨snap, _, decided⟩ := (checked_bind_eq_ok _ _ _).mp snapped
  obtain ⟨⟨actions, strategy⟩, _, submitted⟩ := (checked_bind_eq_ok _ _ _).mp decided
  exact checked_foldlM_keeps (TickPipeline.submit around) (GateKept around) actions
    (fun state a _ after inv step => submit_kept around clock state after a inv step)
      { p with builder := builder, strategy := strategy } next
    kept submitted

theorem on_message_kept (buf : Bytes) (p next : TickPipeline F) (i : Nat) (kept : GateKept around p)
    (done : p.onMessage ops around buf i = .ok next) : GateKept around next := by
  obtain ⟨raw, _, ticked⟩ := (checked_bind_eq_ok _ _ _).mp done
  refine on_tick_kept around ops clock { p with looks := p.looks + 1 } next _ (fun few => ?_) ticked
  obtain ⟨log, inv, sent⟩ := kept (Nat.lt_of_succ_lt few)
  exact ⟨log, gate_look around p.risk p.looks log inv, sent⟩

theorem on_datagram_kept (p next : TickPipeline F) (buf : Bytes) (kept : GateKept around p)
    (done : p.onDatagram ops around buf = .ok next) :
    GateKept around next :=
  checked_foldlM_keeps (TickPipeline.onMessage ops around buf) (GateKept around) _
    (fun state i _ after inv step => on_message_kept around ops clock buf state after i inv
      step) p next kept done

end

end

theorem risk_gate_exact {F : Type} (ops : FloatOps F) (around : Nat → Surroundings)
    (clock : ∀ first second, first ≤ second → (around first).tsc ≤ (around second).tsc)
    (strategy : FirmStrategy F) (datagrams : List Bytes)
    (p : TickPipeline F)
    (session : datagrams.foldlM (TickPipeline.onDatagram ops around) (.init strategy) = .ok p)
    (few : p.looks + 1 < 2 ^ 64) :
    ∃ log : SentLog, log.map Prod.snd = p.sentOrders ∧ (log.Pairwise fun first second => first.1 < second.1) ∧
      (∀ entry ∈ log, Passed (around entry.1) entry.2) ∧
      (∀ entry ∈ log, entry.2.isCancel = false →
        Modest ((around entry.1).currentPositions entry.2.instrumentId) →
        StaysWithin (around entry.1) entry.2) ∧
      (∀ second, sentIn around log second ≤ RiskManager.msgRateLimitPerSec) ∧
      ∀ a next, p.submit around a = .ok next →
      (next.sentOrders = p.sentOrders ++ [a] ↔ AdmittedNext around log p.looks a) := by
  have start : GateInv around .init 0 [] :=
    ⟨List.forall_mem_nil _, .nil, List.forall_mem_nil _, fun _ _ => Nat.zero_le _, rfl,
      Nat.le_refl 0, fun _ _ => rfl, fun _ => Nat.zero_le _⟩
  have kept := checked_foldlM_keeps (TickPipeline.onDatagram ops around) (GateKept around) datagrams
    (fun state buf _ after inv step => on_datagram_kept around ops clock state after buf inv step) _
      p (fun _ => ⟨[], start, rfl⟩) session
  obtain ⟨log, gated⟩ := kept (Nat.lt_of_succ_lt few)
  exact ⟨log, gated.2, gated.1.ordered, gated.1.passed, fun entry member new modest =>
    passed_within _ _ new (gated.1.passed entry member) modest, gated.1.limited, fun a next done =>
    (submit_gated around clock p next a log gated few done).2⟩

def calmLooks : Nat → Surroundings := fun _ => ⟨0, false, fun _ => 0⟩

def lopsidedBook : Bytes :=
  (ItchMessage.mk (ascii 'A') 7 1 90 100 (ascii 'B')).bytes 0 ++
    (ItchMessage.mk (ascii 'A') 7 2 10 102 (ascii 'S')).bytes 0

theorem lifted_offer_gated :
    ∃ p : TickPipeline (Option ℚ), p.sentOrders = [⟨1, 7, 102, 5, true, false, 0, 0, 0⟩] ∧
    ∃ log : SentLog, log.map Prod.snd = p.sentOrders ∧ (∀ entry ∈ log, Passed (calmLooks entry.1) entry.2) ∧
      ∀ second, sentIn calmLooks log second ≤ RiskManager.msgRateLimitPerSec := by
  have result : ([lopsidedBook].foldlM (TickPipeline.onDatagram exactOps calmLooks)
    (.init (.taker ⟨some (1 / 2), 5⟩ .init))).toOption.map
      (fun p => (p.looks, p.sentOrders)) = some (3, [⟨1, 7, 102, 5, true, false, 0, 0, 0⟩]) :=
        by decide +kernel
  obtain ⟨p, session, facts⟩ := Option.map_eq_some_iff.mp result
  obtain ⟨looks, sent⟩ := Prod.mk.inj facts
  have done : [lopsidedBook].foldlM (TickPipeline.onDatagram exactOps calmLooks)
      (.init (.taker ⟨some (1 / 2), 5⟩ .init)) = .ok p := by
    cases outcome : [lopsidedBook].foldlM (TickPipeline.onDatagram exactOps calmLooks)
      (.init (.taker ⟨some (1 / 2), 5⟩ .init)) with
    | ok other =>
        rw [outcome] at session
        cases session
        rfl
    | error fault =>
        rw [outcome] at session
        cases session
  obtain ⟨log, same, _, passed, _, limited, _⟩ := risk_gate_exact exactOps calmLooks
    (fun _ _ _ => Nat.le_refl 0) _ [lopsidedBook] p done
    (by rw [looks]; decide)
  exact ⟨p, sent, log, same, passed, limited⟩

end HftExchange
