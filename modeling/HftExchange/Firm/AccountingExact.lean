import HftExchange.Firm.AccountingRun

set_option autoImplicit false

namespace HftExchange

open Base

def ordersGiven (labels : List FirmLabel) : List NormalizedOrderAction :=
  labels.filterMap fun label => match label with
    | .executeAction a => some a
    | _ => none

def reportsGiven (labels : List FirmLabel) : List FillReport :=
  labels.filterMap fun label => match label with
    | .report r => some r
    | _ => none

def InstrumentsKnown (labels : List FirmLabel) : Prop :=
  ∀ a ∈ ordersGiven labels, a.instrumentId < positionInstruments

section
variable (s next : ExecutionEngine)

theorem send_step_orders : s.sendStep.orders = s.orders := by
  unfold ExecutionEngine.sendStep
  cases state : s.send with
  | idle => rfl
  | tracked a => simp [ExecutionEngine.orders, state, SendPc.order]
  | counted a => simp [ExecutionEngine.orders, state, SendPc.order]

theorem send_step_begun : s.sendStep.begun = s.begun := by
  unfold ExecutionEngine.sendStep
  cases s.send <;> rfl

end

theorem given_snoc (labels : List FirmLabel) (label : FirmLabel) :
    ordersGiven (labels ++ [label]) = ordersGiven labels ++ ordersGiven [label] ∧
      reportsGiven (labels ++ [label]) = reportsGiven labels ++ reportsGiven [label] :=
  ⟨List.filterMap_append, List.filterMap_append⟩

theorem accounting_given (labels : List FirmLabel) (s : ExecutionEngine) (run : AccountingRun labels s) :
    ordersGiven labels = s.orders ∧ reportsGiven labels = s.begun := by
  induction run with
  | start => exact ⟨rfl, rfl⟩
  | snoc labels label state next previous step ih =>
      obtain ⟨tracked, _⟩ := accounting_run labels state previous
      obtain ⟨orders, reports⟩ := ih
      obtain ⟨splitOrders, splitReports⟩ := given_snoc labels label
      rw [splitOrders, splitReports, orders, reports]
      obtain ⟨allowed, step⟩ := step
      cases label with
      | executeAction a =>
          cases step
          obtain ⟨idle, notCancel, small, _⟩ := allowed
          simp only [ExecutionEngine.executeAction, idle, notCancel, small, and_self, if_true]
          exact ⟨by simp [ordersGiven, ExecutionEngine.orders, idle, SendPc.order],
            by simp [reportsGiven, ExecutionEngine.begun]⟩
      | sendStep =>
          cases step
          rw [send_step_orders, send_step_begun]
          exact ⟨List.append_nil _, List.append_nil _⟩
      | report r =>
          cases step
          rw [report_accepted state tracked r allowed]
          obtain ⟨idle, _⟩ := allowed
          exact ⟨List.append_nil _, by simp [reportsGiven, ExecutionEngine.begun, idle, FillPc.current]⟩
      | fillStep =>
          obtain ⟨begun, dispatched, send⟩ := fill_step_keeps state next step
          rw [begun, ExecutionEngine.orders, ExecutionEngine.orders, dispatched, send]
          exact ⟨List.append_nil _, List.append_nil _⟩

theorem firm_step_defined (s : ExecutionEngine) (tracked : TrackerRep s)
    (known : ∀ o ∈ s.dispatched, o.instrumentId < positionInstruments) (label : FirmLabel) :
    ∃ next, firmStep s label = .ok next := by
  cases label with
  | executeAction a => exact ⟨_, rfl⟩
  | sendStep => exact ⟨_, rfl⟩
  | report r => exact ⟨_, rfl⟩
  | fillStep => exact fill_step_defined s tracked fun _ _ o inside _ => known o inside

-- At every moment of the two threads the counters are those of the orders that
-- were counted and of the reports that got to the counter. Between two calls
-- these are all orders and all reports that the threads were called with.
theorem firm_accounting_exact (labels : List FirmLabel) (s : ExecutionEngine) (run : AccountingRun labels s)
    (known : InstrumentsKnown labels) :
    s.unknown = [] ∧ s.inFlight = (s.counted.filter (fun o => !fullyFilled s.delivered o)).length ∧
      (∀ r, s.fill = .closed r → 0 < s.inFlight) ∧ s.ordersAcked = (s.since 3).length ∧
      (∀ inst, s.currentPositions inst = BitVec.ofInt 32 ((s.since 1).map (signedOn s.dispatched inst)).sum) ∧
      s.realizedPnl = BitVec.ofInt 64 ((s.since 2).map (cashFlow s.dispatched)).sum ∧
      (s.send = .idle → s.counted = s.dispatched) ∧ (s.fill = .idle → ∀ stage, s.since stage = s.delivered) ∧
      ordersGiven labels = s.dispatched ++ s.send.order.toList ∧
      reportsGiven labels = s.delivered ++ s.fill.current.toList ∧
      ∀ label, ∃ next, firmStep s label = .ok next := by
  obtain ⟨tracked, accounted⟩ := accounting_run labels s run
  obtain ⟨orders, reports⟩ := accounting_given labels s run
  refine ⟨accounted.unknown, accounted.inFlight, fun r closed => ?_, accounted.ordersAcked,
    accounted.positions, accounted.realizedPnl,
    fun idle => ?_, fun idle stage => ?_, orders, reports, firm_step_defined s tracked fun o inside => ?_⟩
  · obtain ⟨next, step⟩ : ∃ next, s.fillStep = .ok next := ⟨_, by rw [ExecutionEngine.fillStep, closed]; rfl⟩
    exact (release_accounted s tracked accounted r closed next step).2.2
  · rw [ExecutionEngine.counted, idle, List.append_nil]
  · rw [ExecutionEngine.since, idle, show FillPc.idle.current.toList = [] from rfl, ite_self, List.append_nil]
  · exact known o (orders ▸ List.mem_append_left _ inside)

def twoFills : List FirmLabel :=
  [.executeAction ⟨1, 7, 100, 10, true, false, 0, 0, 0⟩, .sendStep, .sendStep, .report ⟨1, 4, 100⟩,
    .fillStep, .fillStep,
    .executeAction ⟨2, 7, 101, 5, false, false, 0, 0, 0⟩, .fillStep, .sendStep, .fillStep,
      .report ⟨1, 6, 99⟩, .fillStep, .fillStep, .sendStep,
    .fillStep, .fillStep, .fillStep]

theorem two_fills_accounted :
    ∃ s, AccountingRun twoFills s ∧ s.unknown = [] ∧
    s.inFlight = (s.counted.filter (fun o => !fullyFilled s.delivered o)).length ∧ s.inFlight = 1 ∧
    s.ordersAcked = 2 ∧
    s.currentPositions 7 = 10 ∧ s.realizedPnl = -994 ∧ reportsGiven twoFills = s.delivered ++
      s.fill.current.toList := by
  have result : (execute FirmAllowed firmStep .init twoFills).map
    (fun s => (s.inFlight, s.ordersAcked, s.currentPositions 7, s.realizedPnl)) =
      some (1, 2, 10, -994) := by decide
  obtain ⟨s, found, facts⟩ := Option.map_eq_some_iff.mp result
  simp only [Prod.mk.injEq] at facts
  have run : AccountingRun twoFills s := execute_run FirmAllowed firmStep twoFills .init s found
  obtain ⟨unknown, flight, _, _, _, _, _, _, _, reports, _⟩ := firm_accounting_exact twoFills s run
    (by unfold InstrumentsKnown; decide)
  exact ⟨s, run, unknown, flight, facts.1, facts.2.1, facts.2.2.1, facts.2.2.2, reports⟩

-- An order on instrument 1000 is tracked and sent. The first report for it
-- makes on_fill access a cell behind the array.
theorem position_out_of_bounds :
    ¬ ∀ (labels : List FirmLabel) (s : ExecutionEngine), AccountingRun labels s →
    ∀ label, FirmAllowed s label → ∃ next, firmStep s label = .ok next := by
  intro always
  let labels : List FirmLabel :=
    [.executeAction ⟨1, 1000, 100, 10, true, false, 0, 0, 0⟩, .sendStep, .sendStep,
    .report ⟨1, 4, 100⟩]
  have runs : (execute FirmAllowed firmStep .init labels).map
    (fun s => (s.fill, (s.orderTracker 1).instrumentId)) =
      some (.accepted ⟨1, 4, 100⟩, 1000) := by decide
  obtain ⟨s, found, facts⟩ := Option.map_eq_some_iff.mp runs
  obtain ⟨state, instrument⟩ := Prod.mk.inj facts
  obtain ⟨next, step⟩ := always labels s (execute_run FirmAllowed firmStep labels .init s found)
    .fillStep trivial
  simp [firmStep, ExecutionEngine.fillStep, state, instrument, fetch, positionInstruments] at step

end HftExchange
