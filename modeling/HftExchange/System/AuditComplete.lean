import HftExchange.System.Shutdown

set_option autoImplicit false

namespace HftExchange

open Base

def Session.logOf (s : Session) (q : Nat) : List DropCopyMessage :=
    (s.log.filter fun entry => entry.1 = q).map Prod.snd

def AuditComplete (s : Session) : Prop := ∀ q, s.logOf q = s.sent q

def recordCount (workers : Nat) (s : Session) : Nat :=
  ∑ q ∈ Finset.range (numShards + workers), (s.sent q).length

def Ahead : ManagerLoop → Nat → Prop
  | .head, _ => False
  | .draining k, q => k ≤ q
  | .done, _ => False

-- The condition on one step: the flag is not cleared while a record waits in
-- a queue that the current pass has left behind, and no record is pushed to
-- such a queue once the flag is cleared.
def Collected (before after : Session) : Prop :=
  (before.running = true → after.running = false → ∀ q, ¬ Ahead before.manager q → before.queue q = []) ∧
  (before.running = false → ∀ q, after.sent q ≠ before.sent q → Ahead before.manager q)

def Stranded (s : Session) : Prop := s.running = false ∧ ∃ q, ¬ Ahead s.manager q ∧ s.queue q ≠ []

def Swept (s : Session) : Prop := s.running = false → ∀ q, ¬ Ahead s.manager q → s.queue q = []

structure Logged (workers : Nat) (s : Session) : Prop where
  within : ∀ q, s.popped q ≤ (s.sent q).length
  unknown : ∀ q, numShards + workers ≤ q → s.sent q = []
  stopped : s.manager = .done → s.running = false
  entries : (∀ q, s.logOf q = (s.sent q).take (s.popped q)) ∧ s.log.length = ∑ q ∈ Finset.range
    (numShards + workers), s.popped q ∨
    maxLogEntries ≤ recordCount workers s

theorem initial_logged (workers : Nat) : Logged workers (.init workers) where
  within _ := Nat.le_refl 0
  unknown _ _ := rfl
  stopped h := by simp [Session.init] at h
  entries := .inl ⟨fun _ => rfl, by simp [Session.init]⟩

theorem record_count_pushed (workers : Nat) (before after : Session) (q : Nat) (m : DropCopyMessage)
    (sent : after.sent = Function.update before.sent q (before.sent q ++ [m])) :
    recordCount workers before ≤ recordCount workers after := by
  refine Finset.sum_le_sum fun k _ => ?_
  rw [sent]
  by_cases same : k = q
  · subst same
    simp
  · rw [Function.update_of_ne same]

theorem popped_le_records (workers : Nat) (s : Session) (logged : Logged workers s) :
    ∑ q ∈ Finset.range (numShards + workers), s.popped q ≤ recordCount workers s :=
  Finset.sum_le_sum fun q _ => logged.within q

theorem sum_popped (workers : Nat) (popped : Nat → Nat) (q : Nat) (known : q < numShards + workers) :
    ∑ k ∈ Finset.range (numShards + workers), Function.update popped q (popped q + 1) k =
      (∑ k ∈ Finset.range (numShards + workers), popped k) + 1 := by
  have member : q ∈ Finset.range (numShards + workers) := Finset.mem_range.mpr known
  rw [Finset.sum_update_of_mem member, ← Finset.add_sum_erase _ popped member,
    ← Finset.sdiff_singleton_eq_erase]
  omega

theorem log_append (before after : Session) (q k : Nat) (m : DropCopyMessage)
    (log : after.log = before.log ++ [(q, m)]) :
    after.logOf k = before.logOf k ++ if k = q then [m] else [] := by
  by_cases same : k = q
  · subst same
    simp [Session.logOf, log]
  · simp [Session.logOf, log, same, Ne.symm same]

theorem drained_take (s : Session) (q : Nat) (m : DropCopyMessage) (rest : List DropCopyMessage)
    (head : s.queue q = m :: rest) :
    s.popped q < (s.sent q).length ∧ (s.sent q).take (s.popped q + 1) = (s.sent q).take
    (s.popped q) ++ [m] := by
  have more : s.popped q < (s.sent q).length := by
    by_contra none_
    have empty : s.queue q = [] := List.drop_eq_nil_of_le (Nat.le_of_not_lt none_)
    rw [empty] at head
    cases head
  have first : (s.sent q)[s.popped q]? = some m := by
    have got := congrArg List.head? head
    rwa [Session.queue, List.head?_drop] at got
  refine ⟨more, ?_⟩
  rw [List.take_add_one, first]
  rfl

theorem logged_step (workers : Nat) (before after : Session) (logged : Logged workers before)
    (move : AuditMove workers before after) :
    Logged workers after := by
  have same : after.sent = before.sent → after.popped = before.popped → after.log = before.log →
      (∀ q, after.popped q ≤ (after.sent q).length) ∧ (∀ q, numShards + workers ≤ q → after.sent q = []) ∧
        ((∀ q, after.logOf q = (after.sent q).take (after.popped q)) ∧
          after.log.length = ∑ q ∈ Finset.range (numShards + workers), after.popped q ∨
            maxLogEntries ≤ recordCount workers after) := by
    intro sent popped log
    rw [recordCount, sent, popped, log]
    exact ⟨logged.within, logged.unknown,
      by simpa only [Session.logOf, log, recordCount] using logged.entries⟩
  cases move with
  | cleared running manager sent popped log =>
      obtain ⟨within, unknown, entries⟩ := same sent popped log
      exact ⟨within, unknown, fun _ => running, entries⟩
  | pushed q m known running manager sent popped log =>
      have grown := record_count_pushed workers before after q m sent
      refine ⟨fun k => ?_, fun k outside => ?_, by rw [manager, running]; exact logged.stopped, ?_⟩
      · have old := logged.within k
        rw [sent, popped]
        by_cases own : k = q
        · subst own
          rw [Function.update_self, List.length_append]
          omega
        · rwa [Function.update_of_ne own]
      · rw [sent, Function.update_of_ne (by omega)]
        exact logged.unknown k outside
      · rcases logged.entries with ⟨exact_, length⟩ | full
        · refine .inl ⟨fun k => ?_, by rw [log, popped]; exact length⟩
          have old := exact_ k
          rw [Session.logOf, log, sent, popped]
          by_cases own : k = q
          · subst own
            rw [Function.update_self, List.take_append_of_le_length (logged.within k)]
            exact old
          · rw [Function.update_of_ne own]
            exact old
        · exact .inr (Nat.le_trans full grown)
  | drained q m rest known here head running manager sent popped log =>
      obtain ⟨more, taken⟩ := drained_take before q m rest head
      refine ⟨fun k => ?_, fun k outside => by rw [sent]; exact logged.unknown k outside,
        by rw [manager, running]; exact logged.stopped, ?_⟩
      · rw [sent, popped]
        by_cases own : k = q
        · subst own
          rw [Function.update_self]
          exact more
        · rw [Function.update_of_ne own]
          exact logged.within k
      · have count : recordCount workers after = recordCount workers before :=
          by rw [recordCount, recordCount, sent]
        rcases logged.entries with ⟨exact_, length⟩ | full
        · by_cases room : before.log.length < maxLogEntries
          · rw [if_pos room] at log
            refine .inl ⟨fun k => ?_, ?_⟩
            · rw [log_append before after q k m log, exact_ k, sent, popped]
              by_cases own : k = q
              · subst own
                rw [if_pos rfl, Function.update_self, taken]
              · rw [if_neg own, Function.update_of_ne own, List.append_nil]
            · rw [log, popped, List.length_append, length, sum_popped workers before.popped q known]
              rfl
          · refine .inr (count ▸ ?_)
            have bound := popped_le_records workers before logged
            omega
        · exact .inr (count ▸ full)
  | passed q here empty running manager sent popped log =>
      obtain ⟨within, unknown, entries⟩ := same sent popped log
      exact ⟨within, unknown, by simp [manager], entries⟩
  | ended q last here running manager sent popped log =>
      obtain ⟨within, unknown, entries⟩ := same sent popped log
      exact ⟨within, unknown, by simp [manager], entries⟩
  | tested here running manager sent popped log =>
      obtain ⟨within, unknown, entries⟩ := same sent popped log
      refine ⟨within, unknown, fun finished => ?_, entries⟩
      rw [running]
      by_contra set_
      rw [manager, if_pos (by simpa using set_)] at finished
      cases finished
  | apart running manager sent popped log =>
      obtain ⟨within, unknown, entries⟩ := same sent popped log
      exact ⟨within, unknown, by rw [manager, running]; exact logged.stopped, entries⟩

theorem session_logged (workers : Nat) (labels : List SessionLabel) (s : Session)
    (run : SessionRun workers labels s) : Logged workers s := by
  refine run_invariant (Logged workers) (initial_logged workers) ?_ labels s run
  intro before label after logged step
  exact logged_step workers before after logged (session_step_move workers before after label step.2)

theorem queue_eq (before after : Session) (sent : after.sent = before.sent)
    (popped : after.popped = before.popped) (q : Nat) :
    after.queue q = before.queue q := by
  rw [Session.queue, Session.queue, sent, popped]

theorem queue_pushed (before after : Session) (q k : Nat) (m : DropCopyMessage)
    (within : before.popped k ≤ (before.sent k).length)
    (sent : after.sent = Function.update before.sent q (before.sent q ++ [m]))
    (popped : after.popped = before.popped) :
    after.queue k = before.queue k ++ if k = q then [m] else [] := by
  rw [Session.queue, Session.queue, sent, popped]
  by_cases own : k = q
  · subst own
    rw [Function.update_self, if_pos rfl, List.drop_append_of_le_length within]
  · rw [Function.update_of_ne own, if_neg own, List.append_nil]

theorem stranded_step (workers : Nat) (before after : Session) (logged : Logged workers before)
    (move : AuditMove workers before after)
    (stranded : Stranded before) : Stranded after := by
  obtain ⟨stopped, k, behind, waiting⟩ := stranded
  cases move with
  | cleared running manager sent popped log =>
      exact ⟨running, k, by rwa [manager], by rwa [queue_eq before after sent popped]⟩
  | pushed q m known running manager sent popped log =>
      refine ⟨running.trans stopped, k, by rwa [manager], ?_⟩
      rw [queue_pushed before after q k m (logged.within k) sent popped]
      exact fun empty => waiting (List.append_eq_nil_iff.mp empty).1
  | drained q m rest known here head running manager sent popped log =>
      have other : k ≠ q := by
        rintro rfl
        exact behind (by rw [here]; exact Nat.le_refl k)
      refine ⟨running.trans stopped, k, by rwa [manager], ?_⟩
      rw [Session.queue, sent, popped, Function.update_of_ne other]
      exact waiting
  | passed q here empty running manager sent popped log =>
      refine ⟨running.trans stopped, k, ?_, by rwa [queue_eq before after sent popped]⟩
      rw [here] at behind
      rw [manager]
      simp only [Ahead] at behind ⊢
      omega
  | ended q last here running manager sent popped log =>
      exact ⟨running.trans stopped, k, by rw [manager]; exact not_false,
        by rwa [queue_eq before after sent popped]⟩
  | tested here running manager sent popped log =>
      refine ⟨running.trans stopped, k, ?_, by rwa [queue_eq before after sent popped]⟩
      rw [manager, if_neg (by simp [stopped])]
      exact not_false
  | apart running manager sent popped log =>
      exact ⟨running.trans stopped, k, by rwa [manager], by rwa [queue_eq before after sent popped]⟩

theorem uncollected_strands (workers : Nat) (before after : Session)
    (logged : Logged workers before) (move : AuditMove workers before after)
    (missed : ¬ Collected before after) : Stranded after := by
  rw [Collected, not_and_or] at missed
  rcases missed with clears | pushes
  · push Not at clears
    obtain ⟨set_, cleared, q, behind, waiting⟩ := clears
    cases move with
    | cleared running manager sent popped log =>
        exact ⟨running, q, by rwa [manager], by rwa [queue_eq before after sent popped]⟩
    | pushed _ _ _ running => simp [running, set_] at cleared
    | drained _ _ _ _ _ _ running => simp [running, set_] at cleared
    | passed _ _ _ running => simp [running, set_] at cleared
    | ended _ _ _ running => simp [running, set_] at cleared
    | tested _ running => simp [running, set_] at cleared
    | apart running => simp [running, set_] at cleared
  · push Not at pushes
    obtain ⟨stopped, k, changed, behind⟩ := pushes
    cases move with
    | pushed q m known running manager sent popped log =>
        have own : k = q := by
          by_contra other
          exact changed (by rw [sent, Function.update_of_ne other])
        refine ⟨running.trans stopped, k, by rwa [manager], ?_⟩
        rw [queue_pushed before after q k m (logged.within k) sent popped, if_pos own]
        simp
    | cleared _ _ sent => exact absurd (congrFun sent k) changed
    | drained _ _ _ _ _ _ _ _ sent => exact absurd (congrFun sent k) changed
    | passed _ _ _ _ _ sent => exact absurd (congrFun sent k) changed
    | ended _ _ _ _ _ sent => exact absurd (congrFun sent k) changed
    | tested _ _ _ sent => exact absurd (congrFun sent k) changed
    | apart _ _ sent => exact absurd (congrFun sent k) changed

theorem swept_step (workers : Nat) (before after : Session) (logged : Logged workers before)
    (move : AuditMove workers before after)
    (swept : Swept before) (collected : Collected before after) : Swept after := by
  intro stopped k behind
  cases move with
  | cleared running manager sent popped log =>
      rw [queue_eq before after sent popped]
      rw [manager] at behind
      cases set_ : before.running with
      | true => exact collected.1 set_ running k behind
      | false => exact swept set_ k behind
  | pushed q m known running manager sent popped log =>
      rw [manager] at behind
      have before_ := running.symm.trans stopped
      have other : k ≠ q := by
        rintro rfl
        exact behind (collected.2 before_ k (by simp [sent]))
      rw [queue_pushed before after q k m (logged.within k) sent popped, if_neg other, List.append_nil]
      exact swept before_ k behind
  | drained q m rest known here head running manager sent popped log =>
      rw [manager] at behind
      have other : k ≠ q := by
        rintro rfl
        exact behind (by rw [here]; exact Nat.le_refl k)
      rw [Session.queue, sent, popped, Function.update_of_ne other]
      exact swept (running.symm.trans stopped) k behind
  | passed q here empty running manager sent popped log =>
      rw [queue_eq before after sent popped]
      by_cases own : k = q
      · exact own ▸ empty
      · refine swept (running.symm.trans stopped) k fun ahead_ => behind ?_
        rw [here] at ahead_
        rw [manager]
        simp only [Ahead] at ahead_ ⊢
        omega
  | ended q last here running manager sent popped log =>
      rw [queue_eq before after sent popped]
      by_cases outside : numShards + workers ≤ k
      · rw [Session.queue, logged.unknown k outside, List.drop_nil]
      · refine swept (running.symm.trans stopped) k ?_
        rw [here]
        simp only [Ahead]
        omega
  | tested here running manager sent popped log =>
      rw [queue_eq before after sent popped]
      exact swept (running.symm.trans stopped) k (by rw [here]; exact not_false)
  | apart running manager sent popped log =>
      rw [queue_eq before after sent popped]
      rw [manager] at behind
      exact swept (running.symm.trans stopped) k behind

def CollectedRun (workers : Nat) : List SessionLabel → Session → Prop :=
  Run (Session.init workers) fun before label after =>
    Guarded (fun _ _ => True) (sessionStep workers) before label after ∧ Collected before after

theorem collected_or_stranded (workers : Nat) (labels : List SessionLabel) (s : Session)
    (run : SessionRun workers labels s) :
    CollectedRun workers labels s ∧ Swept s ∨ Stranded s := by
  induction run with
  | start => exact .inl ⟨.start, fun stopped => by simp [Session.init] at stopped⟩
  | snoc labels label before after previous step ih =>
      have logged := session_logged workers labels before previous
      have move := session_step_move workers before after label step.2
      rcases ih with ⟨run, swept⟩ | stranded
      · by_cases collected : Collected before after
        · exact .inl ⟨.snoc labels label before after run ⟨step, collected⟩,
            swept_step workers before after logged move swept collected⟩
        · exact .inr (uncollected_strands workers before after logged move collected)
      · exact .inr (stranded_step workers before after logged move stranded)

theorem collected_swept (workers : Nat) (labels : List SessionLabel) (s : Session)
    (run : CollectedRun workers labels s) :
    Logged workers s ∧ Swept s := by
  refine run_invariant (fun s => Logged workers s ∧ Swept s)
    ⟨initial_logged workers, fun stopped => by simp [Session.init] at stopped⟩ ?_ labels s run
  rintro before label after ⟨logged, swept⟩ ⟨step, collected⟩
  have move := session_step_move workers before after label step.2
  exact ⟨logged_step workers before after logged move,
    swept_step workers before after logged move swept collected⟩

theorem main_apart (workers : Nat) (before after : Session) (label : SessionLabel)
    (step : sessionStep workers before label = .ok after)
    (other : label ≠ .main) : after.main = before.main := by
  cases label with
  | clear =>
      cases step
      rfl
  | loop worker =>
      simp only [sessionStep, checked_pure, Except.ok.injEq] at step
      subst step
      unfold workerLoop
      repeat' split
      all_goals rfl
  | serve worker label =>
      simp only [sessionStep, workerServe] at step
      repeat' split at step
      case h_2.isTrue =>
        obtain ⟨exchange, _, result⟩ := (checked_bind_eq_ok _ _ _).mp step
        cases result
        rfl
      all_goals
        cases step
        rfl
  | engine shard =>
      simp only [sessionStep, engineLoop] at step
      repeat' split at step
      case h_2.isTrue.isTrue =>
        obtain ⟨exchange, _, result⟩ := (checked_bind_eq_ok _ _ _).mp step
        cases result
        rfl
      case h_2.isFalse =>
        obtain ⟨exchange, _, result⟩ := (checked_bind_eq_ok _ _ _).mp step
        cases result
        rfl
      all_goals
        cases step
        rfl
  | manager =>
      simp only [sessionStep, checked_pure, Except.ok.injEq] at step
      subst step
      unfold managerLoop
      repeat' split
      all_goals rfl
  | main => exact absurd rfl other

theorem manager_stays_done (workers : Nat) (before after : Session) (move : AuditMove workers before after)
    (done : before.manager = .done) : after.manager = .done := by
  cases move with
  | cleared _ manager => exact manager.trans done
  | pushed _ _ _ _ manager => exact manager.trans done
  | drained _ _ _ _ _ _ _ manager => exact manager.trans done
  | passed _ here => simp [done] at here
  | ended _ _ here => simp [done] at here
  | tested here => simp [done] at here
  | apart _ manager => exact manager.trans done

theorem finished_manager (workers : Nat) (labels : List SessionLabel) (s : Session)
    (run : SessionRun workers labels s)
    (finished : s.main = .finished) : s.manager = .done := by
  refine run_invariant (fun s => s.main = .finished → s.manager = .done)
    (by simp [Session.init]) ?_ labels s run finished
  intro before label after joined step finished
  have move := session_step_move workers before after label step.2
  refine manager_stays_done workers before after move ?_
  by_cases own : label = .main
  · subst own
    have result : after = mainStep workers before := by simpa [sessionStep] using step.2.symm
    subst result
    cases pc : before.main with
    | waiting =>
        simp only [mainStep, pc] at finished
        split at finished <;> simp [pc] at finished
    | joiningEngine shard =>
        simp only [mainStep, pc] at finished
        split at finished
        · split at finished <;> simp [pc] at finished
        · simp at finished
    | joiningServer =>
        simp only [mainStep, pc] at finished
        split at finished <;> simp [pc] at finished
    | joiningManager =>
        simp only [mainStep, pc] at finished
        split at finished
        · assumption
        · simp [pc] at finished
    | finished => exact joined pc
  · exact joined ((main_apart workers before after label step.2 own).symm.trans finished)

theorem not_ahead_done (q : Nat) : ¬ Ahead .done q := not_false

theorem complete_not_stranded (workers : Nat) (s : Session) (logged : Logged workers s)
    (few : recordCount workers s < maxLogEntries)
    (complete : AuditComplete s) : ¬ Stranded s := by
  rintro ⟨_, q, _, waiting⟩
  obtain ⟨exact_, _⟩ : _ ∧ _ := logged.entries.resolve_right (Nat.not_le.mpr few)
  have all : (s.sent q).take (s.popped q) = s.sent q := (exact_ q).symm.trans (complete q)
  exact waiting (List.drop_eq_nil_of_le (List.take_eq_self_iff _ |>.mp all))

theorem swept_complete (workers : Nat) (s : Session) (logged : Logged workers s)
    (few : recordCount workers s < maxLogEntries)
    (swept : Swept s) (done : s.manager = .done) : AuditComplete s := by
  intro q
  obtain ⟨exact_, _⟩ : _ ∧ _ := logged.entries.resolve_right (Nat.not_le.mpr few)
  have empty : s.queue q = [] := swept (logged.stopped done) q (by rw [done]; exact not_ahead_done q)
  rw [exact_ q, List.take_of_length_le (List.drop_eq_nil_iff.mp empty)]

theorem audit_complete_iff_collected (workers : Nat) (labels : List SessionLabel) (s : Session)
    (run : SessionRun workers labels s)
    (joined : s.main = .finished) (few : recordCount workers s < maxLogEntries) :
    AuditComplete s ↔ CollectedRun workers labels s := by
  have logged := session_logged workers labels s run
  constructor
  · intro complete
    rcases collected_or_stranded workers labels s run with ⟨collected, _⟩ | stranded
    · exact collected
    · exact absurd stranded (complete_not_stranded workers s logged few complete)
  · intro collected
    exact swept_complete workers s logged few (collected_swept workers labels s collected).2
      (finished_manager workers labels s run joined)

def joinAll : List SessionLabel :=
  [.engine 0, .engine 1, .engine 2, .engine 3, .main, .main, .main, .main, .main, .main, .main, .main]

def rejectLogged : List SessionLabel :=
  .loop 0 :: .serve 0 (.accept 0) :: .serve 0 (.enter 0 (enterFrame 5 'S' 10 3 0)) :: .serve 0
    (.push 0) :: .loop 0 ::
    .manager :: .manager :: .manager :: .manager :: .manager :: .manager :: .clear :: .manager ::
      .manager :: .manager :: .loop 0 :: joinAll

theorem reject_logged_complete :
    ∃ s, SessionRun 1 rejectLogged s ∧ s.main = .finished ∧ recordCount 1 s < maxLogEntries ∧
    s.log = [(4, rejectOf (enterFrame 5 'S' 10 3 0))] ∧ AuditComplete s ∧ CollectedRun 1 rejectLogged s := by
  have shape : (execute (fun _ _ => True) (sessionStep 1) (.init 1) rejectLogged).map (fun s =>
      (s.main, recordCount 1 s, s.log, (List.range 5).map s.sent)) =
      some (.finished, 1, [(4, rejectOf (enterFrame 5 'S' 10 3 0))],
        [[], [], [], [], [rejectOf (enterFrame 5 'S' 10 3 0)]]) := by
    decide +kernel
  obtain ⟨s, result, shape⟩ := Option.map_eq_some_iff.mp shape
  simp only [Prod.mk.injEq] at shape
  obtain ⟨joined, count, log, sent⟩ := shape
  have run : SessionRun 1 rejectLogged s := execute_run _ _ rejectLogged _ s result
  have few : recordCount 1 s < maxLogEntries := by rw [count]; decide
  have complete : AuditComplete s := by
    intro q
    rw [Session.logOf, log]
    by_cases known : q < 5
    · simp only [show List.range 5 = [0, 1, 2, 3, 4] from rfl, List.map_cons, List.map_nil,
        List.cons.injEq] at sent
      obtain ⟨first, second, third, fourth, own, _⟩ := sent
      interval_cases q <;> simp [*]
    · have unknown := (session_logged 1 rejectLogged s run).unknown q (Nat.le_of_not_lt known)
      simp [unknown, show (4 : Nat) ≠ q by omega]
  exact ⟨s, run, joined, few, log, complete,
    (audit_complete_iff_collected 1 rejectLogged s run joined few).mp complete⟩

-- The flag is cleared while the worker is in its loop. The OrderManager stops
-- at once, and the reject that the worker pushes afterwards is in no log.
def rejectLost : List SessionLabel :=
  .loop 0 :: .serve 0 (.accept 0) :: .clear :: .manager :: .serve 0
    (.enter 0 (enterFrame 5 'S' 10 3 0)) :: .serve 0 (.push 0) ::
    .loop 0 :: .loop 0 :: joinAll

theorem late_reject_not_logged :
    ∃ s, SessionRun 1 rejectLost s ∧ s.main = .finished ∧ recordCount 1 s < maxLogEntries ∧
    s.sent 4 = [rejectOf (enterFrame 5 'S' 10 3 0)] ∧ s.log = [] ∧ ¬ AuditComplete s := by
  have shape : (execute (fun _ _ => True) (sessionStep 1) (.init 1) rejectLost).map (fun s =>
      (s.main, recordCount 1 s, s.log, s.sent 4)) =
        some (.finished, 1, [], [rejectOf (enterFrame 5 'S' 10 3 0)]) := by
    decide +kernel
  obtain ⟨s, result, shape⟩ := Option.map_eq_some_iff.mp shape
  simp only [Prod.mk.injEq] at shape
  obtain ⟨joined, count, log, sent⟩ := shape
  refine ⟨s, execute_run _ _ rejectLost _ s result, joined, by rw [count]; decide, sent, log,
    fun complete => ?_⟩
  have own := complete 4
  rw [Session.logOf, log, sent] at own
  cases own

end HftExchange
