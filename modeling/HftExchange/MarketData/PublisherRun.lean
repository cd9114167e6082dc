import HftExchange.MarketData.Publisher

set_option autoImplicit false

namespace HftExchange

open Base

namespace Publisher

def loaded (p : Publisher) : List Bytes := (List.range p.currentBatchCount).map p.batch

def flushed (p : Publisher) (accepted : Nat) : Publisher :=
  { p with
    wire := p.wire ++ p.loaded.take accepted
    refused := p.refused + (p.currentBatchCount - accepted)
    currentBatchCount := 0 }

def load (p : Publisher) (queue : Nat) (report : ItchMessage) (rest : List ItchMessage)
    (tsc : Nat) : Publisher :=
  { p with
    queues := Function.update p.queues queue rest
    batch := Function.update p.batch p.currentBatchCount (report.bytes tsc)
    currentBatchCount := p.currentBatchCount + 1
    foundAny := true
    taken := p.taken ++ [⟨queue, report, tsc⟩] }

def takenFrom (p : Publisher) (queue : Nat) : List ItchMessage :=
  (p.taken.filter fun t => t.queue = queue).map Stamped.message

end Publisher

theorem fetch_all {α : Type} (size : Nat) (array : Nat → α) (indices : List Nat)
    (inside : ∀ i ∈ indices, i < size) :
    indices.mapM (fetch size array) = .ok (indices.map array) := by
  induction indices with
  | nil => rfl
  | cons i rest ih =>
      rw [List.mapM_cons, fetch_ok size array i (inside i List.mem_cons_self), checked_bind_ok,
        ih fun j member => inside j (List.mem_cons_of_mem _ member)]
      rfl

section
variable (p : Publisher) (queue : Nat) (report : ItchMessage) (rest : List ItchMessage) (tsc accepted : Nat)

theorem loaded_length : p.loaded.length = p.currentBatchCount := by simp [Publisher.loaded]

theorem sendmmsg_eq (room : p.currentBatchCount ≤ mcastBatchSize) :
    p.sendmmsg accepted = .ok (p.flushed accepted) := by
  have inside : ∀ i ∈ List.range (min accepted p.currentBatchCount), i < mcastBatchSize := fun i member =>
    Nat.lt_of_lt_of_le (List.mem_range.mp member) (Nat.le_trans (Nat.min_le_right _ _) room)
  have prefix_ : p.loaded.take accepted = (List.range (min accepted p.currentBatchCount)).map p.batch := by
    rw [Publisher.loaded, ← List.map_take, List.take_range]
  rw [Publisher.sendmmsg, fetch_all mcastBatchSize p.batch _ inside, checked_bind_ok,
    Publisher.flushed, prefix_]
  rfl

theorem take_eq (room : p.currentBatchCount < mcastBatchSize) :
    p.take queue report rest tsc accepted =
    .ok (if p.currentBatchCount + 1 = mcastBatchSize then (p.load queue report rest tsc).flushed
      accepted else p.load queue report rest tsc) := by
  rw [Publisher.take, store_ok mcastBatchSize p.batch _ _ room, checked_bind_ok]
  by_cases full : p.currentBatchCount + 1 = mcastBatchSize
  · rw [if_pos full, if_pos full]
    exact sendmmsg_eq (p.load queue report rest tsc) accepted full.le
  · rw [if_neg full, if_neg full]
    rfl

theorem load_loaded : (p.load queue report rest tsc).loaded = p.loaded ++ [report.bytes tsc] := by
  simp only [Publisher.loaded, Publisher.load, List.range_succ, List.map_append, List.map_singleton,
    Function.update_self]
  congr 1
  refine List.map_congr_left fun i inside => ?_
  exact Function.update_of_ne (Nat.ne_of_lt (List.mem_range.mp inside)) _ _

theorem flushed_loaded : (p.flushed accepted).loaded = [] := rfl

inductive PublisherMove : Publisher → Prop where
  | enter (at_ : p.pc = .head) (running : p.running = true) : PublisherMove
      { p with foundAny := false, pc := .visiting 0 }
  | leave (at_ : p.pc = .head) (stopped : p.running = false) : PublisherMove { p with pc := .done }
  | stay (at_ : p.pc = .done) : PublisherMove p
  | skip (queue : Nat) (at_ : p.pc = .visiting queue) (known : queue < numShards)
      (empty : p.queues queue = []) :
      PublisherMove { p with pc := .visiting (queue + 1) }
  | load (queue : Nat) (report : ItchMessage) (rest : List ItchMessage)
      (at_ : p.pc = .visiting queue) (known : queue < numShards)
      (front : p.queues queue = report :: rest) (more : p.currentBatchCount + 1 ≠ mcastBatchSize) :
      PublisherMove (p.load queue report rest tsc)
  | fill (queue : Nat) (report : ItchMessage) (rest : List ItchMessage)
      (at_ : p.pc = .visiting queue) (known : queue < numShards)
      (front : p.queues queue = report :: rest) (full : p.currentBatchCount + 1 = mcastBatchSize) :
      PublisherMove ((p.load queue report rest tsc).flushed accepted)
  | flush (queue : Nat) (at_ : p.pc = .visiting queue) (past : ¬ queue < numShards)
      (idle : p.foundAny = false)
      (some_ : 0 < p.currentBatchCount) : PublisherMove { p.flushed accepted with pc := .head }
  | again (queue : Nat) (at_ : p.pc = .visiting queue) (past : ¬ queue < numShards)
      (busy : p.foundAny = false → p.currentBatchCount = 0) : PublisherMove { p with pc := .head }

theorem advance_move (room : p.currentBatchCount < mcastBatchSize) :
    ∃ next, p.advance tsc accepted = .ok next ∧ PublisherMove p tsc accepted next := by
  cases at_ : p.pc with
  | head =>
      refine ⟨_, by simp only [Publisher.advance, at_]; rfl, ?_⟩
      by_cases running : p.running
      · rw [if_pos running]
        exact .enter at_ running
      · rw [if_neg running]
        exact .leave at_ (Bool.eq_false_iff.mpr running)
  | done => exact ⟨p, by simp only [Publisher.advance, at_]; rfl, .stay at_⟩
  | visiting queue =>
      by_cases known : queue < numShards
      · cases front : p.queues queue with
        | nil => exact ⟨_, by simp only [Publisher.advance, at_, if_pos known, front]; rfl,
            .skip queue at_ known front⟩
        | cons report rest =>
            have result := take_eq p queue report rest tsc accepted room
            refine ⟨_, by simp only [Publisher.advance, at_, if_pos known, front]; exact result, ?_⟩
            by_cases full : p.currentBatchCount + 1 = mcastBatchSize
            · rw [if_pos full]
              exact .fill queue report rest at_ known front full
            · rw [if_neg full]
              exact .load queue report rest at_ known front full
      · by_cases flush : p.foundAny = false ∧ 0 < p.currentBatchCount
        · have sent := sendmmsg_eq p accepted room.le
          refine ⟨_, by simp only [Publisher.advance, at_, if_neg known, if_pos flush, sent, checked_bind_ok]; rfl,
            ?_⟩
          exact .flush queue at_ known flush.1 flush.2
        · refine ⟨_, by simp only [Publisher.advance, at_, if_neg known, if_neg flush, checked_pure, checked_bind_ok]; rfl,
            ?_⟩
          refine .again queue at_ known fun idle => ?_
          by_contra some_
          exact flush ⟨idle, Nat.pos_of_ne_zero some_⟩

end

structure Flow (p : Publisher) : Prop where
  fifo : ∀ queue, p.takenFrom queue ++ p.queues queue = p.pushed queue
  sent : ∃ gone, p.taken.map Stamped.datagram = gone ++ p.loaded ∧ p.wire.Sublist gone ∧
    p.wire.length + p.refused = gone.length
  stamps : ∀ t ∈ p.taken, t.queue < numShards ∧ t.timestamp < 2 ^ 64

def Publisher.Placed (p : Publisher) : Prop :=
  match p.pc with
  | .head => p.foundAny = false → p.currentBatchCount = 0
  | .visiting queue => queue ≤ numShards
  | .done => p.running = false

structure PublisherInv (p : Publisher) : Prop extends Flow p where
  room : p.currentBatchCount < mcastBatchSize
  placed : p.Placed

section
variable (p : Publisher)

theorem load_flow (queue : Nat) (report : ItchMessage) (rest : List ItchMessage) (tsc : Nat)
    (flow : Flow p) (known : queue < numShards)
    (stamp : tsc < 2 ^ 64) (front : p.queues queue = report :: rest) :
    Flow (p.load queue report rest tsc) := by
  refine ⟨fun other => ?_, ?_, ?_⟩
  · have before := flow.fifo other
    rw [Publisher.takenFrom] at before ⊢
    simp only [Publisher.load, List.filter_append, List.map_append]
    by_cases same : other = queue
    · subst same
      rw [front] at before
      simpa using before
    · rw [Function.update_of_ne same]
      simpa [Ne.symm same] using before
  · obtain ⟨gone, parts, kept, count⟩ := flow.sent
    refine ⟨gone, ?_, kept, count⟩
    rw [load_loaded, ← List.append_assoc, ← parts]
    simp [Publisher.load, Stamped.datagram]
  · intro t member
    rcases List.mem_append.mp member with before | last
    · exact flow.stamps t before
    · rw [List.mem_singleton.mp last]
      exact ⟨known, stamp⟩

theorem flushed_flow (accepted : Nat) (flow : Flow p) : Flow (p.flushed accepted) := by
  obtain ⟨gone, parts, kept, count⟩ := flow.sent
  refine ⟨flow.fifo, ⟨gone ++ p.loaded, ?_, ?_, ?_⟩, flow.stamps⟩
  · rw [flushed_loaded, List.append_nil]
    exact parts
  · exact kept.append (List.take_sublist accepted p.loaded)
  · have all := loaded_length p
    simp only [Publisher.flushed, List.length_append, List.length_take]
    omega

theorem broadcast_flow (shard : Nat) (report : ItchMessage) (flow : Flow p) :
    Flow (p.broadcast shard report) := by
  rw [Publisher.broadcast]
  by_cases fits : (p.queues shard).length + 1 < mktDataCapacity
  · rw [if_pos fits]
    refine ⟨fun other => ?_, flow.sent, flow.stamps⟩
    have before := flow.fifo other
    by_cases same : other = shard
    · subst same
      simp only [Function.update_self, ← before, ← List.append_assoc]
      rfl
    · simp only [Function.update_of_ne same, ← before]
      rfl
  · rw [if_neg fits]
    exact ⟨flow.fifo, flow.sent, flow.stamps⟩

theorem moved_inv (pc : PublisherLoop) (found : Bool) (inv : PublisherInv p)
    (placed : { p with pc := pc, foundAny := found }.Placed) :
    PublisherInv { p with pc := pc, foundAny := found } :=
      ⟨⟨inv.fifo, inv.sent, inv.stamps⟩, inv.room, placed⟩

theorem load_inv (queue : Nat) (report : ItchMessage) (rest : List ItchMessage) (tsc : Nat)
    (inv : PublisherInv p)
    (at_ : p.pc = .visiting queue) (known : queue < numShards) (stamp : tsc < 2 ^ 64)
    (front : p.queues queue = report :: rest) :
    Flow (p.load queue report rest tsc) ∧ (p.load queue report rest tsc).Placed := by
  refine ⟨load_flow p queue report rest tsc inv.toFlow known stamp front, ?_⟩
  simpa only [Publisher.Placed, Publisher.load, at_] using known.le

theorem publisher_move_inv (tsc accepted : Nat) (next : Publisher) (inv : PublisherInv p)
    (stamp : tsc < 2 ^ 64)
    (move : PublisherMove p tsc accepted next) : PublisherInv next := by
  cases move with
  | enter at_ running => exact moved_inv p (.visiting 0) false inv (Nat.zero_le _)
  | leave at_ stopped => exact moved_inv p .done p.foundAny inv stopped
  | stay at_ => exact inv
  | skip queue at_ known empty => exact moved_inv p (.visiting (queue + 1)) p.foundAny inv known
  | load queue report rest at_ known front more =>
      obtain ⟨flow, placed⟩ := load_inv p queue report rest tsc inv at_ known stamp front
      exact ⟨flow, Nat.lt_of_le_of_ne inv.room more, placed⟩
  | fill queue report rest at_ known front full =>
      obtain ⟨flow, placed⟩ := load_inv p queue report rest tsc inv at_ known stamp front
      refine ⟨flushed_flow _ accepted flow, Nat.zero_lt_succ _, ?_⟩
      simpa only [Publisher.Placed, Publisher.flushed, Publisher.load, at_] using known.le
  | flush queue at_ past idle some_ =>
      have flow := flushed_flow p accepted inv.toFlow
      exact ⟨⟨flow.fifo, flow.sent, flow.stamps⟩, Nat.zero_lt_succ _, fun _ => rfl⟩
  | again queue at_ past busy => exact moved_inv p .head p.foundAny inv busy

theorem broadcast_inv (shard : Nat) (report : ItchMessage) (inv : PublisherInv p) :
    PublisherInv (p.broadcast shard report) := by
  have flow := broadcast_flow p shard report inv.toFlow
  rw [Publisher.broadcast] at flow ⊢
  by_cases fits : (p.queues shard).length + 1 < mktDataCapacity
  · rw [if_pos fits] at flow ⊢
    exact ⟨flow, inv.room, inv.placed⟩
  · rw [if_neg fits] at flow ⊢
    exact ⟨flow, inv.room, inv.placed⟩

theorem stop_inv (inv : PublisherInv p) : PublisherInv { p with running := false } := by
  refine ⟨⟨inv.fifo, inv.sent, inv.stamps⟩, inv.room, ?_⟩
  have placed := inv.placed
  rw [Publisher.Placed] at placed ⊢
  cases at_ : p.pc with
  | done => rfl
  | head | visiting _ => simpa only [at_] using placed

theorem publisher_step_inv (label : PublisherLabel) (inv : PublisherInv p)
    (allowed : PublisherAllowed p label) :
    ∃ next, publisherStep p label = .ok next ∧ PublisherInv next := by
  cases label with
  | broadcast shard report => exact ⟨_, rfl, broadcast_inv p shard report inv⟩
  | stop => exact ⟨_, rfl, stop_inv p inv⟩
  | advance tsc accepted =>
      obtain ⟨next, result, move⟩ := advance_move p tsc accepted inv.room
      exact ⟨next, result, publisher_move_inv p tsc accepted next inv allowed move⟩

end

theorem initial_publisher_inv : PublisherInv .init :=
  ⟨⟨fun _ => rfl, ⟨[], rfl, List.Sublist.refl [], rfl⟩, fun _ absent => by cases absent⟩,
    by decide, fun _ => rfl⟩

theorem publisher_run_inv (labels : List PublisherLabel) (p : Publisher)
    (run : PublisherRun labels p) : PublisherInv p := by
  refine run_invariant PublisherInv initial_publisher_inv ?_ labels p run
  rintro state label next inv ⟨allowed, taken⟩
  obtain ⟨other, result, kept⟩ := publisher_step_inv state label inv allowed
  cases taken.symm.trans result
  exact kept

def broadcastsOf (shard : Nat) (labels : List PublisherLabel) : List ItchMessage :=
  labels.filterMap fun
    | .broadcast s report => if s = shard then some report else none
    | _ => none

theorem broadcasts_append (shard : Nat) (first second : List PublisherLabel) :
    broadcastsOf shard (first ++ second) = broadcastsOf shard first ++ broadcastsOf shard second :=
      List.filterMap_append

theorem publisher_move_keeps (p next : Publisher) (tsc accepted : Nat)
    (move : PublisherMove p tsc accepted next) :
    next.running = p.running ∧ next.pushed = p.pushed ∧ next.droppedReports = p.droppedReports := by
  cases move <;> exact ⟨rfl, rfl, rfl⟩

theorem publisher_run_pushed (labels : List PublisherLabel) (p : Publisher) (run : PublisherRun labels p) :
    (∀ shard, (p.pushed shard).Sublist (broadcastsOf shard labels)) ∧
      (p.droppedReports = 0 → ∀ shard, p.pushed shard = broadcastsOf shard labels) := by
  induction run with
  | start => exact ⟨fun _ => List.Sublist.refl [], fun _ _ => rfl⟩
  | snoc labels label p next before step ih =>
      obtain ⟨allowed, taken⟩ := step
      simp only [broadcasts_append]
      cases label with
      | stop =>
          cases taken
          simpa [broadcastsOf] using ih
      | advance tsc accepted =>
          obtain ⟨other, result, move⟩ := advance_move p tsc accepted (publisher_run_inv labels p before).room
          cases taken.symm.trans result
          obtain ⟨_, pushed, dropped⟩ := publisher_move_keeps p _ tsc accepted move
          rw [pushed, dropped]
          simpa [broadcastsOf] using ih
      | broadcast shard report =>
          cases taken
          by_cases fits : (p.queues shard).length + 1 < mktDataCapacity
          · simp only [Publisher.broadcast, if_pos fits]
            refine ⟨fun other => ?_, fun none_ other => ?_⟩
            · by_cases same : other = shard
              · subst same
                simpa [broadcastsOf] using ih.1 other
              · simpa [broadcastsOf, Function.update_of_ne same, Ne.symm same] using ih.1 other
            · by_cases same : other = shard
              · subst same
                simpa [broadcastsOf] using ih.2 none_ other
              · simpa [broadcastsOf, Function.update_of_ne same, Ne.symm same] using ih.2 none_ other
          · simp only [Publisher.broadcast, if_neg fits]
            refine ⟨fun other => (ih.1 other).trans (List.sublist_append_left _ _), fun none_ => ?_⟩
            cases none_

theorem publisher_keeps_order (labels : List PublisherLabel) (p : Publisher) (run : PublisherRun labels p) :
    (∃ sent : List Stamped, sent.Sublist p.taken ∧ p.wire = sent.map Stamped.datagram ∧
      ∀ shard, ((sent.filter fun t => t.queue = shard).map Stamped.message).Sublist
      (broadcastsOf shard labels)) ∧
    p.wire.length + p.refused + p.currentBatchCount = p.taken.length ∧
    (∀ shard, p.takenFrom shard ++ p.queues shard = p.pushed shard) ∧
    p.currentBatchCount < mcastBatchSize ∧ ∀ label, PublisherAllowed p label →
    ∃ next, publisherStep p label = .ok next := by
  have inv := publisher_run_inv labels p run
  obtain ⟨gone, parts, kept, count⟩ := inv.sent
  have all := loaded_length p
  have total : gone.length + p.currentBatchCount = p.taken.length := by
    rw [← all, ← List.length_append, ← parts, List.length_map]
  refine ⟨?_, by omega, inv.fifo, inv.room, fun label allowed => ?_⟩
  · have inside : p.wire.Sublist (p.taken.map Stamped.datagram) :=
      parts ▸ kept.trans (List.sublist_append_left _ _)
    obtain ⟨sent, within, same⟩ := List.sublist_map_iff.mp inside
    refine ⟨sent, within, same, fun shard => ?_⟩
    have taken : (p.takenFrom shard).Sublist (p.pushed shard) := inv.fifo shard ▸ List.sublist_append_left _ _
    exact ((within.filter _).map _).trans (taken.trans ((publisher_run_pushed labels p run).1 shard))
  · obtain ⟨next, result, _⟩ := publisher_step_inv p label inv allowed
    exact ⟨next, result⟩

def refusedLabels : List PublisherLabel :=
  [.broadcast 1 ⟨ascii 'A', 5, 7, 10, 100, ascii 'B'⟩, .broadcast 0 ⟨ascii 'X', 4, 9, 10, 100, ascii 'S'⟩] ++
    (List.range 14).map fun tsc => .advance tsc 1

theorem refused_datagram_counted :
    ∃ p, PublisherRun refusedLabels p ∧ p.refused = 1 ∧
    p.wire.length + p.refused + p.currentBatchCount = p.taken.length := by
  obtain ⟨p, result⟩ := Option.isSome_iff_exists.mp
    (show (execute PublisherAllowed publisherStep .init refusedLabels).isSome = true by decide +kernel)
  have lost : (execute PublisherAllowed publisherStep .init refusedLabels).map Publisher.refused =
    some 1 := by decide +kernel
  have run : PublisherRun refusedLabels p :=
    execute_run PublisherAllowed publisherStep refusedLabels _ p result
  rw [result] at lost
  exact ⟨p, run, Option.some.inj lost, (publisher_keeps_order refusedLabels p run).2.1⟩

end HftExchange
