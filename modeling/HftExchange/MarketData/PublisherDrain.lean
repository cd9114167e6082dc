import HftExchange.MarketData.PublisherRun

set_option autoImplicit false

namespace HftExchange

open Base

namespace Publisher

def queuedBefore (p : Publisher) (queue : Nat) : Nat :=
    ((List.range queue).map fun q => (p.queues q).length).sum

def queued (p : Publisher) : Nat := p.queuedBefore numShards

def Drained (p : Publisher) : Prop :=
  (∀ queue, queue < numShards → p.queues queue = []) ∧ p.currentBatchCount = 0

-- The steps until everything is sent, if no engine sends a message. A message
-- in a queue that the pass has gone by waits for the next pass, and a pass that
-- finds a message is followed by another one.
def passRank (p : Publisher) : Nat :=
  match p.pc with
  | .head => 7 * p.queued + 6
  | .visiting queue =>
      7 * p.queued + 6 * p.queuedBefore queue + (numShards + 1 - queue) + if p.foundAny then 6
      else 0
  | .done => 0

end Publisher

section
variable (p : Publisher)

theorem queued_before_succ (queue : Nat) :
    p.queuedBefore (queue + 1) = p.queuedBefore queue + (p.queues queue).length := by
  simp [Publisher.queuedBefore, List.range_succ]

theorem queued_none (none_ : p.queued = 0) (queue : Nat) (known : queue < numShards) :
    p.queues queue = [] := by
  have each := List.sum_eq_zero_iff.mp none_ (p.queues queue).length
    (List.mem_map_of_mem (f := fun q => (p.queues q).length) (List.mem_range.mpr known))
  exact List.length_eq_zero_iff.mp each

theorem queued_taken (queue : Nat) (report : ItchMessage) (rest : List ItchMessage) (tsc : Nat)
    (front : p.queues queue = report :: rest)
    (bound : Nat) :
    (p.load queue report rest tsc).queuedBefore bound + (if queue < bound then 1
      else 0) = p.queuedBefore bound := by
  induction bound with
  | zero => rfl
  | succ bound ih =>
      rw [queued_before_succ, queued_before_succ, ← ih]
      by_cases same : bound = queue
      · subst same
        have here : (p.load bound report rest tsc).queues bound = rest := Function.update_self ..
        rw [here, front, List.length_cons, if_neg (Nat.lt_irrefl _), if_pos (Nat.lt_succ_self _)]
        omega
      · have other : (p.load queue report rest tsc).queues bound = p.queues bound :=
          Function.update_of_ne same ..
        rw [other]
        split <;> split <;> omega

theorem queued_before_le (queue : Nat) (known : queue ≤ numShards) : p.queuedBefore queue ≤ p.queued := by
  have mono : Monotone p.queuedBefore := monotone_nat_of_le_succ fun q => by
    rw [queued_before_succ]
    exact Nat.le_add_right _ _
  exact mono known

theorem visiting_le (queue : Nat) (inv : PublisherInv p) (at_ : p.pc = .visiting queue) :
    queue ≤ numShards := by
  have placed := inv.placed
  rwa [Publisher.Placed, at_] at placed

theorem pass_rank_le (inv : PublisherInv p) : p.passRank ≤ 13 * p.queued + 11 := by
  rw [Publisher.passRank]
  cases at_ : p.pc with
  | head | done =>
      simp only
      omega
  | visiting queue =>
      have before := queued_before_le p queue (visiting_le p queue inv at_)
      have shards : numShards = 4 := rfl
      simp only
      split <;> omega

theorem load_rank (queue : Nat) (report : ItchMessage) (rest : List ItchMessage) (tsc : Nat)
    (at_ : p.pc = .visiting queue)
    (known : queue < numShards) (front : p.queues queue = report :: rest) :
    (p.load queue report rest tsc).passRank < p.passRank := by
  have total := queued_taken p queue report rest tsc front numShards
  have before := queued_taken p queue report rest tsc front queue
  rw [if_pos known] at total
  rw [if_neg (Nat.lt_irrefl queue), Nat.add_zero] at before
  have same : (p.load queue report rest tsc).pc = .visiting queue := at_
  have found : (p.load queue report rest tsc).foundAny = true := rfl
  simp only [Publisher.passRank, same, at_, found, before, if_true, Publisher.queued] at total ⊢
  omega

theorem pass_end_rank (at_ : p.pc = .visiting numShards) :
    p.passRank = 13 * p.queued + 1 + if p.foundAny then 6 else 0 := by
  simp only [Publisher.passRank, at_, Publisher.queued]
  omega

-- A pass that ends without a message in any queue and without one of its own
-- in the batch has sent everything.
theorem move_falls (tsc accepted : Nat) (next : Publisher) (inv : PublisherInv p) (running : p.running = true)
    (move : PublisherMove p tsc accepted next) : next.Drained ∨ next.passRank < p.passRank := by
  cases move with
  | enter at_ _ =>
      have before : p.passRank = 7 * p.queued + 6 := by simp only [Publisher.passRank, at_]
      rw [before]
      exact .inr (Nat.lt_succ_self (7 * p.queued + 5))
  | leave at_ stopped => cases running.symm.trans stopped
  | stay at_ =>
      have halted := inv.placed
      rw [Publisher.Placed, at_] at halted
      cases running.symm.trans halted
  | skip queue at_ known empty =>
      have same := queued_before_succ p queue
      rw [empty, List.length_nil, Nat.add_zero] at same
      have after : { p with pc := .visiting (queue + 1) }.passRank =
          7 * p.queued + 6 * p.queuedBefore
            (queue + 1) + (numShards + 1 - (queue + 1)) + if p.foundAny then 6 else 0 := rfl
      refine .inr ?_
      rw [after, same, Publisher.passRank, at_]
      simp only
      omega
  | load queue report rest at_ known front more =>
      exact .inr (load_rank p queue report rest tsc at_ known front)
  | fill queue report rest at_ known front full =>
      exact .inr (load_rank p queue report rest tsc at_ known front)
  | flush queue at_ past idle some_ =>
      have last : queue = numShards := Nat.le_antisymm (visiting_le p queue inv at_) (Nat.le_of_not_lt past)
      have before := pass_end_rank p (last ▸ at_)
      rw [idle] at before
      have after : { p.flushed accepted with pc := .head }.passRank = 7 * p.queued + 6 := rfl
      by_cases none_ : p.queued = 0
      · exact .inl ⟨queued_none p none_, rfl⟩
      · refine .inr ?_
        rw [before, after]
        omega
  | again queue at_ past busy =>
      have last : queue = numShards := Nat.le_antisymm (visiting_le p queue inv at_) (Nat.le_of_not_lt past)
      have before := pass_end_rank p (last ▸ at_)
      have after : { p with pc := .head }.passRank = 7 * p.queued + 6 := rfl
      by_cases drained : p.foundAny = false ∧ p.queued = 0
      · exact .inl ⟨queued_none p drained.2, busy drained.1⟩
      · refine .inr ?_
        rw [before, after]
        cases found : p.foundAny with
        | true =>
            rw [if_pos rfl]
            omega
        | false =>
            have some_ : p.queued ≠ 0 := fun none_ => drained ⟨found, none_⟩
            omega

theorem move_drained (tsc accepted : Nat) (next : Publisher) (drained : p.Drained)
    (move : PublisherMove p tsc accepted next) :
    next.Drained := by
  cases move with
  | enter | leave | stay | skip | again => exact drained
  | load queue report rest at_ known front more => cases (drained.1 queue known).symm.trans front
  | fill queue report rest at_ known front full => cases (drained.1 queue known).symm.trans front
  | flush queue at_ past idle some_ => exact ⟨drained.1, rfl⟩

theorem pass_rank_positive (inv : PublisherInv p) (running : p.running = true) : 0 < p.passRank := by
  have placed := inv.placed
  rw [Publisher.Placed] at placed
  cases at_ : p.pc with
  | head =>
      simp only [Publisher.passRank, at_]
      omega
  | done =>
      rw [at_] at placed
      cases running.symm.trans placed
  | visiting queue =>
      have inside := visiting_le p queue inv at_
      simp only [Publisher.passRank, at_]
      omega

end

theorem publisher_alone (looks : List (Nat × Nat)) (labels : List PublisherLabel) (p : Publisher)
    (run : PublisherRun labels p)
    (running : p.running = true) (stamps : ∀ look ∈ looks, look.1 < 2 ^ 64)
    (enough : p.Drained ∨ p.passRank ≤ looks.length) :
    ∃ final, PublisherRun (labels ++ looks.map fun look => .advance look.1 look.2) final ∧ final.Drained := by
  induction looks generalizing labels p with
  | nil =>
      refine ⟨p, by simpa using run, ?_⟩
      rcases enough with drained | rank
      · exact drained
      · exact absurd (pass_rank_positive p (publisher_run_inv labels p run) running) (Nat.not_lt.mpr rank)
  | cons look looks ih =>
      have inv := publisher_run_inv labels p run
      have stamp := stamps look List.mem_cons_self
      obtain ⟨next, result, move⟩ := advance_move p look.1 look.2 inv.room
      have still := (publisher_move_keeps p next look.1 look.2 move).1.trans running
      have longer : PublisherRun (labels ++ [.advance look.1 look.2]) next :=
        .snoc labels _ p next run ⟨stamp, result⟩
      have later : next.Drained ∨ next.passRank ≤ looks.length := by
        rcases enough with drained | rank
        · exact .inl (move_drained p look.1 look.2 next drained move)
        · rcases move_falls p look.1 look.2 next inv running move with drained | less
          · exact .inl drained
          · exact .inr (Nat.le_of_lt_succ (Nat.lt_of_lt_of_le less rank))
      obtain ⟨final, last, drained⟩ :=
        ih _ next longer still
        (fun other member => stamps other (List.mem_cons_of_mem _ member)) later
      refine ⟨final, ?_, drained⟩
      simpa only [List.map_cons, List.append_assoc, List.singleton_append] using last

theorem drained_wire (labels : List PublisherLabel) (p : Publisher) (run : PublisherRun labels p)
    (drained : p.Drained) :
    p.wire.length + p.refused = p.taken.length ∧ (p.refused = 0 → p.wire = p.taken.map Stamped.datagram) ∧
    ∀ shard, shard < numShards → p.takenFrom shard = p.pushed shard := by
  have inv := publisher_run_inv labels p run
  obtain ⟨gone, parts, kept, count⟩ := inv.sent
  have empty : p.loaded = [] := by
    rw [Publisher.loaded, drained.2]
    rfl
  rw [empty, List.append_nil] at parts
  have total : gone.length = p.taken.length := by rw [← parts, List.length_map]
  refine ⟨count.trans total, fun none_ => ?_, fun shard known => ?_⟩
  · rw [parts]
    exact kept.eq_of_length (by omega)
  · have all := inv.fifo shard
    rwa [drained.1 shard known, List.append_nil] at all

theorem publisher_drains (labels : List PublisherLabel) (p : Publisher)
    (run : PublisherRun labels p) (running : p.running = true)
    (looks : List (Nat × Nat)) (stamps : ∀ look ∈ looks, look.1 < 2 ^ 64)
    (enough : 13 * p.queued + 11 ≤ looks.length) :
    ∃ final, PublisherRun (labels ++ looks.map fun look => .advance look.1 look.2) final ∧
    final.currentBatchCount = 0 ∧
      final.wire.length + final.refused = final.taken.length ∧
      (final.refused = 0 → final.wire = final.taken.map Stamped.datagram) ∧
      ∀ shard, shard < numShards → final.queues shard = [] ∧ final.takenFrom shard = final.pushed shard := by
  have rank := Nat.le_trans (pass_rank_le p (publisher_run_inv labels p run)) enough
  obtain ⟨final, longer, drained⟩ := publisher_alone looks labels p run running stamps (.inr rank)
  obtain ⟨count, wire, taken⟩ := drained_wire _ final longer drained
  exact ⟨final, longer, drained.2, count, wire, fun shard known => ⟨drained.1 shard known, taken shard known⟩⟩

theorem two_messages_drain :
    ∃ p final, PublisherRun (refusedLabels.take 2) p ∧
    PublisherRun (refusedLabels.take 2 ++ (List.range 40).map fun tsc => .advance tsc 64) final ∧
    final.currentBatchCount = 0 := by
  obtain ⟨p, result⟩ := Option.isSome_iff_exists.mp
    (show (execute PublisherAllowed publisherStep .init (refusedLabels.take 2)).isSome =
      true by decide +kernel)
  have known : (execute PublisherAllowed publisherStep .init (refusedLabels.take 2)).map
      (fun p => (p.running, p.queued)) = some (true, 2) := by
    decide +kernel
  have run : PublisherRun (refusedLabels.take 2) p := execute_run PublisherAllowed publisherStep _ _ p result
  rw [result] at known
  obtain ⟨running, queued⟩ := Prod.mk.inj (Option.some.inj known)
  have stamps : ∀ look ∈ (List.range 40).map fun tsc => (tsc, 64), look.1 < 2 ^ 64 := by
    intro look member
    obtain ⟨tsc, inside, rfl⟩ := List.mem_map.mp member
    exact Nat.lt_trans (List.mem_range.mp inside) (by decide)
  obtain ⟨final, longer, empty, _⟩ := publisher_drains _ p run running
    ((List.range 40).map fun tsc => (tsc, 64)) stamps (by simp [queued])
  rw [List.map_map] at longer
  exact ⟨p, final, run, longer, empty⟩

end HftExchange
