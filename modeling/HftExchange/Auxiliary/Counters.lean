import HftExchange.Auxiliary.OrderManager

set_option autoImplicit false

namespace HftExchange

open Base

def engineRecords (shards : Nat → Shard) : List DropCopyMessage :=
  (List.range numShards).flatMap fun s => dropCopySequence (shards s).shared.out

def itchCount (type : Char) (shard : Shard) : Nat := (itchSequence shard.shared.out).countP fun m =>
    m.msgType = ascii type

-- metrics.trades. The division is exact in Python.
def reportsPerTrade : Nat := 2

def shardTrades (fills : Nat) : ℚ := fills / reportsPerTrade

theorem drop_copy_append (first second : List Output) :
    dropCopySequence (first ++ second) = dropCopySequence first ++ dropCopySequence second :=
      List.filterMap_append

theorem event_counts (event : Event) :
    (dropCopySequence event.outputs).countP (fun m => isNew m.state) =
    (itchSequence event.outputs).countP (fun m => m.msgType = ascii 'A') ∧
    (dropCopySequence event.outputs).countP (fun m => isFill m.state) =
    (itchSequence event.outputs).countP (fun m => m.msgType = ascii 'E') ∧
    (dropCopySequence event.outputs).countP (fun m => isCanceled m.state) =
      (itchSequence event.outputs).countP (fun m => m.msgType = ascii 'X') := by
  have letters : ascii 'A' ≠ ascii 'E' ∧ ascii 'A' ≠ ascii 'X' ∧ ascii 'E' ≠ ascii 'X' := by decide
  cases event with
  | trade taker maker =>
      rw [itch_trade]
      have fills : ∀ o qty, fillState o qty = .filled ∨ fillState o qty = .partialFill := by
        intro o qty
        rw [fillState]
        split <;> simp
      have records : dropCopySequence (Event.trade taker maker).outputs =
          [fillRecord taker maker.price (tradeQty taker maker),
            fillRecord maker maker.price (tradeQty taker maker)] := by
        by_cases all : maker.quantity ≤ tradeQty taker maker <;>
          simp [dropCopySequence, Event.outputs, itchOf, dropCopyOf, ackOf, fillRecord, all]
      rw [records]
      rcases fills taker (tradeQty taker maker) with mine | mine <;> rcases fills maker
        (tradeQty taker maker) with theirs | theirs <;>
        simp [fillRecord, itchMessage, mine, theirs, isNew, isFill, isCanceled, letters, Ne.symm letters.1]
  | reject o | rest o | filled o | cancel o =>
      simp [dropCopySequence, itchSequence, Event.outputs, itchOf, dropCopyOf, isNew, isFill,
        isCanceled, letters,
        Ne.symm letters.2.1, Ne.symm letters.2.2]

theorem events_counts (events : List Event) :
    ofKind isNew (dropCopySequence (events.flatMap Event.outputs)) =
      (itchSequence (events.flatMap Event.outputs)).countP (fun m => m.msgType = ascii 'A') ∧
    ofKind isFill (dropCopySequence (events.flatMap Event.outputs)) =
      (itchSequence (events.flatMap Event.outputs)).countP (fun m => m.msgType = ascii 'E') ∧
    ofKind isCanceled (dropCopySequence (events.flatMap Event.outputs)) =
      (itchSequence (events.flatMap Event.outputs)).countP (fun m => m.msgType = ascii 'X') := by
  induction events with
  | nil => exact ⟨rfl, rfl, rfl⟩
  | cons event rest ih =>
      obtain ⟨added, executed, canceled⟩ := event_counts event
      simp only [ofKind, List.flatMap_cons, drop_copy_append, itch_append, List.countP_append,
        added, executed, canceled] at ih ⊢
      omega

section
variable (shards : Nat → Shard) (ops : Nat → List ShardOp)

theorem drop_copies_routed (s : Nat) (run : ShardRun (.init s) (ops s) (shards s)) (m : DropCopyMessage)
    (member : m ∈ dropCopySequence (shards s).shared.out) : m.instrumentId % numShards = s := by
  obtain ⟨_, events, account⟩ := shard_run_account (fun o => o.instrumentId % numShards = s)
    (fun _ _ same => same) s _ _ run
    fun state o same allowed _ => allowed.2.2.trans same
  have inside : .dropCopy m ∈ (shards s).shared.out := by
    simp only [dropCopySequence, List.mem_filterMap] at member
    obtain ⟨output, there, same⟩ := member
    cases output <;> simp_all
  rw [account.out] at inside
  obtain ⟨event, there, made⟩ := List.mem_flatMap.mp inside
  obtain ⟨r, own, same⟩ := drop_copy_order event m made
  rw [same]
  exact account.orders event there r own

theorem records_in_append (kind : OrderState → Bool) (s : Nat) (first second : List DropCopyMessage) :
    recordsIn kind s (first ++ second) = recordsIn kind s first + recordsIn kind s second :=
      List.countP_append

theorem records_of_shard (engines : ∀ s, s < numShards → ShardRun (.init s) (ops s) (shards s))
    (kind : OrderState → Bool) (s : Nat)
    (known : s < numShards) :
    recordsIn kind s (engineRecords shards) = ofKind kind
    (dropCopySequence (shards s).shared.out) := by
  have elsewhere : ∀ t ∈ List.range numShards, t ≠ s →
      recordsIn kind s (dropCopySequence (shards t).shared.out) = 0 := by
    intro t there other
    rw [recordsIn, List.countP_eq_zero]
    intro m member
    simp [drop_copies_routed shards ops t (engines t (List.mem_range.mp there)) m member, other]
  rw [engineRecords, measure_single (recordsIn kind s) rfl (records_in_append kind s) _ _ s
    List.nodup_range (List.mem_range.mpr known)
    elsewhere]
  refine List.countP_congr fun m member => ?_
  simp [drop_copies_routed shards ops s (engines s known) m member]

theorem refused_none (kind : OrderState → Bool) (s : Nat) (refused : List DropCopyMessage)
    (refusals : ∀ m ∈ refused, m.state = .rejected)
    (other : kind .rejected = false) : recordsIn kind s refused = 0 := by
  rw [recordsIn, List.countP_eq_zero]
  intro m member
  simp [refusals m member, other]

end

theorem shard_counters_exact (shards : Nat → Shard) (ops : Nat → List ShardOp)
    (mops : List ManagerOp) (refused : List DropCopyMessage)
    (engines : ∀ s, s < numShards → ShardRun (.init s) (ops s) (shards s))
    (refusals : ∀ m ∈ refused, m.state = .rejected)
    (arrived : ((consumed mops).map OrderLogEntry.msg).Perm (engineRecords shards ++ refused))
    (room : (consumed mops).length < 2 ^ 64)
    (s : Nat) (known : s < numShards) :
    ((mops.foldl managerStep .init).shards s).ordersIn = itchCount 'A' (shards s) ∧
    ((mops.foldl managerStep .init).shards s).fills = itchCount 'E' (shards s) ∧
    ((mops.foldl managerStep .init).shards s).cancels = itchCount 'X' (shards s) ∧
    ((mops.foldl managerStep .init).shards s).rejects =
      ofKind isRejected (dropCopySequence (shards s).shared.out) + recordsIn isRejected s refused ∧
    ∃ trades, MatchesPaired (shards s).shared.out trades ∧
      shardTrades ((mops.foldl managerStep .init).shards s).fills = trades.length := by
  obtain ⟨counted, _⟩ := manager_counted mops room
  obtain ⟨_, events, _, out, opposite⟩ := shard_run_events s (ops s) (shards s) (engines s known)
  obtain ⟨added, executed, canceled⟩ := events_counts events
  rw [← out] at added executed canceled
  have told : ∀ kind, recordsIn kind s ((consumed mops).map OrderLogEntry.msg) =
      ofKind kind (dropCopySequence (shards s).shared.out) + recordsIn kind s refused := by
    intro kind
    rw [recordsIn, arrived.countP_eq, ← recordsIn, records_in_append,
      records_of_shard shards ops engines kind s known]
  have paired := matches_paired events opposite
  rw [← out] at paired
  have fills : ((mops.foldl managerStep .init).shards s).fills = ofKind isFill
      (dropCopySequence (shards s).shared.out) := by
    rw [counted.fills, told, refused_none isFill s refused refusals rfl, Nat.add_zero]
  refine ⟨?_, fills.trans executed, ?_, (counted.rejects s).trans (told isRejected),
    events.filterMap tradeOf, paired, ?_⟩
  · rw [counted.ordersIn, told, refused_none isNew s refused refusals rfl, Nat.add_zero]
    exact added
  · rw [counted.cancels, told, refused_none isCanceled s refused refusals rfl, Nat.add_zero]
    exact canceled
  · have count := paired.count
    rw [fillRecords, ← List.countP_eq_length_filter] at count
    rw [fills, ofKind, count, shardTrades, reportsPerTrade]
    push_cast
    ring

theorem audit_matches_doubled (shards : Nat → Shard) (ops : Nat → List ShardOp)
    (mops : List ManagerOp) (refused : List DropCopyMessage)
    (engines : ∀ s, s < numShards → ShardRun (.init s) (ops s) (shards s))
    (refusals : ∀ m ∈ refused, m.state = .rejected)
    (arrived : ((consumed mops).map OrderLogEntry.msg).Perm (engineRecords shards ++ refused))
    (room : (consumed mops).length ≤ maxLogEntries)
    (labels : List AuditLabel) (a : AuditState) (file : auditLayout.LogRun labels a)
    (written : a.log = (mops.foldl managerStep .init).logged) :
    ∃ counts, decodeAudit (auditFile a) = some counts ∧ ∃ trades : Nat → List (Order × Order),
      (∀ s, s < numShards → MatchesPaired (shards s).shared.out (trades s)) ∧
      counts.matches' = 2 * ((List.range numShards).map fun s => (trades s).length).sum := by
  obtain ⟨counts, decoded, _, _, fills⟩ := decode_audit_file a (auditLayout.log_run_inv labels a file).1
  have events : ∀ s, ∃ trades, s < numShards → MatchesPaired (shards s).shared.out trades := by
    intro s
    by_cases known : s < numShards
    · obtain ⟨_, events, _, out, opposite⟩ := shard_run_events s (ops s) (shards s) (engines s known)
      exact ⟨events.filterMap tradeOf, fun _ => out ▸ matches_paired events opposite⟩
    · exact ⟨[], fun inside => absurd inside known⟩
  choose trades paired using events
  refine ⟨counts, decoded, trades, paired, ?_⟩
  have small : maxLogEntries < 2 ^ 64 := by decide
  have logged := (manager_counted mops (Nat.lt_of_le_of_lt room small)).2
  have both : ∀ log : List OrderLogEntry, countState OrderState.filled.code log + countState
    OrderState.partialFill.code log =
      ofKind isFill (log.map OrderLogEntry.msg) := by
    intro log
    induction log with
    | nil => rfl
    | cons e rest ih =>
        simp only [countState, ofKind, List.map_cons, List.countP_cons] at ih ⊢
        rw [← ih]
        cases e.msg.state <;> simp [OrderState.code, isFill] <;> omega
  have each : ∀ s ∈ List.range numShards, ofKind isFill (dropCopySequence (shards s).shared.out) =
      2 * (trades s).length := by
    intro s member
    have count := (paired s (List.mem_range.mp member)).count
    rwa [fillRecords, ← List.countP_eq_length_filter] at count
  have none_ : ofKind isFill refused = 0 := by
    rw [ofKind, List.countP_eq_zero]
    intro m member
    simp [refusals m member, isFill]
  rw [fills, written, logged, List.take_of_length_le room, both, ofKind, arrived.countP_eq,
    List.countP_append, ← ofKind, ← ofKind, none_,
    Nat.add_zero, engineRecords, ofKind, List.countP_flatMap, ← List.sum_map_mul_left]
  exact congrArg List.sum (List.map_congr_left each)

def crossedOps (s : Nat) : List ShardOp :=
  if s = 3 then [.submit ⟨1, 11, 100, 10, 7, 3, 0, .sell⟩, .submit ⟨2, 12, 100, 10, 8, 3, 0, .buy⟩] else []

def refusedRecord : DropCopyMessage := ⟨5, 0, 1, 0, invalidInstrument, .rejected, .buy⟩

def crossedRecords : List DropCopyMessage :=
  [refusedRecord, ⟨11, 1, 100, 10, 3, .new, .sell⟩, ⟨12, 2, 100, 10, 3, .filled, .buy⟩,
    ⟨11, 1, 100, 10, 3, .filled, .sell⟩]

def crossedManager : List ManagerOp := .second :: crossedRecords.map (.consume 999) ++ [.second]

theorem crossed_engines :
    ∃ shards : Nat → Shard, (∀ s, s < numShards → ShardRun (.init s) (crossedOps s) (shards s)) ∧
    ((consumed crossedManager).map OrderLogEntry.msg).Perm (engineRecords shards ++ [refusedRecord]) := by
  have runs : ∀ s, ∃ shard, s < numShards → execute ShardAdmissible shardStep (.init s)
      (crossedOps s) = some shard := by
    have all : ∀ s, s < numShards →
      (execute ShardAdmissible shardStep (.init s) (crossedOps s)).isSome = true :=
      by decide +kernel
    intro s
    by_cases known : s < numShards
    · obtain ⟨shard, result⟩ := Option.isSome_iff_exists.mp (all s known)
      exact ⟨shard, fun _ => result⟩
    · exact ⟨.init s, fun inside => absurd inside known⟩
  choose shards results using runs
  refine ⟨shards, fun s known => execute_run _ _ _ _ _ (results s known), ?_⟩
  have made : ∀ s, s < numShards → (execute ShardAdmissible shardStep (.init s) (crossedOps s)).map
    (fun shard => dropCopySequence shard.shared.out) =
      some (if s = 3 then crossedRecords.tail else []) := by decide +kernel
  have parts : engineRecords shards = (List.range numShards).flatMap fun s =>
      if s = 3 then crossedRecords.tail else [] := by
    rw [engineRecords, List.flatMap_def, List.flatMap_def]
    refine congrArg List.flatten (List.map_congr_left fun s member => ?_)
    have known := List.mem_range.mp member
    have here := made s known
    rw [results s known] at here
    exact Option.some.inj here
  rw [parts]
  decide +kernel

theorem crossed_counters :
    ∃ shards : Nat → Shard,
    ((crossedManager.foldl managerStep .init).shards 3).fills = itchCount 'E' (shards 3) ∧
    ((crossedManager.foldl managerStep .init).shards 3).rejects = ofKind isRejected
    (dropCopySequence (shards 3).shared.out) + 1 := by
  obtain ⟨shards, engines, arrived⟩ := crossed_engines
  obtain ⟨_, fills, _, rejects, _⟩ := shard_counters_exact shards crossedOps crossedManager
    [refusedRecord] engines (by decide) arrived
    (by decide) 3 (by decide)
  exact ⟨shards, fills, rejects⟩

def crossedFile : List AuditLabel :=
  crossedRecords.flatMap fun m => .start ⟨999, m⟩ (OrderLogEntry.stores ⟨999, m⟩) :: List.replicate
    40 .store ++ [.publish]

theorem crossed_matches_doubled :
    ∃ (shards : Nat → Shard) (a : AuditState),
    (∀ s, s < numShards → ShardRun (.init s) (crossedOps s) (shards s)) ∧
    auditLayout.LogRun crossedFile a ∧ ∃ counts, decodeAudit (auditFile a) = some counts ∧
    ∃ trades : Nat → List (Order × Order),
      (∀ s, s < numShards → MatchesPaired (shards s).shared.out (trades s)) ∧
      counts.matches' = 2 * ((List.range numShards).map fun s => (trades s).length).sum := by
  obtain ⟨shards, engines, arrived⟩ := crossed_engines
  obtain ⟨a, result⟩ := Option.isSome_iff_exists.mp
    (show (execute auditLayout.Allowed auditLayout.step auditLayout.init crossedFile).isSome = true by
      decide +kernel)
  have log : (execute auditLayout.Allowed auditLayout.step auditLayout.init crossedFile).map
      LogState.log = some (crossedManager.foldl managerStep .init).logged := by decide +kernel
  rw [result] at log
  have run : auditLayout.LogRun crossedFile a := execute_run _ _ _ _ _ result
  exact ⟨shards, a, engines, run, audit_matches_doubled shards crossedOps crossedManager
    [refusedRecord] engines (by decide) arrived (by decide) crossedFile a run
    (Option.some.inj log)⟩

end HftExchange
