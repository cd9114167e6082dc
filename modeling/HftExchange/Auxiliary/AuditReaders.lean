import HftExchange.Auxiliary.AuditLog

set_option autoImplicit false

namespace HftExchange

open Base

def protocolVersion : Nat := 1
def auditHeaderWidths : List Nat := [8, 4, 4, 8]

-- The header that the constructor writes, with the count of the committed
-- entries. The struct is a cache line long.
def auditHeader (writeIndex : Nat) : Bytes :=
  pack littleEndianBytes auditHeaderWidths [auditLogMagic, 1, auditEntrySize, writeIndex] ++
    List.replicate 40 0

abbrev AuditState := LogState Byte OrderLogEntry
abbrev AuditLabel := LogLabel Byte OrderLogEntry

def auditFile (s : AuditState) : Bytes := auditHeader s.published ++ (List.range s.cells).map s.memory

inductive AuditError where
  | short
  | magic (found : Nat)
  | version (found : Nat)
  | entrySize (found : Nat)
deriving DecidableEq, Repr

-- AuditReader's constructor. It returns the count it does not keep.
def openAudit (blob : Bytes) : Except AuditError Nat :=
  if blob.length < auditHeaderWidths.sum then .error .short
  else
    match unpack littleEndian auditHeaderWidths blob with
    | [magic, version, entrySize, writeIndex] =>
        if magic ≠ auditLogMagic then .error (.magic magic)
        else if version ≠ protocolVersion then .error (.version version)
        else if entrySize ≠ auditEntrySize then .error (.entrySize entrySize)
        else .ok writeIndex
    | _ => .error .short

structure AuditCounts where
  states : Nat → Nat
  entries : Nat
  matches' : Nat

def stateOffset : Nat := 62

def countEntries (blob : Bytes) : Nat → Option (Nat → Nat)
  | 0 => some fun _ => 0
  | i + 1 => do
      let counts ← countEntries blob i
      let state ← blob[auditHeaderSize + i * auditEntrySize + stateOffset]?
      pure (Function.update counts state.toNat (counts state.toNat + 1))

-- The script decode_audit. It gives up on a short file, on another entry size
-- and on an entry that is not there.
def decodeAudit (blob : Bytes) : Option AuditCounts :=
  if blob.length < auditHeaderSize then none
  else if littleEndian ((blob.drop 12).take 4) ≠ auditEntrySize then none
  else do
    let writeIndex := littleEndian ((blob.drop 16).take 8)
    let counts ← countEntries blob writeIndex
    pure ⟨counts, writeIndex, counts OrderState.filled.code + counts OrderState.partialFill.code⟩

def countState (code : Nat) (log : List OrderLogEntry) : Nat := log.countP fun e => e.msg.state.code = code

section
variable (s : AuditState)

theorem audit_file_length (writer : auditLayout.WriterInv s) :
    auditHeaderSize + s.log.length * auditEntrySize ≤ (auditFile s).length := by
  have room := Nat.mul_le_mul_right auditEntrySize writer.room
  have cells := writer.cells
  have header : (auditHeader s.published).length = auditHeaderSize := rfl
  rw [auditFile, List.length_append, header, List.length_map, List.length_range, cells]
  have sizes : auditLayout.size = auditEntrySize := rfl
  rw [sizes]
  split <;> omega

theorem audit_file_entry (writer : auditLayout.WriterInv s) (index : Nat) (e : OrderLogEntry)
    (found : s.log[index]? = some e)
    (offset : Nat) (inside : offset < auditEntrySize) :
    (auditFile s)[auditHeaderSize + index * auditEntrySize + offset]? = some
    (auditLayout.entry e offset) := by
  have less : index < s.log.length := (List.getElem?_eq_some_iff.mp found).1
  have low := LogLayout.cell_before auditEntrySize index s.log.length offset less inside
  have length := audit_file_length s writer
  have header : (auditHeader s.published).length = auditHeaderSize := rfl
  have cells : index * auditEntrySize + offset < s.cells := by
    rw [auditFile, List.length_append, header, List.length_map, List.length_range] at length
    omega
  rw [auditFile, List.getElem?_append_right (by rw [header]; omega), header, Nat.add_assoc,
    Nat.add_sub_cancel_left, List.getElem?_map,
    List.getElem?_range cells]
  exact congrArg some (writer.committed index e found offset inside)

theorem entry_state (e : OrderLogEntry) : (auditLayout.entry e stateOffset).toNat = e.msg.state.code := by
  have image := audit_image e
  have placed : (auditLayout.image e)[38]? = some (auditLayout.entry e stateOffset) := rfl
  have state : e.msg.state.code < 256 := by cases e.msg.state <;> decide
  have byte : (auditLayout.image e)[38]? = some (UInt8.ofNat (e.msg.state.code % 256)) := by
    rw [image]
    rfl
  rw [placed] at byte
  rw [Option.some.inj byte, Nat.mod_eq_of_lt state, UInt8.toNat_ofNat_of_lt' state]

theorem count_entries_log (writer : auditLayout.WriterInv s) (n : Nat) (within : n ≤ s.log.length) :
    countEntries (auditFile s) n = some fun code => countState code (s.log.take n) := by
  induction n with
  | zero => rfl
  | succ n ih =>
      have found : s.log[n]? = some s.log[n] := List.getElem?_eq_getElem within
      have byte := audit_file_entry s writer n s.log[n] found stateOffset (by decide)
      rw [countEntries, ih (Nat.le_of_succ_le within), byte]
      refine congrArg some (funext fun code => ?_)
      rw [List.take_add_one, found, countState, List.countP_append, entry_state]
      by_cases same : code = s.log[n].msg.state.code
      · subst same
        simp [countState]
      · rw [Function.update_of_ne same]
        simp [countState, Ne.symm same]

theorem header_fields (writer : auditLayout.WriterInv s) (rest : Bytes) :
    unpack littleEndian auditHeaderWidths (auditHeader s.published ++ rest) =
    [auditLogMagic, 1, auditEntrySize, s.log.length] := by
  have small : s.published < 256 ^ 8 := by
    have room := writer.room
    have capacity : auditLayout.capacity = 20000000 := rfl
    rw [writer.count]
    omega
  have values := unpack_packed little_endian_codec auditHeaderWidths
    [auditLogMagic, 1, auditEntrySize, s.published]
    (.cons (by decide) (.cons (by decide) (.cons (by decide) (.cons small .nil))))
    (List.replicate 40 0 ++ rest)
  rw [← List.append_assoc, writer.count] at values
  rw [writer.count]
  exact values

theorem file_fields (writer : auditLayout.WriterInv s) :
    littleEndian (((auditFile s).drop 12).take 4) = auditEntrySize ∧
    littleEndian (((auditFile s).drop 16).take 8) = s.log.length := by
  have fields := header_fields s writer ((List.range s.cells).map s.memory)
  have size := unpack_field littleEndian auditHeaderWidths (auditFile s) 2 (by decide)
  have index := unpack_field littleEndian auditHeaderWidths (auditFile s) 3 (by decide)
  rw [auditFile, fields] at size index
  exact ⟨(Option.some.inj size).symm, (Option.some.inj index).symm⟩

theorem open_audit_file (writer : auditLayout.WriterInv s) : openAudit (auditFile s) = .ok s.log.length := by
  have length := audit_file_length s writer
  have long : ¬ (auditFile s).length < auditHeaderWidths.sum := by
    have sum : auditHeaderWidths.sum = 24 := rfl
    have size : auditHeaderSize = 64 := rfl
    omega
  have fields := header_fields s writer ((List.range s.cells).map s.memory)
  rw [openAudit, if_neg long, auditFile, fields]
  rfl

theorem decode_audit_file (writer : auditLayout.WriterInv s) :
    ∃ counts, decodeAudit (auditFile s) = some counts ∧
    counts.entries = s.log.length ∧ (∀ code, counts.states code = countState code s.log) ∧
    counts.matches' = countState OrderState.filled.code s.log + countState
      OrderState.partialFill.code s.log := by
  have length := audit_file_length s writer
  obtain ⟨size, index⟩ := file_fields s writer
  have counted := count_entries_log s writer s.log.length (Nat.le_refl _)
  rw [List.take_length] at counted
  refine ⟨⟨fun code => countState code s.log, s.log.length, _⟩, ?_, rfl, fun _ => rfl, rfl⟩
  rw [decodeAudit, if_neg (by omega), if_neg (not_not_intro size), index]
  simp only [counted]
  rfl

end

theorem audit_reader_tails (labels : List AuditLabel) (s : AuditState)
    (run : auditLayout.LogRun labels s) (fits : ∀ e ∈ s.log, e.Fits) :
    s.cursor ≤ s.log.length ∧
    s.out.map decodeAuditEntry = (s.log.take s.cursor).map (fun e => some e.record) ∧
    (∀ label, auditLayout.Allowed s label → ∃ next, auditLayout.step s label = .ok next) ∧
    (s.pc = .idle → ∃ rest next, (∀ label ∈ rest, label = .count ∨ label = .read) ∧
      Run s (Guarded auditLayout.Allowed auditLayout.step) (.poll :: rest) next ∧
      next.pc = .idle ∧
      next.out.map decodeAuditEntry = s.log.map fun e => some e.record) := by
  obtain ⟨cursor, out, total⟩ := auditLayout.log_tail labels s run
  obtain ⟨writer, tail⟩ := auditLayout.log_run_inv labels s run
  have decoded : ∀ log : List OrderLogEntry, (∀ e ∈ log, e.Fits) →
      (log.map auditLayout.image).map decodeAuditEntry = log.map fun e => some e.record := by
    intro log all
    rw [List.map_map]
    exact List.map_congr_left fun e member => decode_audit_image e (all e member)
  refine ⟨cursor, ?_, total, fun idle => ?_⟩
  · rw [out]
    exact decoded _ fun e member => fits e (List.mem_of_mem_take member)
  · have small : s.published < auditLayout.radix ^ auditLayout.digits := by
      have room := writer.room
      have capacity : auditLayout.capacity = 20000000 := rfl
      have bound : auditLayout.radix ^ auditLayout.digits = 2 ^ 64 := rfl
      rw [writer.count, bound]
      omega
    obtain ⟨rest, next, own, polled, after, log, ends, rests⟩ :=
      auditLayout.poll_alone s writer tail idle small
    refine ⟨rest, next, fun label member => ?_, polled, rests, ?_⟩
    · have step := own label member
      cases label <;> simp_all [LogLayout.ReaderStep]
    · rw [after.out, log, ends, List.take_length]
      exact decoded s.log fits

def auditHeaderFields : List Nat := [auditLogMagic, 1, auditEntrySize, 0]

-- The file after the first k of the constructor's stores into the header.
def constructing (k : Nat) : Bytes :=
  pack littleEndianBytes auditHeaderWidths
      (auditHeaderFields.take k ++ List.replicate (4 - k) 0) ++ List.replicate 40 0 ++
    List.replicate (maxLogEntries * auditEntrySize) 0

theorem constructed_file (k : Nat) (done : 3 ≤ k) : constructing k = auditFile auditLayout.init := by
  have header : auditHeaderFields.take k ++ List.replicate (4 - k) 0 = auditHeaderFields := by
    obtain rfl | more : k = 3 ∨ 4 ≤ k := by omega
    · rfl
    · rw [List.take_of_length_le more, Nat.sub_eq_zero_of_le more]
      rfl
  have zeros : (List.range auditLayout.init.cells).map auditLayout.init.memory =
      List.replicate (maxLogEntries * auditEntrySize) 0 := by
    have blank : auditLayout.init.memory = fun _ => 0 := rfl
    rw [blank, List.map_const', List.length_range]
    rfl
  rw [constructing, header, auditFile, zeros]
  rfl

theorem unsized_refused (blob : Bytes) (long : auditHeaderSize ≤ blob.length)
    (magic version index : Nat)
    (fields : unpack littleEndian auditHeaderWidths blob = [magic, version, 0, index]) :
    (∃ error, openAudit blob = .error error) ∧ decodeAudit blob = none := by
  have size : auditHeaderSize = 64 := rfl
  have sum : auditHeaderWidths.sum = 24 := rfl
  constructor
  · rw [openAudit, if_neg (by omega), fields]
    by_cases named : magic = auditLogMagic
    · by_cases known : version = protocolVersion
      · exact ⟨.entrySize 0, by simp [named, known, auditEntrySize]⟩
      · exact ⟨.version version, by simp [named, known]⟩
    · exact ⟨.magic magic, by simp [named]⟩
  · have third := unpack_field littleEndian auditHeaderWidths blob 2 (by decide)
    rw [fields] at third
    have zero : littleEndian ((blob.drop 12).take 4) = 0 := (Option.some.inj third).symm
    rw [decodeAudit, if_neg (by omega), if_pos (by rw [zero]; decide)]

theorem unfinished_header (k : Nat) (short : k < 3) :
    (∃ error, openAudit (constructing k) = .error error) ∧ decodeAudit (constructing k) = none := by
  have fields : ∀ magic version, magic < 256 ^ 8 → version < 256 ^ 4 → ∀ rest : Bytes,
      unpack littleEndian auditHeaderWidths
        (pack littleEndianBytes auditHeaderWidths [magic, version, 0, 0] ++ rest) =
          [magic, version, 0, 0] := fun magic version large small rest =>
    unpack_packed little_endian_codec auditHeaderWidths [magic, version, 0, 0]
      (.cons large (.cons small (.cons (by decide) (.cons (by decide) .nil)))) rest
  have length : ∀ values : List Nat, ∀ rest : Bytes, values.length = 4 → auditHeaderSize ≤
      (pack littleEndianBytes auditHeaderWidths values ++ List.replicate 40 0 ++ rest).length := by
    intro values rest four
    rw [List.length_append, List.length_append, pack_length little_endian_codec _ _ four,
      List.length_replicate]
    exact Nat.le_add_right 64 _
  have first : ∃ magic version, magic < 256 ^ 8 ∧ version < 256 ^ 4 ∧
      auditHeaderFields.take k ++ List.replicate (4 - k) 0 = [magic, version, 0, 0] := by
    obtain rfl | rfl | rfl : k = 0 ∨ k = 1 ∨ k = 2 := by omega
    · exact ⟨0, 0, by decide, by decide, rfl⟩
    · exact ⟨auditLogMagic, 0, by decide, by decide, rfl⟩
    · exact ⟨auditLogMagic, 1, by decide, by decide, rfl⟩
  obtain ⟨magic, version, large, small, same⟩ := first
  rw [constructing, same]
  refine unsized_refused _ (length _ _ rfl) magic version 0 ?_
  rw [List.append_assoc]
  exact fields magic version large small _

-- The file on its own, whenever the process stops. Before the constructor has
-- stored the size of the entries neither reader takes the file. After that the
-- reader opens it and the script counts the committed records, neither one more
-- nor one less.
theorem audit_survives_crash :
    (∀ k, k < 3 → (∃ error, openAudit (constructing k) = .error error) ∧
      decodeAudit (constructing k) = none) ∧
    (∀ k, 3 ≤ k → constructing k = auditFile auditLayout.init) ∧
    ∀ (labels : List AuditLabel) (s : AuditState), auditLayout.LogRun labels s →
      openAudit (auditFile s) = .ok s.log.length ∧
      ∃ counts, decodeAudit (auditFile s) = some counts ∧ counts.entries = s.log.length ∧
        (∀ code, counts.states code = countState code s.log) ∧
        counts.matches' = countState OrderState.filled.code s.log +
          countState OrderState.partialFill.code s.log := by
  refine ⟨unfinished_header, constructed_file, fun labels s run => ?_⟩
  have writer := (auditLayout.log_run_inv labels s run).1
  exact ⟨open_audit_file s writer, decode_audit_file s writer⟩

-- The reader polls between two entries, and the process ends in the middle of
-- the second one.
def crashedLabels : List AuditLabel :=
  let first : OrderLogEntry := ⟨999, ⟨42, 7, 50000, 100, 3, .filled, .sell⟩⟩
  let second : OrderLogEntry := ⟨1000, ⟨43, 8, 50000, 100, 3, .new, .buy⟩⟩
  .start first first.stores :: List.replicate 40 .store ++ [.publish, .poll] ++ List.replicate 9 .count ++
    [.start second second.stores] ++ List.replicate 20 .store ++ List.replicate 41 .read

theorem crashed_log_run :
    ∃ s, auditLayout.LogRun crashedLabels s ∧
    s.log = [⟨999, ⟨42, 7, 50000, 100, 3, .filled, .sell⟩⟩] ∧
    s.cursor = 1 := by
  obtain ⟨s, result⟩ := Option.isSome_iff_exists.mp
    (show (execute auditLayout.Allowed auditLayout.step auditLayout.init crashedLabels).isSome =
      true by decide +kernel)
  have ends : (execute auditLayout.Allowed auditLayout.step auditLayout.init crashedLabels).map
    (fun s => (s.log, s.cursor)) =
      some ([⟨999, ⟨42, 7, 50000, 100, 3, .filled, .sell⟩⟩], 1) := by decide +kernel
  rw [result] at ends
  obtain ⟨log, cursor⟩ := Prod.mk.inj (Option.some.inj ends)
  exact ⟨s, execute_run _ _ _ _ _ result, log, cursor⟩

theorem crashed_log_tailed :
    ∃ s, auditLayout.LogRun crashedLabels s ∧
    s.out.map decodeAuditEntry = [some ⟨999, 42, 7, 50000, 100, 3, 2, 1⟩] := by
  obtain ⟨s, run, log, cursor⟩ := crashed_log_run
  have fits : ∀ e ∈ s.log, e.Fits := by
    intro e member
    rw [log, List.mem_singleton] at member
    subst member
    exact ⟨by decide, by decide, by decide, by decide, by decide, by decide⟩
  refine ⟨s, run, (audit_reader_tails crashedLabels s run fits).2.1.trans ?_⟩
  rw [log, cursor]
  rfl

theorem crashed_log_counted : ∃ s, auditLayout.LogRun crashedLabels s ∧ openAudit (auditFile s) = .ok 1 := by
  obtain ⟨s, run, log, _⟩ := crashed_log_run
  refine ⟨s, run, (audit_survives_crash.2.2 crashedLabels s run).1.trans ?_⟩
  rw [log]
  rfl

end HftExchange
