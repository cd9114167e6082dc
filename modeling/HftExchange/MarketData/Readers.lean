import HftExchange.Firm.TickPipeline
import HftExchange.Protocol.ItchWire

set_option autoImplicit false

namespace HftExchange

open Base

-- The members that the firm's overlay has, and the tracking number between
-- the instrument and the time, which it does not look at.
def overlayRecord (raw : Bytes) : ItchRecord :=
  let msg := ItchMessage.decode raw
  ⟨msg.msgType, msg.stockLocate, littleEndian ((raw.drop 3).take 2), itchTimestamp raw,
    msg.internalId, msg.shares, msg.price, msg.side⟩

theorem little_endian_single (bytes : Bytes) (offset : Nat) (inside : offset < bytes.length) :
    littleEndian ((bytes.drop offset).take 1) = (bytes.getD offset 0).toNat := by
  rw [List.drop_eq_getElem_cons inside, List.take_succ_cons, List.take_zero, littleEndian,
    littleEndian, List.getD_eq_getElem _ _ inside]
  omega

theorem unpack_overlay (raw : Bytes) (length : raw.length = itchSize) :
    unpack littleEndian itchWidths raw =
    [(overlayRecord raw).msgType.toNat, (overlayRecord raw).stockLocate,
      (overlayRecord raw).trackingNumber, (overlayRecord raw).timestamp,
      (overlayRecord raw).internalId, (overlayRecord raw).shares, (overlayRecord raw).price,
      (overlayRecord raw).side.toNat] := by
  have first := little_endian_single raw 0 (by rw [length]; decide)
  have last := little_endian_single raw 33 (by rw [length]; decide)
  rw [List.drop_zero] at first
  simp only [unpack, itchWidths, List.drop_drop, overlayRecord, ItchMessage.decode,
    itchTimestamp, first, last]

def readable (raw : Bytes) : Bool :=
  (overlayRecord raw).msgType < 128 ∧ (overlayRecord raw).side < 128

theorem decode_itch_overlay (raw : Bytes) (length : raw.length = itchSize) :
    decodeItch raw 0 = if readable raw then some (overlayRecord raw) else none := by
  have bytes : readable raw = true ↔
      (overlayRecord raw).msgType.toNat < 128 ∧ (overlayRecord raw).side.toNat < 128 := by
    simp [readable, UInt8.lt_iff_toNat_lt]
  rw [decodeItch, if_pos (by rw [length, Nat.zero_add]), List.drop_zero,
    unpack_overlay raw length]
  simp [bytes]

theorem read_bytes_records (buf : Bytes) (indices : List Nat)
    (inside : ∀ i ∈ indices, i < buf.length / itchMessageSize) :
    indices.mapM (fun i => readBytes buf (i * itchMessageSize) itchMessageSize) =
      .ok (indices.map fun i => (buf.drop (i * itchMessageSize)).take itchMessageSize) := by
  induction indices with
  | nil => rfl
  | cons i rest ih =>
      have whole : (i + 1) * itchMessageSize ≤ buf.length :=
        Nat.le_trans (Nat.mul_le_mul_right _ (inside i List.mem_cons_self)) (Nat.div_mul_le_self _ _)
      rw [Nat.succ_mul] at whole
      rw [List.mapM_cons, readBytes, if_pos whole, checked_bind_ok, ih fun j member =>
        inside j (List.mem_cons_of_mem _ member)]
      rfl

theorem firm_reads (buf : Bytes) :
    (List.range (buf.length / itchMessageSize)).mapM
    (fun i => readBytes buf (i * itchMessageSize) itchMessageSize) = .ok (records itchSize buf) :=
  read_bytes_records buf _ fun _ => List.mem_range.mp

theorem overlay_bytes (msg : ItchMessage) (timestamp : Nat) (fits : msg.Fits) (stamp : timestamp < 2 ^ 64) :
    overlayRecord (msg.bytes timestamp) = msg.record timestamp := by
  have read := decode_itch_bytes msg timestamp fits stamp
  rw [decode_itch_overlay _ (itch_bytes_length msg timestamp)] at read
  split at read
  · exact Option.some.inj read
  · cases read

-- The firm reads every record of a datagram. The monitor reads the same fields
-- of them up to the first it cannot decode, where an exception ends its reading.
-- Of the exchange's messages both read what was sent.
theorem readers_agree (buf : Bytes) :
    (∃ raws, (List.range (buf.length / itchMessageSize)).mapM
        (fun i => readBytes buf (i * itchMessageSize) itchMessageSize) = .ok raws ∧
      (iterItch buf).values = (raws.takeWhile readable).map overlayRecord ∧
      ((iterItch buf).raised = true ↔ ∃ raw ∈ raws, readable raw = false)) ∧
    ∀ (messages : List (ItchMessage × Nat)) (fragment : Bytes), fragment.length < itchSize →
      (∀ m ∈ messages, m.1.Fits ∧ m.2 < 2 ^ 64) →
      buf = (messages.flatMap fun m => m.1.bytes m.2) ++ fragment →
      iterItch buf = ⟨messages.map fun m => m.1.record m.2, false⟩ ∧
      (List.range (buf.length / itchMessageSize)).mapM
        (fun i => readBytes buf (i * itchMessageSize) itchMessageSize) =
          .ok (messages.map fun m => m.1.bytes m.2) ∧
      ∀ m ∈ messages, ItchMessage.decode (m.1.bytes m.2) = m.1 ∧
        itchTimestamp (m.1.bytes m.2) = m.2 := by
  constructor
  · have yielded : iterItch buf = .collect ((records itchSize buf).map fun raw =>
        if readable raw then some (overlayRecord raw) else none) := by
      rw [iter_itch_records]
      exact congrArg Yielded.collect (List.map_congr_left fun raw member =>
        decode_itch_overlay raw (records_length itchSize buf raw member))
    rw [collect_guarded] at yielded
    refine ⟨_, firm_reads buf, by rw [yielded], ?_⟩
    rw [yielded]
    simp
  · intro messages fragment short fits same
    have split_ := records_flatMap itchSize (fun m => m.1.bytes m.2) messages fragment
      (by decide) (fun m _ => itch_bytes_length m.1 m.2) short
    rw [same, firm_reads, split_]
    refine ⟨iter_itch_messages messages fragment short fits, rfl, fun m member => ?_⟩
    have read := overlay_bytes m.1 m.2 (fits m member).1 (fits m member).2
    exact ⟨congrArg ItchRecord.message read, congrArg ItchRecord.timestamp read⟩

def cutMessages : List (ItchMessage × Nat) :=
  [(⟨ascii 'A', 5, 222, 100, 50000, ascii 'B'⟩, 111), (⟨ascii 'X', 255, 7, 1, 1, ascii 'S'⟩, 112)]

theorem cut_datagram_read :
    iterItch ((cutMessages.flatMap fun m => m.1.bytes m.2) ++ [ascii 'E']) =
      ⟨[⟨ascii 'A', 5, 0, 111, 222, 100, 50000, ascii 'B'⟩,
        ⟨ascii 'X', 255, 0, 112, 7, 1, 1, ascii 'S'⟩], false⟩ := by
  have fits : ∀ m ∈ cutMessages, m.1.Fits ∧ m.2 < 2 ^ 64 := by
    simp only [cutMessages, List.forall_mem_cons]
    refine ⟨⟨?_, by decide⟩, ⟨?_, by decide⟩, by simp⟩ <;> constructor <;> decide
  exact ((readers_agree _).2 cutMessages [ascii 'E'] (by decide) fits rfl).1

example : iterItch (ItchMessage.bytes ⟨200, 5, 222, 100, 50000, ascii 'B'⟩ 111 ++
    ItchMessage.bytes ⟨ascii 'X', 255, 7, 1, 1, ascii 'S'⟩ 112) = ⟨[], true⟩ := by
  decide +kernel

end HftExchange
