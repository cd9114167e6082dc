import HftExchange.Base.AppendLogRun
import HftExchange.Protocol.ItchWire
import HftExchange.System.Shutdown

set_option autoImplicit false

namespace HftExchange

open Base

def auditLogMagic : Nat := 0x48465441554401
def auditHeaderSize : Nat := 64
def auditEntrySize : Nat := 64
def dropCopyOffset : Nat := 32

def OrderState.code : OrderState → Nat
  | .new => 0
  | .partialFill => 1
  | .filled => 2
  | .canceled => 3
  | .rejected => 4

def Side.code : Side → Nat
  | .buy => 0
  | .sell => 1

def dropCopyWidths : List Nat := [8, 8, 8, 4, 2, 1, 1]

def DropCopyMessage.bytes (m : DropCopyMessage) : Bytes :=
  pack littleEndianBytes dropCopyWidths
    [m.clientOrderId, m.internalId, m.price, m.quantity, m.instrumentId, m.state.code, m.side.code]

structure DropCopyMessage.Fits (m : DropCopyMessage) : Prop where
  clientOrderId : m.clientOrderId < 2 ^ 64
  internalId : m.internalId < 2 ^ 64
  price : m.price < 2 ^ 64
  quantity : m.quantity < 2 ^ 32
  instrumentId : m.instrumentId < 2 ^ 16

structure OrderLogEntry where
  timestampTsc : Nat
  msg : DropCopyMessage
deriving DecidableEq, Repr

structure OrderLogEntry.Fits (e : OrderLogEntry) : Prop where
  timestampTsc : e.timestampTsc < 2 ^ 64
  msg : e.msg.Fits

def storesAt (offset : Nat) : Bytes → List (Nat × Byte)
  | [] => []
  | b :: rest => (offset, b) :: storesAt (offset + 1) rest

-- The two assignments of consume. The message is aligned to 32 bytes, and the
-- padding before it is never written.
def OrderLogEntry.stores (e : OrderLogEntry) : List (Nat × Byte) :=
  storesAt 0 (littleEndianBytes 8 e.timestampTsc) ++ storesAt dropCopyOffset e.msg.bytes

-- The offsets from which decode_audit_entry unpacks.
def auditOffsets : List Nat := List.range 8 ++ (List.range 32).map (dropCopyOffset + ·)

-- The monitor's record. The state and the side stay numbers.
structure AuditRecord where
  timestampTsc : Nat
  clientOrderId : Nat
  internalId : Nat
  price : Nat
  quantity : Nat
  instrumentId : Nat
  state : Nat
  side : Nat
deriving DecidableEq, Repr

def decodeAuditEntry (bytes : Bytes) : Option AuditRecord :=
  match unpack littleEndian (8 :: dropCopyWidths) bytes with
  | [ts, coid, iid, px, qty, inst, state, side] => some ⟨ts, coid, iid, px, qty, inst, state, side⟩
  | _ => none

def OrderLogEntry.record (e : OrderLogEntry) : AuditRecord :=
  ⟨e.timestampTsc, e.msg.clientOrderId, e.msg.internalId, e.msg.price, e.msg.quantity,
    e.msg.instrumentId, e.msg.state.code, e.msg.side.code⟩

theorem stores_at_offsets (offset : Nat) (bytes : Bytes) :
    (storesAt offset bytes).map Prod.fst = (List.range bytes.length).map (offset + ·) := by
  induction bytes generalizing offset with
  | nil => rfl
  | cons b rest ih =>
      rw [storesAt, List.map_cons, ih, List.length_cons, List.range_succ_eq_map, List.map_cons, List.map_map]
      congr 1
      refine List.map_congr_left fun i _ => ?_
      rw [Function.comp, Nat.succ_eq_add_one]
      omega

theorem stores_at_value (offset : Nat) (bytes : Bytes) (i : Nat) (b : Byte) (found : bytes[i]? = some b) :
    (offset + i, b) ∈ storesAt offset bytes := by
  induction bytes generalizing offset i with
  | nil => cases found
  | cons first rest ih =>
      cases i with
      | zero =>
          cases found
          exact List.mem_cons_self
      | succ i =>
          have later := ih (offset + 1) i found
          rw [Nat.add_assoc, Nat.add_comm 1 i] at later
          exact List.mem_cons_of_mem _ later

theorem drop_copy_bytes_length (m : DropCopyMessage) : m.bytes.length = 32 :=
    pack_length little_endian_codec dropCopyWidths _ rfl

theorem entry_stores_offsets (e : OrderLogEntry) : e.stores.map Prod.fst = auditOffsets := by
  rw [OrderLogEntry.stores, List.map_append, stores_at_offsets, stores_at_offsets,
    little_endian_bytes_length, drop_copy_bytes_length,
    auditOffsets]
  simp

theorem audit_offsets_inside : ∀ offset ∈ auditOffsets, offset < auditEntrySize := by decide

-- The entries of the file, as the OrderManager writes and the AuditReader
-- reads them. A fresh file is zero.
def auditLayout : LogLayout Byte OrderLogEntry where
  size := auditEntrySize
  capacity := maxLogEntries
  blank := 0
  stores := OrderLogEntry.stores
  offsets := auditOffsets
  radix := 256
  digits := 8
  stores_inside := fun e store member => by
    have inside := List.mem_map_of_mem (f := Prod.fst) member
    rw [entry_stores_offsets] at inside
    exact audit_offsets_inside store.1 inside
  stores_once := fun e => by
    rw [entry_stores_offsets]
    decide
  offsets_inside := audit_offsets_inside

theorem audit_image (e : OrderLogEntry) :
    auditLayout.image e = littleEndianBytes 8 e.timestampTsc ++ e.msg.bytes := by
  have part : ∀ offset bytes, (∀ store ∈ storesAt offset bytes, store ∈ e.stores) →
      (List.range bytes.length).map (fun i => auditLayout.entry e (offset + i)) = bytes := by
    intro offset bytes within
    refine List.ext_getElem (by simp) fun i _ inside => ?_
    rw [List.getElem_map, List.getElem_range]
    exact auditLayout.entry_stored e _ _
      (within _ (stores_at_value offset bytes i _ (List.getElem?_eq_getElem inside)))
  have first := part 0 (littleEndianBytes 8 e.timestampTsc) fun store member => List.mem_append_left _ member
  have second := part dropCopyOffset e.msg.bytes fun store member => List.mem_append_right _ member
  rw [little_endian_bytes_length] at first
  rw [drop_copy_bytes_length] at second
  have whole : auditLayout.image e = auditOffsets.map (auditLayout.entry e) := rfl
  rw [whole, auditOffsets, List.map_append, List.map_map, ← second, ← first]
  simp only [Nat.zero_add, Function.comp_def, second]

theorem decode_audit_image (e : OrderLogEntry) (fits : e.Fits) :
    decodeAuditEntry (auditLayout.image e) = some e.record := by
  have state : e.msg.state.code < 256 ^ 1 := by cases e.msg.state <;> decide
  have side : e.msg.side.code < 256 ^ 1 := by cases e.msg.side <;> decide
  have values := unpack_packed little_endian_codec (8 :: dropCopyWidths)
    [e.timestampTsc, e.msg.clientOrderId, e.msg.internalId, e.msg.price,
    e.msg.quantity, e.msg.instrumentId, e.msg.state.code, e.msg.side.code] (.cons fits.timestampTsc
      (.cons fits.msg.clientOrderId
      (.cons fits.msg.internalId
        (.cons fits.msg.price
        (.cons fits.msg.quantity (.cons fits.msg.instrumentId (.cons state (.cons side .nil))))))))
        []
  have parts : pack littleEndianBytes (8 :: dropCopyWidths) [e.timestampTsc, e.msg.clientOrderId,
    e.msg.internalId, e.msg.price,
    e.msg.quantity, e.msg.instrumentId, e.msg.state.code, e.msg.side.code] =
      littleEndianBytes 8 e.timestampTsc ++ e.msg.bytes := rfl
  rw [List.append_nil, parts] at values
  rw [audit_image, decodeAuditEntry, values]
  rfl

end HftExchange
