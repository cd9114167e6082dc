import HftExchange.Base.Packed
import HftExchange.Protocol.Digits

set_option autoImplicit false

namespace HftExchange

open Base

def FitsWidth (width value : Nat) : Prop := value < 256 ^ width

instance (width value : Nat) : Decidable (FitsWidth width value) := Nat.decLt value (256 ^ width)

theorem little_endian_codec : FieldCodec littleEndianBytes littleEndian FitsWidth where
  width := little_endian_bytes_length
  read_write := fun width value small => by rw [little_endian_round_trip, Nat.mod_eq_of_lt small]

def itchSize : Nat := 34

-- The members of the packed struct in their order, and the same record in the
-- format string of the monitor.
def itchWidths : List Nat := [1, 2, 2, 8, 8, 4, 8, 1]

-- The bytes of the struct that broadcast fills and the publisher stamps. The
-- tracking number is always zero.
def ItchMessage.bytes (msg : ItchMessage) (timestamp : Nat) : Bytes :=
  pack littleEndianBytes itchWidths
    [msg.msgType.toNat, msg.stockLocate, 0, timestamp, msg.internalId, msg.shares, msg.price, msg.side.toNat]

structure ItchMessage.Fits (msg : ItchMessage) : Prop where
  msgType : msg.msgType < 128
  stockLocate : msg.stockLocate < 2 ^ 16
  internalId : msg.internalId < 2 ^ 64
  shares : msg.shares < 2 ^ 32
  price : msg.price < 2 ^ 64
  side : msg.side < 128

structure ItchRecord where
  msgType : Byte
  stockLocate : Nat
  trackingNumber : Nat
  timestamp : Nat
  internalId : Nat
  shares : Nat
  price : Nat
  side : Byte
deriving DecidableEq, Repr

def ItchRecord.message (record : ItchRecord) : ItchMessage :=
  ⟨record.msgType, record.stockLocate, record.internalId, record.shares, record.price, record.side⟩

-- One byte is a text only if it is in the range of ASCII. The unpacking needs
-- the whole record inside the buffer.
def decodeItch (buf : Bytes) (off : Nat) : Option ItchRecord :=
  if off + itchSize ≤ buf.length then
    match unpack littleEndian itchWidths (buf.drop off) with
    | [msgType, sl, tn, ts, iid, sh, px, side] =>
        if msgType < 128 ∧ side < 128 then some ⟨UInt8.ofNat msgType, sl, tn, ts, iid, sh, px,
          UInt8.ofNat side⟩ else none
    | _ => none
  else none

def rangeBy (stop step : Nat) : List Nat := (List.range ((stop + step - 1) / step)).map (· * step)

-- What a generator has yielded, and whether an exception has ended it.
structure Yielded (α : Type) where
  values : List α
  raised : Bool
deriving DecidableEq, Repr

def Yielded.collect {α : Type} : List (Option α) → Yielded α
  | [] => ⟨[], false⟩
  | none :: _ => ⟨[], true⟩
  | some value :: rest => ⟨value :: (collect rest).values, (collect rest).raised⟩

def iterItch (buf : Bytes) : Yielded ItchRecord :=
  .collect ((rangeBy (buf.length + 1 - itchSize) itchSize).map (decodeItch buf))

section
variable {α β : Type}

theorem collect_some (f : α → β) (items : List α) :
    Yielded.collect (items.map fun item => some (f item)) = ⟨items.map f, false⟩ := by
  induction items with
  | nil => rfl
  | cons item rest ih => rw [List.map_cons, Yielded.collect, ih, List.map_cons]

theorem collect_guarded (good : α → Bool) (f : α → β) (items : List α) :
    Yielded.collect (items.map fun item => if good item then some (f item) else none) =
      ⟨(items.takeWhile good).map f, items.any fun item => !good item⟩ := by
  induction items with
  | nil => rfl
  | cons item rest ih =>
      by_cases readable : good item
      · simp [Yielded.collect, ih, readable]
      · simp [Yielded.collect, readable]

end

theorem itch_bytes_length (msg : ItchMessage) (timestamp : Nat) : (msg.bytes timestamp).length = itchSize :=
  pack_length little_endian_codec itchWidths _ rfl

theorem itch_offsets (buf : Bytes) :
    rangeBy (buf.length + 1 - itchSize) itchSize =
    (List.range (buf.length / itchSize)).map (· * itchSize) := by
  have count : (buf.length + 1 - itchSize + itchSize - 1) / itchSize = buf.length / itchSize := by
    rw [itchSize]
    omega
  rw [rangeBy, count]

theorem decode_itch_record (buf : Bytes) (off : Nat) (inside : off + itchSize ≤ buf.length) :
    decodeItch buf off = decodeItch ((buf.drop off).take itchSize) 0 := by
  have length : ((buf.drop off).take itchSize).length = itchSize := by
    rw [List.length_take, List.length_drop]
    omega
  rw [decodeItch, if_pos inside, decodeItch, if_pos (by rw [length, Nat.zero_add]), List.drop_zero,
    ← unpack_take itchWidths (buf.drop off)]
  rfl

theorem iter_itch_records (buf : Bytes) :
    iterItch buf = .collect ((records itchSize buf).map fun raw => decodeItch raw 0) := by
  rw [iterItch, itch_offsets, records, List.map_map, List.map_map]
  refine congrArg Yielded.collect (List.map_congr_left fun i inside => ?_)
  have whole : (i + 1) * itchSize ≤ buf.length :=
    Nat.le_trans (Nat.mul_le_mul_right _ (List.mem_range.mp inside)) (Nat.div_mul_le_self _ _)
  rw [Nat.succ_mul] at whole
  exact decode_itch_record buf (i * itchSize) whole

def ItchMessage.record (msg : ItchMessage) (timestamp : Nat) : ItchRecord :=
  ⟨msg.msgType, msg.stockLocate, 0, timestamp, msg.internalId, msg.shares, msg.price, msg.side⟩

theorem decode_itch_bytes (msg : ItchMessage) (timestamp : Nat) (fits : msg.Fits)
    (stamp : timestamp < 2 ^ 64) :
    decodeItch (msg.bytes timestamp) 0 = some (msg.record timestamp) := by
  have values : unpack littleEndian itchWidths (msg.bytes timestamp ++ []) =
      [msg.msgType.toNat, msg.stockLocate, 0, timestamp, msg.internalId, msg.shares, msg.price,
        msg.side.toNat] := by
    have letter := UInt8.toNat_lt msg.msgType
    have side := UInt8.toNat_lt msg.side
    have zero : FitsWidth 2 0 := Nat.two_pow_pos 16
    exact unpack_packed little_endian_codec itchWidths _
      (.cons letter (.cons fits.stockLocate (.cons zero (.cons stamp
      (.cons fits.internalId (.cons fits.shares (.cons fits.price (.cons side .nil)))))))) []
  rw [List.append_nil] at values
  have printable : msg.msgType.toNat < 128 ∧ msg.side.toNat < 128 :=
    ⟨UInt8.lt_iff_toNat_lt.mp fits.msgType, UInt8.lt_iff_toNat_lt.mp fits.side⟩
  rw [decodeItch, if_pos (by rw [itch_bytes_length]; decide), List.drop_zero, values]
  simp [ItchMessage.record, printable]

theorem iter_itch_messages (messages : List (ItchMessage × Nat)) (fragment : Bytes)
    (short : fragment.length < itchSize)
    (fits : ∀ m ∈ messages, m.1.Fits ∧ m.2 < 2 ^ 64) :
    iterItch ((messages.flatMap fun m => m.1.bytes m.2) ++ fragment) =
      ⟨messages.map fun m => m.1.record m.2, false⟩ := by
  have split_ := records_flatMap itchSize (fun m => m.1.bytes m.2) messages fragment (by decide)
    (fun m _ => itch_bytes_length m.1 m.2) short
  rw [iter_itch_records, split_, List.map_map, ← collect_some]
  exact congrArg Yielded.collect (List.map_congr_left fun m inside =>
    decode_itch_bytes m.1 m.2 (fits m inside).1 (fits m inside).2)

end HftExchange
