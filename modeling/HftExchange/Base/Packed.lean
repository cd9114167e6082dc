import Mathlib

set_option autoImplicit false

namespace Base

-- Packed records: values of fixed widths laid out one after another, without
-- padding between them.
section
variable {α β : Type} (write : Nat → β → List α) (read : List α → β)

def pack : List Nat → List β → List α
  | width :: widths, value :: values => write width value ++ pack widths values
  | _, _ => []

def unpack : List Nat → List α → List β
  | [], _ => []
  | width :: widths, bytes => read (bytes.take width) :: unpack widths (bytes.drop width)

structure FieldCodec (Fits : Nat → β → Prop) : Prop where
  width : ∀ size value, (write size value).length = size
  read_write : ∀ size value, Fits size value → read (write size value) = value

variable {write read} {Fits : Nat → β → Prop}

theorem pack_length (codec : FieldCodec write read Fits) (widths : List Nat) (values : List β)
    (each : values.length = widths.length) :
    (pack write widths values).length = widths.sum := by
  induction widths generalizing values with
  | nil => cases values <;> rfl
  | cons width widths ih =>
      cases values with
      | nil => cases each
      | cons value values =>
          rw [pack, List.length_append, codec.width, ih values (Nat.succ.inj each), List.sum_cons]

theorem unpack_packed (codec : FieldCodec write read Fits) (widths : List Nat) (values : List β)
    (fits : List.Forall₂ Fits widths values)
    (rest : List α) : unpack read widths (pack write widths values ++ rest) = values := by
  induction fits with
  | nil => rfl
  | @cons width value widths values small _ ih =>
      have length := codec.width width value
      rw [pack, unpack, List.append_assoc, List.take_left' length, List.drop_left' length, ih,
        codec.read_write width value small]

theorem unpack_take (widths : List Nat) (bytes : List α) :
    unpack read widths (bytes.take widths.sum) = unpack read widths bytes := by
  induction widths generalizing bytes with
  | nil => rfl
  | cons width widths ih =>
      rw [unpack, unpack, List.sum_cons, List.take_take, Nat.min_eq_left (Nat.le_add_right _ _),
        List.drop_take, Nat.add_sub_cancel_left, ih]

theorem unpack_field (read : List α → β) (widths : List Nat) (bytes : List α) (index : Nat)
    (inside : index < widths.length) :
    (unpack read widths bytes)[index]? = some
    (read ((bytes.drop (widths.take index).sum).take widths[index])) := by
  induction widths generalizing bytes index with
  | nil => cases inside
  | cons width widths ih =>
      cases index with
      | zero => rfl
      | succ index =>
          rw [unpack, List.getElem?_cons_succ,
            ih (bytes.drop width) index (Nat.lt_of_succ_lt_succ inside), List.drop_drop,
            List.take_succ_cons, List.sum_cons, List.getElem_cons_succ]

end

theorem flatten_member {α : Type} (members : List (List α)) (index : Nat) (inside : index < members.length) :
    (members.flatten.drop (members.take index).flatten.length).take members[index].length =
      members[index] := by
  induction members generalizing index with
  | nil => cases inside
  | cons member members ih =>
      cases index with
      | zero => exact List.take_left
      | succ index =>
          rw [List.flatten_cons, List.take_succ_cons, List.flatten_cons, List.length_append,
            List.drop_append, Nat.add_sub_cancel_left,
            List.drop_eq_nil_of_le (Nat.le_add_right _ _), List.nil_append, List.getElem_cons_succ]
          exact ih index (Nat.lt_of_succ_lt_succ inside)

section
variable {α β : Type}

def records (size : Nat) (bytes : List α) : List (List α) :=
  (List.range (bytes.length / size)).map fun i => (bytes.drop (i * size)).take size

theorem records_short (size : Nat) (bytes : List α) (short : bytes.length < size) :
    records size bytes = [] := by
  rw [records, Nat.div_eq_of_lt short]
  rfl

theorem records_cons (size : Nat) (record bytes : List α) (positive : 0 < size)
    (length : record.length = size) :
    records size (record ++ bytes) = record :: records size bytes := by
  have count : (record ++ bytes).length / size = bytes.length / size + 1 := by
    rw [List.length_append, length, Nat.add_div_left _ positive]
  rw [records, count, List.range_succ_eq_map, List.map_cons, List.map_map, records]
  congr 1
  · rw [Nat.zero_mul, List.drop_zero, List.take_left' length]
  · refine List.map_congr_left fun i _ => ?_
    have later : (i + 1) * size = record.length + i * size := by rw [length, Nat.succ_mul, Nat.add_comm]
    rw [Function.comp, Nat.succ_eq_add_one, later, List.drop_append, Nat.add_sub_cancel_left,
      List.drop_eq_nil_of_le (Nat.le_add_right _ _), List.nil_append]

theorem records_flatMap (size : Nat) (encode : β → List α) (items : List β) (fragment : List α)
    (positive : 0 < size)
    (width : ∀ item ∈ items, (encode item).length = size) (short : fragment.length < size) :
    records size (items.flatMap encode ++ fragment) = items.map encode := by
  induction items with
  | nil => exact records_short size fragment short
  | cons item items ih =>
      rw [List.flatMap_cons, List.append_assoc,
        records_cons size (encode item) _ positive (width item List.mem_cons_self),
        ih fun later member => width later (List.mem_cons_of_mem _ member), List.map_cons]

theorem records_length (size : Nat) (bytes record : List α) (member : record ∈ records size bytes) :
    record.length = size := by
  obtain ⟨i, inside, rfl⟩ := List.mem_map.mp member
  have whole : (i + 1) * size ≤ bytes.length :=
    Nat.le_trans (Nat.mul_le_mul_right _ (List.mem_range.mp inside)) (Nat.div_mul_le_self _ _)
  rw [Nat.succ_mul] at whole
  rw [List.length_take, List.length_drop]
  omega

end

end Base
