import HftExchange.Protocol.Messages

set_option autoImplicit false

namespace HftExchange

theorem encode_digits_length (width value : Nat) : (encodeDigits width value).length = width := by
  induction width generalizing value with
  | zero => rfl
  | succ width ih => simp [encodeDigits, ih]

theorem digit_byte (d : Nat) (small : d < 10) : (ascii '0' + UInt8.ofNat d).toNat = 48 + d := by
  have zero : (ascii '0').toNat = 48 := by decide
  rw [UInt8.toNat_add, zero, UInt8.toNat_ofNat_of_lt' (by simp [UInt8.size]; omega)]
  omega

theorem is_digit_iff (c : Byte) : isDigit c = true ↔ 48 ≤ c.toNat ∧ c.toNat ≤ 57 := by
  have low : (ascii '0').toNat = 48 := by decide
  have high : (ascii '9').toNat = 57 := by decide
  simp only [isDigit, Bool.and_eq_true, decide_eq_true_eq, UInt8.le_iff_toNat_le, low, high]

theorem digit_value (c : Byte) (digit : isDigit c = true) : (c - ascii '0').toNat = c.toNat - 48 := by
  have bounds := (is_digit_iff c).mp digit
  have zero : (ascii '0').toNat = 48 := by decide
  rw [UInt8.toNat_sub_of_le _ _ (UInt8.le_iff_toNat_le.mpr (by rw [zero]; exact bounds.1)), zero]

theorem encode_digits_digit (width value : Nat) : ∀ c ∈ encodeDigits width value, isDigit c = true := by
  induction width generalizing value with
  | zero => simp [encodeDigits]
  | succ width ih =>
      intro c member
      rw [encodeDigits, List.mem_append, List.mem_singleton] at member
      rcases member with before | rfl
      · exact ih (value / 10) c before
      · rw [is_digit_iff, digit_byte _ (Nat.mod_lt _ (by decide))]
        have small := Nat.mod_lt value (show 10 > 0 by decide)
        omega

def digitsValue (digits : Bytes) : Nat := digits.foldl (fun value c => value * 10 + (c.toNat - 48)) 0

theorem encode_digits_value (width value : Nat) :
    digitsValue (encodeDigits width value) = value % 10 ^ width := by
  induction width generalizing value with
  | zero => simp [encodeDigits, digitsValue, Nat.mod_one]
  | succ width ih =>
      have before := ih (value / 10)
      rw [digitsValue] at before
      rw [digitsValue, encodeDigits, List.foldl_append, before, List.foldl_cons, List.foldl_nil,
        digit_byte _ (Nat.mod_lt _ (by decide)), Nat.pow_succ, Nat.mul_comm (10 ^ width) 10, Nat.mod_mul]
      omega

theorem decode_loop_digits (digits : Bytes) (all : ∀ c ∈ digits, isDigit c = true) (value : Nat)
    (fits : digits.foldl (fun value c => value * 10 + (c.toNat - 48)) value < 2 ^ 64) :
    decodeOrderTokenLoop value digits = digits.foldl (fun value c => value * 10 + (c.toNat - 48)) value := by
  have grows : ∀ (rest : Bytes) (value : Nat), value ≤ rest.foldl
      (fun value c => value * 10 + (c.toNat - 48)) value := by
    intro rest
    induction rest with
    | nil => exact fun value => Nat.le_refl value
    | cons c rest ih =>
        intro value
        exact Nat.le_trans (by omega) (ih (value * 10 + (c.toNat - 48)))
  induction digits generalizing value with
  | nil => rfl
  | cons c rest ih =>
      have digit := all c List.mem_cons_self
      have minus := digit_value c digit
      rw [List.foldl_cons] at fits ⊢
      have small := Nat.lt_of_le_of_lt (grows rest _) fits
      rw [decodeOrderTokenLoop, if_pos digit, minus, Nat.mod_eq_of_lt small]
      exact ih (fun d member => all d (List.mem_cons_of_mem _ member)) _ fits

theorem decode_loop_invalid (bytes : Bytes) (value : Nat) (bad : ∃ c ∈ bytes, isDigit c = false) :
    decodeOrderTokenLoop value bytes = invalidOrderToken := by
  induction bytes generalizing value with
  | nil => simp at bad
  | cons c rest ih =>
      rw [decodeOrderTokenLoop]
      by_cases digit : isDigit c = true
      · rw [if_pos digit]
        obtain ⟨d, inside, other⟩ := bad
        rcases List.mem_cons.mp inside with rfl | later
        · rw [digit] at other
          cases other
        · exact ih _ ⟨d, later, other⟩
      · rw [if_neg digit]

theorem digits_fold_bound (digits : Bytes) (all : ∀ c ∈ digits, isDigit c = true) (value : Nat) :
    digits.foldl (fun value c => value * 10 + (c.toNat - 48)) value < (value + 1) * 10 ^ digits.length := by
  induction digits generalizing value with
  | nil => simp
  | cons c rest ih =>
      have bounds := (is_digit_iff c).mp (all c List.mem_cons_self)
      have later := ih (fun d inside => all d (List.mem_cons_of_mem _ inside)) (value * 10 + (c.toNat - 48))
      have step : value * 10 + (c.toNat - 48) + 1 ≤ (value + 1) * 10 := by omega
      calc
        (c :: rest).foldl (fun value c => value * 10 + (c.toNat - 48)) value <
          (value * 10 + (c.toNat - 48) + 1) * 10 ^ rest.length := later
        _ ≤ (value + 1) * 10 * 10 ^ rest.length := Nat.mul_le_mul_right _ step
        _ = (value + 1) * 10 ^ (c :: rest).length :=
          by rw [List.length_cons, Nat.pow_succ, Nat.mul_assoc, Nat.mul_comm 10]

theorem decode_encode_token (value : Nat) (small : value < 10 ^ 14) :
    decodeOrderToken (encodeOrderToken value) = value := by
  have length : (encodeOrderToken value).length = 14 := encode_digits_length 14 value
  have digits : digitsValue (encodeOrderToken value) = value := by
    rw [encodeOrderToken, encode_digits_value, Nat.mod_eq_of_lt small]
  rw [decodeOrderToken, List.take_of_length_le (by omega),
    decode_loop_digits (encodeOrderToken value) (encode_digits_digit 14 value) 0
      (by rw [← digitsValue, digits]; exact Nat.lt_trans small (by decide))]
  exact digits

theorem little_endian_bytes_length (width value : Nat) : (littleEndianBytes width value).length = width := by
  induction width generalizing value with
  | zero => rfl
  | succ width ih => simp [littleEndianBytes, ih]

theorem little_endian_round_trip (width value : Nat) :
    littleEndian (littleEndianBytes width value) = value % 256 ^ width := by
  induction width generalizing value with
  | zero => simp [littleEndianBytes, littleEndian, Nat.mod_one]
  | succ width ih =>
      rw [littleEndianBytes, littleEndian, ih,
        UInt8.toNat_ofNat_of_lt' (by simp [UInt8.size]; omega), Nat.pow_succ,
        Nat.mul_comm (256 ^ width) 256, Nat.mod_mul]

end HftExchange
