import HftExchange.Protocol.Digits

set_option autoImplicit false

namespace HftExchange

theorem digits_value_append (digits : Bytes) (c : Byte) :
    digitsValue (digits ++ [c]) = digitsValue digits * 10 + (c.toNat - 48) := by
  rw [digitsValue, List.foldl_append]
  rfl

theorem digits_value_bound (digits : Bytes) (all : ∀ c ∈ digits, isDigit c = true) :
    digitsValue digits < 10 ^ digits.length := by
  simpa [digitsValue] using digits_fold_bound digits all 0

theorem encode_digits_of_value (digits : Bytes) (all : ∀ c ∈ digits, isDigit c = true) :
    encodeDigits digits.length (digitsValue digits) = digits := by
  induction digits using List.reverseRecOn with
  | nil => rfl
  | append_singleton digits c ih =>
      have before := ih fun d member => all d (List.mem_append_left _ member)
      have bounds := (is_digit_iff c).mp (all c (by simp))
      have quotient : digitsValue (digits ++ [c]) / 10 = digitsValue digits := by
        rw [digits_value_append]
        omega
      have remainder : digitsValue (digits ++ [c]) % 10 = c.toNat - 48 := by
        rw [digits_value_append]
        omega
      have byte : ascii '0' + UInt8.ofNat (c.toNat - 48) = c := by
        rw [← UInt8.toNat_inj, digit_byte _ (by omega)]
        omega
      rw [List.length_append, List.length_singleton, encodeDigits, quotient, remainder, before, byte]

theorem decode_loop_value (digits : Bytes) (all : ∀ c ∈ digits, isDigit c = true)
    (short : digits.length ≤ 14) :
    decodeOrderTokenLoop 0 digits = digitsValue digits := by
  have bound := digits_value_bound digits all
  have power : 10 ^ digits.length ≤ 10 ^ 14 := Nat.pow_le_pow_right (by decide) short
  exact decode_loop_digits digits all 0 (Nat.lt_of_lt_of_le bound (Nat.le_trans power (by decide)))

theorem token_codec (token : Bytes) (length : token.length = 14) (value : Nat) :
    decodeOrderToken token = value ∧ value ≠ invalidOrderToken ↔ value < 10 ^ 14 ∧
    encodeOrderToken value = token := by
  have whole : token.take 14 = token := List.take_of_length_le length.le
  constructor
  · rintro ⟨rfl, valid⟩
    rw [decodeOrderToken, whole] at valid ⊢
    have all : ∀ c ∈ token, isDigit c = true := by
      by_contra some_
      exact valid (decode_loop_invalid token 0 (by simpa using some_))
    rw [decode_loop_value token all length.le]
    refine ⟨length ▸ digits_value_bound token all, ?_⟩
    rw [encodeOrderToken, ← length]
    exact encode_digits_of_value token all
  · rintro ⟨small, rfl⟩
    refine ⟨decode_encode_token value small, fun same => ?_⟩
    rw [same] at small
    exact absurd small (by decide)

-- After any number of digits the decoder has their value, and the next digit
-- fits into the word.
theorem token_unwrapped (value k : Nat) :
    decodeOrderTokenLoop 0 ((encodeOrderToken value).take k) =
    digitsValue ((encodeOrderToken value).take k) ∧
    digitsValue ((encodeOrderToken value).take k) * 10 + 9 < 2 ^ 64 := by
  have all : ∀ c ∈ (encodeOrderToken value).take k, isDigit c = true := fun c member =>
    encode_digits_digit 14 value c (List.mem_of_mem_take member)
  have short : ((encodeOrderToken value).take k).length ≤ 14 :=
    Nat.le_trans (List.length_take_le' ..) (encode_digits_length 14 value).le
  have bound := digits_value_bound _ all
  have power : 10 ^ ((encodeOrderToken value).take k).length ≤ 10 ^ 14 :=
    Nat.pow_le_pow_right (by decide) short
  refine ⟨decode_loop_value _ all short, ?_⟩
  omega

theorem symbol_loop_digits (digits : Bytes) (all : ∀ c ∈ digits, isDigit c = true) (id : Nat)
    (fits : (id + 1) * 10 ^ digits.length ≤ 2 ^ 32) :
    decodeSymbolLoop id digits =
      if maxInstruments ≤ digits.foldl (fun value c => value * 10 + (c.toNat - 48)) id then invalidInstrument
      else digits.foldl (fun value c => value * 10 + (c.toNat - 48)) id := by
  induction digits generalizing id with
  | nil => rfl
  | cons c rest ih =>
      have digit := all c List.mem_cons_self
      have bounds := (is_digit_iff c).mp digit
      have minus := digit_value c digit
      rw [List.length_cons, Nat.pow_succ] at fits
      have one : 1 ≤ 10 ^ rest.length := Nat.one_le_pow _ _ (by decide)
      have room : (id * 10 + (c.toNat - 48) + 1) * 10 ^ rest.length ≤ 2 ^ 32 :=
        calc
          (id * 10 + (c.toNat - 48) + 1) * 10 ^ rest.length ≤ (id + 1) * 10 * 10 ^ rest.length :=
            Nat.mul_le_mul_right _ (by omega)
          _ = (id + 1) * (10 ^ rest.length * 10) := by rw [Nat.mul_assoc, Nat.mul_comm 10]
          _ ≤ 2 ^ 32 := fits
      have small : id * 10 + (c.toNat - 48) < 2 ^ 32 := by
        have := Nat.mul_le_mul_left (id * 10 + (c.toNat - 48) + 1) one
        omega
      rw [decodeSymbolLoop, if_pos digit, minus, Nat.mod_eq_of_lt small, List.foldl_cons]
      exact ih (fun d member => all d (List.mem_cons_of_mem _ member)) _ room

theorem symbol_loop_invalid (bytes : Bytes) (id : Nat) (bad : ∃ c ∈ bytes, isDigit c = false) :
    decodeSymbolLoop id bytes = invalidInstrument := by
  induction bytes generalizing id with
  | nil => simp at bad
  | cons c rest ih =>
      rw [decodeSymbolLoop]
      by_cases digit : isDigit c = true
      · rw [if_pos digit]
        obtain ⟨d, inside, other⟩ := bad
        rcases List.mem_cons.mp inside with rfl | later
        · rw [digit] at other
          cases other
        · exact ih _ ⟨d, later, other⟩
      · rw [if_neg digit]

theorem symbol_digits (digits : Bytes) (length : digits.length = 5) (all : ∀ c ∈ digits, isDigit c = true) :
    decodeSymbolLoop 0 digits = if maxInstruments ≤ digitsValue digits then invalidInstrument
      else digitsValue digits :=
  symbol_loop_digits digits all 0 (by rw [length]; decide)

theorem symbol_codec (stock : Bytes) (length : stock.length = 8) (inst : Nat) :
    decodeSymbol stock = inst ∧ inst ≠ invalidInstrument ↔ inst < maxInstruments ∧
    encodeSymbol inst = stock := by
  constructor
  · rintro ⟨rfl, valid⟩
    match stock, length with
    | s :: t :: k :: digits, length =>
      have five : digits.length = 5 := by simpa using length
      rw [decodeSymbol, List.take_of_length_le five.le] at valid ⊢
      split at valid
      · rename_i letters
        obtain ⟨rfl, rfl, rfl⟩ := letters
        have all : ∀ c ∈ digits, isDigit c = true := by
          by_contra some_
          exact valid (symbol_loop_invalid digits 0 (by simpa using some_))
        rw [symbol_digits digits five all] at valid ⊢
        split at valid
        · exact absurd rfl valid
        · rename_i known
          rw [if_pos ⟨rfl, rfl, rfl⟩, if_neg known]
          refine ⟨Nat.lt_of_not_le known, ?_⟩
          rw [encodeSymbol, ← five, encode_digits_of_value digits all]
          rfl
      · exact absurd rfl valid
  · rintro ⟨known, rfl⟩
    have small : inst < 10 ^ 5 := Nat.lt_trans known (by decide)
    have value : digitsValue (encodeDigits 5 inst) = inst :=
      by rw [encode_digits_value, Nat.mod_eq_of_lt small]
    have five := encode_digits_length 5 inst
    refine ⟨?_, fun same => absurd (same ▸ known) (by decide)⟩
    rw [encodeSymbol, List.cons_append, List.cons_append, List.cons_append, List.nil_append,
      decodeSymbol, if_pos ⟨rfl, rfl, rfl⟩,
      List.take_of_length_le five.le, symbol_digits _ five (encode_digits_digit 5 inst), value,
        if_neg (Nat.not_le.mpr known)]

end HftExchange
