import HftExchange.Firm.AckReceiver

set_option autoImplicit false

namespace HftExchange

section
variable (r : AckReport)

theorem report_token_byte (j : Nat) (low : 1 ≤ j) (high : j ≤ 14) :
    ∃ c, r.bytes[j]? = some c ∧ isDigit c = true := by
  have length : (encodeOrderToken r.token).length = 14 := encode_digits_length 14 r.token
  have bound : j - 1 < (encodeOrderToken r.token).length := by omega
  refine ⟨(encodeOrderToken r.token)[j - 1], ?_, encode_digits_digit 14 r.token _ (List.getElem_mem bound)⟩
  obtain ⟨i, rfl⟩ := Nat.exists_eq_add_of_le' low
  rw [report_bytes_eq, List.getElem?_cons_succ, List.getElem?_append_left (by omega),
    List.getElem?_eq_getElem (by omega)]
  rfl

-- Inside a report the type byte can only turn up in the shares or the price.
theorem report_inner_type (j : Nat) (low : 0 < j) (high : j < reportSize)
    (same : r.bytes[j]? = some (ascii 'E')) : 15 ≤ j ∧ j ≤ 22 := by
  have length : (encodeOrderToken r.token).length = 14 := encode_digits_length 14 r.token
  have four := little_endian_bytes_length 4
  constructor
  · by_contra small
    obtain ⟨c, found, digit⟩ := report_token_byte r j low (by omega)
    rw [same] at found
    cases found
    exact absurd digit (by decide)
  · by_contra large
    unfold reportSize at high
    obtain ⟨i, rfl⟩ := Nat.exists_eq_add_of_le (show 23 ≤ j by omega)
    rw [report_bytes_eq, show 23 + i = (14 + (4 + (4 + i))) + 1 by omega, List.getElem?_cons_succ,
      List.getElem?_append_right (by omega), List.getElem?_append_right (by rw [four]; omega),
      List.getElem?_append_right (by rw [four, four]; omega), length, four, four] at same
    simp only [Nat.add_sub_cancel_left] at same
    cases i with
    | zero =>
        simp only [List.getElem?_cons_zero, Option.some.injEq] at same
        rcases r.flagOk with flag | flag <;> rw [flag] at same <;> exact absurd same (by decide)
    | succ i =>
        rw [List.getElem?_cons_succ, List.getElem?_replicate] at same
        split at same
        · exact absurd same (by decide)
        · cases same

end

-- No report of the exchange has this many shares, but a fill that is read off
-- the boundary of two reports always has.
def strayShares : Nat := 48 * 2 ^ 24

theorem little_endian_top (first second third top : Byte) :
    2 ^ 24 * top.toNat ≤ littleEndian [first, second, third, top] := by
  simp only [littleEndian]
  omega

theorem window_shares (r next : AckReport) (j : Nat) (low : 0 < j) (high : j < reportSize)
    (type : (r.bytes.drop j ++ next.bytes.take j).head? = some (ascii 'E')) :
    strayShares ≤ littleEndian (((r.bytes.drop j ++ next.bytes.take j).drop 15).take 4) := by
  have lengthR := report_length r
  have lengthN := report_length next
  unfold reportSize at high lengthR lengthN
  have inner : r.bytes[j]? = some (ascii 'E') := by
    rw [← List.head?_drop]
    rw [List.head?_append_of_ne_nil] at type
    · exact type
    · exact List.ne_nil_of_length_pos (by rw [List.length_drop]; omega)
  obtain ⟨from15, to22⟩ := report_inner_type r j low (by unfold reportSize; exact high) inner
  obtain ⟨digit, found, isDigit⟩ := report_token_byte next (j - 14) (by omega) (by omega)
  have window : (r.bytes.drop j ++ next.bytes.take j).length = 32 := by
    rw [List.length_append, List.length_drop, List.length_take]
    omega
  have top : (r.bytes.drop j ++ next.bytes.take j)[18]? = some digit := by
    rw [List.getElem?_append_right (by rw [List.length_drop]; omega), List.length_drop,
      List.getElem?_take_of_lt (by omega), ← found]
    congr 1
    omega
  generalize r.bytes.drop j ++ next.bytes.take j = bytes at window top
  have four : (bytes.drop 15).take 4 = [bytes[15], bytes[16], bytes[17], bytes[18]] := by
    refine List.ext_getElem (by simp; omega) fun i low high => ?_
    simp only [List.length_cons, List.length_nil] at high
    rw [List.getElem_take, List.getElem_drop]
    match i, high with
    | 0, _ => rfl
    | 1, _ => rfl
    | 2, _ => rfl
    | 3, _ => rfl
  rw [four]
  have same : bytes[18] = digit := by
    rw [List.getElem?_eq_getElem (by omega)] at top
    exact Option.some.inj top
  have large := little_endian_top bytes[15] bytes[16] bytes[17] bytes[18]
  have bounds := (is_digit_iff digit).mp isDigit
  rw [same] at large ⊢
  unfold strayShares
  omega

theorem on_message_shifted (tokenBase j : Nat) (low : 0 < j) (high : j < reportSize) (r : AckReport)
    (reports : List AckReport)
    (chunk : Bytes) (within : chunk <+: r.bytes.drop j ++ reports.flatMap AckReport.bytes) :
    ∀ fill ∈ (onMessage tokenBase chunk).fills, strayShares ≤ fill.shares := by
  induction reports generalizing r chunk with
  | nil =>
      have short : chunk.length < reportSize := by
        have length := within.length_le
        rw [List.flatMap_nil, List.append_nil, List.length_drop, report_length] at length
        omega
      rw [on_message_short tokenBase chunk short]
      simp
  | cons next reports ih =>
      by_cases short : chunk.length < reportSize
      · rw [on_message_short tokenBase chunk short]
        simp
      · have windowLength : (r.bytes.drop j ++ next.bytes.take j).length = reportSize := by
          rw [List.length_append, List.length_drop, List.length_take, report_length, report_length]
          omega
        have split : r.bytes.drop j ++ (next :: reports).flatMap AckReport.bytes =
            (r.bytes.drop j ++ next.bytes.take j) ++
              (next.bytes.drop j ++ reports.flatMap AckReport.bytes) := by
          rw [List.flatMap_cons, List.append_assoc, ← List.append_assoc (next.bytes.take j),
            List.take_append_drop]
        rw [split] at within
        have first : r.bytes.drop j ++ next.bytes.take j <+: chunk :=
          List.prefix_of_prefix_length_le (List.prefix_append _ _) within (by rw [windowLength]; omega)
        obtain ⟨rest, rfl⟩ := first
        have later := ih next rest ((List.prefix_append_right_inj _).mp within)
        rw [onMessage]
        split
        · rename_i type
          have head : (r.bytes.drop j ++ next.bytes.take j).head? = some (ascii 'E') := by
            rwa [List.head?_append_of_ne_nil _
              (List.ne_nil_of_length_pos (by rw [windowLength]; decide))] at type
          have stray := window_shares r next j low high head
          rw [dif_pos (Nat.le_of_not_lt short)]
          split
          · simp
          · intro fill member
            simp only [Received.after, List.mem_append] at member
            rcases member with here | there
            · split at here
              · rw [List.mem_singleton.mp here]
                have same : (((r.bytes.drop j ++ next.bytes.take j) ++ rest).drop 15).take 4 =
                    ((r.bytes.drop j ++ next.bytes.take j).drop 15).take 4 := by
                  rw [List.drop_append_of_le_length (by rw [windowLength]; decide),
                    List.take_append_of_le_length (by rw [List.length_drop, windowLength]; decide)]
                simp only [same]
                exact stray
              · cases here
            · rw [List.drop_left' windowLength] at there
              exact later fill there
        · simp

end HftExchange
