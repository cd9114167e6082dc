import HftExchange.Book.Reference
import HftExchange.Gateway.Admission
import HftExchange.Protocol.Digits

set_option autoImplicit false

namespace HftExchange

-- A report as send_ack fills it in for an order that the gateway admitted.
structure AckReport where
  token : Nat
  shares : Nat
  price : Nat
  flag : Char
  tokenOk : token < maxClientOrders
  sharesOk : 1 ≤ shares ∧ shares ≤ riskEngine.maxOrderQty
  priceOk : price < maxPrice
  flagOk : flag = 'A' ∨ flag = 'R'

def AckReport.report (r : AckReport) : OuchExecutionReport :=
  ⟨ascii 'E', encodeOrderToken r.token, r.shares, r.price, ascii r.flag, List.replicate 8 0⟩

def AckReport.bytes (r : AckReport) : Bytes := r.report.bytes

def reportSize : Nat := 32

def isSpace (c : Byte) : Bool := c.toNat = 32 || (9 ≤ c.toNat && c.toNat ≤ 13)

-- std::stoull of a character array: the text up to the first NUL, leading white
-- space and one sign skipped. It throws when no digit is there, or when the
-- value does not fit; a minus sign negates the unsigned value.
def stoull (chars : Bytes) : Option Nat :=
  let text := (chars.takeWhile (· ≠ 0)).dropWhile isSpace
  let negative := text.head? = some (ascii '-')
  let digits := (if negative ∨ text.head? = some (ascii '+') then text.drop 1 else text).takeWhile isDigit
  let value := digitsValue digits
  if digits = [] ∨ 2 ^ 64 ≤ value then none else some (if negative then (2 ^ 64 - value) % 2 ^ 64 else value)

-- The arguments of one call of exec_callback.
structure Fill where
  orderId : Nat
  shares : Nat
  price : Nat
deriving DecidableEq, Repr

structure Received where
  fills : List Fill
  raised : Bool
deriving DecidableEq, Repr

def Received.after (first : List Fill) (rest : Received) : Received := ⟨first ++ rest.fills, rest.raised⟩

-- The handler that tcp_rx_thread gives to poll. buf is what is left of the
-- chunk at offset.
def onMessage (tokenBase : Nat) (buf : Bytes) : Received :=
  if buf.head? = some (ascii 'E') then
    if _whole : reportSize ≤ buf.length then
      match stoull ((buf.drop 1).take 14) with
      | none => ⟨[], true⟩
      | some tokenVal =>
          let call := if tokenBase ≤ tokenVal then
            [⟨tokenVal - tokenBase, littleEndian ((buf.drop 15).take 4),
              littleEndian ((buf.drop 19).take 4)⟩] else []
          .after call (onMessage tokenBase (buf.drop reportSize))
    else ⟨[], false⟩
  else ⟨[], false⟩
termination_by buf.length
decreasing_by
  rw [List.length_drop]
  unfold reportSize at *
  omega

-- drain_socket hands over every chunk that recv() returns.
def drainSocket (tokenBase : Nat) : List Bytes → Received
  | [] => ⟨[], false⟩
  | chunk :: rest =>
      let first := onMessage tokenBase chunk
      if first.raised then first else .after first.fills (drainSocket tokenBase rest)

def fillOf (tokenBase : Nat) (r : AckReport) : Option Fill :=
  if tokenBase ≤ r.token then some ⟨r.token - tokenBase, r.shares, r.price⟩ else none

def expected (tokenBase : Nat) (reports : List AckReport) : List Fill := reports.filterMap (fillOf tokenBase)

theorem ack_of_report (o : Order) (price qty : Nat) (flag : Char) (token : o.clientOrderId < maxClientOrders)
    (shares : 1 ≤ qty ∧ qty ≤ riskEngine.maxOrderQty) (onLadder : price < maxPrice)
    (flags : flag = 'A' ∨ flag = 'R') :
    ∃ r : AckReport, ackOf o price qty flag = .ack o.workerId ⟨r.report, o.clientId⟩ ∧
    r.token = o.clientOrderId ∧ r.shares = qty ∧
      r.price = price := ⟨⟨o.clientOrderId, qty, price, flag, token, shares, onLadder, flags⟩,
        rfl, rfl, rfl, rfl⟩

theorem stoull_digits (digits : Bytes) (all : ∀ c ∈ digits, isDigit c = true) (nonempty : digits ≠ [])
    (fits : digitsValue digits < 2 ^ 64) : stoull digits = some (digitsValue digits) := by
  have text : digits.takeWhile (· ≠ 0) = digits := by
    refine List.takeWhile_eq_self_iff.mpr fun c member => ?_
    have bounds := (is_digit_iff c).mp (all c member)
    simp only [ne_eq, decide_not, Bool.not_eq_eq_eq_not, Bool.not_true, decide_eq_false_iff_not]
    rintro rfl
    simp at bounds
  obtain ⟨first, rest, rfl⟩ := List.exists_cons_of_ne_nil nonempty
  have bounds := (is_digit_iff first).mp (all first (by simp))
  have space : isSpace first = false := by
    simp only [isSpace, Bool.or_eq_false_iff, decide_eq_false_iff_not, Bool.and_eq_false_iff]
    omega
  have sign : ∀ c : Char, (ascii c).toNat < 48 → ¬ (first :: rest).head? = some (ascii c) := by
    intro c low same
    simp only [List.head?_cons, Option.some.injEq] at same
    rw [same] at bounds
    omega
  have digits : (first :: rest).takeWhile isDigit = first :: rest := List.takeWhile_eq_self_iff.mpr all
  unfold stoull
  simp only [text, List.dropWhile_cons, space, Bool.false_eq_true, if_false, sign '-' (by decide),
    sign '+' (by decide), or_self, digits,
    reduceCtorEq, Nat.not_le.mpr fits]

theorem stoull_token (value : Nat) (small : value < 10 ^ 14) :
    stoull (encodeOrderToken value) = some value := by
  have digits : digitsValue (encodeOrderToken value) = value := by
    rw [encodeOrderToken, encode_digits_value, Nat.mod_eq_of_lt small]
  have parsed := stoull_digits (encodeOrderToken value) (encode_digits_digit 14 value)
    (List.ne_nil_of_length_pos (by rw [encodeOrderToken, encode_digits_length]; decide))
      (by rw [digits]; exact Nat.lt_trans small (by decide))
  rw [parsed, digits]

section
variable (report : OuchExecutionReport) (token : report.orderToken.length = 14)
  (number : report.matchNumber.length = 8)
include token

include number in
theorem execution_report_length : report.bytes.length = reportSize := by
  simp [OuchExecutionReport.bytes, token, number, little_endian_bytes_length, reportSize]

theorem execution_report_fields (rest : Bytes) :
    ((report.bytes ++ rest).drop 1).take 14 = report.orderToken ∧
    ((report.bytes ++ rest).drop 15).take 4 = littleEndianBytes 4 report.executedShares ∧
    ((report.bytes ++ rest).drop 19).take 4 = littleEndianBytes 4 report.executionPrice := by
  have four := little_endian_bytes_length 4
  rw [OuchExecutionReport.bytes]
  simp only [List.cons_append, List.append_assoc, List.drop_succ_cons, List.drop_zero]
  refine ⟨List.take_left' token, ?_, ?_⟩
  · rw [List.drop_left' token, List.take_left' (four _)]
  · rw [show 18 = 14 + 4 from rfl, ← List.drop_drop, List.drop_left' token,
      List.drop_left' (four _), List.take_left' (four _)]

include number in
theorem on_message_execution (tokenBase : Nat) (kind : report.msgType = ascii 'E') (tokenVal : Nat)
    (parsed : stoull report.orderToken = some tokenVal) (rest : Bytes) :
    onMessage tokenBase (report.bytes ++ rest) = .after (if tokenBase ≤ tokenVal
        then [⟨tokenVal - tokenBase, report.executedShares % 2 ^ 32,
          report.executionPrice % 2 ^ 32⟩] else [])
        (onMessage tokenBase rest) := by
  obtain ⟨field, shares, price⟩ := execution_report_fields report token rest
  have length := execution_report_length report token number
  have whole : reportSize ≤ (report.bytes ++ rest).length := by
    rw [List.length_append, length]
    exact Nat.le_add_right _ _
  have left : (report.bytes ++ rest).drop reportSize = rest := List.drop_left' length
  have head : (report.bytes ++ rest).head? = some (ascii 'E') := congrArg some kind
  have four (value : Nat) : littleEndian (littleEndianBytes 4 value) = value % 2 ^ 32 :=
    little_endian_round_trip 4 value
  rw [onMessage, if_pos head, dif_pos whole, field, parsed, shares, price, left, four, four]

end

section
variable (r : AckReport)

theorem report_bytes_eq :
    r.bytes = ascii 'E' :: (encodeOrderToken r.token ++ (littleEndianBytes 4 r.shares ++
    (littleEndianBytes 4 r.price ++ (ascii r.flag :: List.replicate 8 0)))) := by
  simp [AckReport.bytes, AckReport.report, OuchExecutionReport.bytes]

theorem report_length : r.bytes.length = reportSize :=
  execution_report_length r.report (encode_digits_length 14 r.token) List.length_replicate

end

theorem on_message_short (tokenBase : Nat) (buf : Bytes) (short : buf.length < reportSize) :
    onMessage tokenBase buf = ⟨[], false⟩ := by
  rw [onMessage, dif_neg (by omega), ite_self]

theorem on_message_report (tokenBase : Nat) (r : AckReport) (rest : Bytes) :
    onMessage tokenBase (r.bytes ++ rest) = .after (fillOf tokenBase r).toList
    (onMessage tokenBase rest) := by
  have sharesFit : r.shares % 2 ^ 32 = r.shares :=
    Nat.mod_eq_of_lt (Nat.lt_of_le_of_lt r.sharesOk.2 (by decide))
  have priceFit : r.price % 2 ^ 32 = r.price := Nat.mod_eq_of_lt (Nat.lt_trans r.priceOk (by decide))
  have handled := on_message_execution r.report
    (encode_digits_length 14 r.token) List.length_replicate tokenBase rfl r.token
    (stoull_token r.token (Nat.lt_trans r.tokenOk (by decide))) rest
  rw [AckReport.bytes, handled]
  simp only [AckReport.report, sharesFit, priceFit, fillOf]
  split <;> rfl

theorem on_message_aligned (tokenBase : Nat) (reports : List AckReport) (chunk : Bytes)
    (within : chunk <+: reports.flatMap AckReport.bytes) :
    onMessage tokenBase chunk = ⟨expected tokenBase (reports.take (chunk.length / reportSize)), false⟩ := by
  induction reports generalizing chunk with
  | nil =>
      rw [List.flatMap_nil, List.prefix_nil] at within
      subst within
      rw [on_message_short tokenBase [] (by decide)]
      rfl
  | cons r reports ih =>
      by_cases short : chunk.length < reportSize
      · rw [on_message_short tokenBase chunk short, Nat.div_eq_of_lt short]
        rfl
      · rw [List.flatMap_cons] at within
        have first : r.bytes <+: chunk := List.prefix_of_prefix_length_le (List.prefix_append _ _) within (by
          rw [report_length]
          omega)
        obtain ⟨rest, rfl⟩ := first
        have later := ih rest ((List.prefix_append_right_inj _).mp within)
        have count : (r.bytes ++ rest).length / reportSize = rest.length / reportSize + 1 := by
          rw [List.length_append, report_length, Nat.add_comm, Nat.add_div_right _ (by decide)]
        rw [on_message_report, later, count, List.take_succ_cons, expected, expected, List.filterMap_cons]
        cases fillOf tokenBase r with
        | none => rfl
        | some fill => rfl

end HftExchange
