import HftExchange.Firm.Tokens
import HftExchange.Protocol.Codecs

set_option autoImplicit false

namespace HftExchange

-- What the firm makes of a report for an order that it sent with this token
-- field. It hands the fill on if the token is not below its base.
def Echoed (tokenBase : Nat) (a : NormalizedOrderAction) (field : Bytes) : Prop :=
  ∀ (o : Order) (price qty : Nat) (flag : Char) (worker : Nat) (ack : OutboundAck),
    o.clientOrderId = decodeOrderToken field →
    ackOf o price qty flag = .ack worker ack → ack.report.orderToken = field ∧
      stoull ack.report.orderToken = some (orderTokenOf tokenBase a) ∧
      (orderTokenOf tokenBase a + 2 ^ 64 - tokenBase) % 2 ^ 64 = a.internalOrderId ∧
      onMessage tokenBase ack.report.bytes =
        ⟨if tokenBase + a.internalOrderId < 2 ^ 64
          then [⟨a.internalOrderId, qty % 2 ^ 32, price % 2 ^ 32⟩] else [], false⟩

theorem token_echoed (tokenBase : Nat) (a : NormalizedOrderAction) (base : tokenBase < 2 ^ 64)
    (id : a.internalOrderId < 2 ^ 64)
    (small : orderTokenOf tokenBase a < 10 ^ 14) (field : Bytes)
    (written : TokenField (orderTokenOf tokenBase a) field) :
    Echoed tokenBase a field := by
  intro o price qty flag worker ack sent answer
  obtain rfl := (token_field_small _ field small).mp written
  rw [decode_encode_token _ small] at sent
  cases answer
  have parsed : stoull (encodeOrderToken o.clientOrderId) = some (orderTokenOf tokenBase a) :=
    by rw [sent, stoull_token _ small]
  have handled := on_message_execution ⟨ascii 'E', encodeOrderToken o.clientOrderId, qty, price,
    ascii flag, List.replicate 8 0⟩
    (encode_digits_length 14 _) List.length_replicate tokenBase rfl _ parsed []
  rw [List.append_nil, on_message_short tokenBase [] (by decide)] at handled
  have token : orderTokenOf tokenBase a = (tokenBase + a.internalOrderId) % 2 ^ 64 := rfl
  refine ⟨by rw [sent], parsed, by omega, ?_⟩
  rw [handled]
  by_cases fits : tokenBase + a.internalOrderId < 2 ^ 64
  · rw [Nat.mod_eq_of_lt fits] at token
    rw [if_pos (by omega), if_pos fits, token, Nat.add_sub_cancel_left]
    rfl
  · rw [if_neg (by omega), if_neg fits]
    rfl

theorem codecs_inverse :
    (∀ token : Bytes, token.length = 14 → ∀ value,
      decodeOrderToken token = value ∧ value ≠ invalidOrderToken ↔ value < 10 ^ 14 ∧
      encodeOrderToken value = token) ∧
    (∀ value, value < 10 ^ 14 → decodeOrderToken (encodeOrderToken value) = value ∧
      ∀ k, decodeOrderTokenLoop 0 ((encodeOrderToken value).take k) = digitsValue
      ((encodeOrderToken value).take k) ∧
        digitsValue ((encodeOrderToken value).take k) * 10 + 9 < 2 ^ 64) ∧
    (∀ stock : Bytes, stock.length = 8 → ∀ inst,
      decodeSymbol stock = inst ∧ inst ≠ invalidInstrument ↔ inst < maxInstruments ∧
      encodeSymbol inst = stock) ∧
    (∀ value, value < 10 ^ 14 → ∀ field, TokenField value field ↔ field = encodeOrderToken value) ∧
    ∀ tokenBase a, tokenBase < 2 ^ 64 → a.internalOrderId < 2 ^ 64 → orderTokenOf tokenBase a < 10 ^ 14 →
      ∀ field, TokenField (orderTokenOf tokenBase a) field → Echoed tokenBase a field := by
  refine ⟨token_codec, fun value small => ⟨decode_encode_token value small, token_unwrapped value⟩,
    symbol_codec, fun value small field => ?_,
    token_echoed⟩
  exact token_field_small value field small

theorem second_firm_echoed :
    decodeSymbol (encodeSymbol 255) = 255 ∧
    ∃ ack, ackOf ⟨1, 3125007, 100, 10, 1, 255, 0, .buy⟩ 100 10 'R' = .ack 0 ack ∧
      onMessage 3125000 ack.report.bytes = ⟨[⟨7, 10, 100⟩], false⟩ := by
  obtain ⟨_, tokens, symbols, fields, echo⟩ := codecs_inverse
  have symbol := (symbols (encodeSymbol 255) (by decide) 255).mpr ⟨by decide, rfl⟩
  let a : NormalizedOrderAction := ⟨7, 255, 100, 10, true, false, 0, 0, 0⟩
  have written : TokenField (orderTokenOf 3125000 a) (encodeOrderToken 3125007) :=
    (fields 3125007 (by decide) _).mpr rfl
  have decoded := (tokens 3125007 (by decide)).1
  obtain ⟨_, _, _, handled⟩ := echo 3125000 a (by decide) (by decide) (by decide) _ written
    ⟨1, 3125007, 100, 10, 1, 255, 0, .buy⟩ 100 10 'R' 0 _
    decoded.symm rfl
  exact ⟨symbol.1, _, rfl, handled⟩

end HftExchange
