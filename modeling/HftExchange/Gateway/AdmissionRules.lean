import HftExchange.Gateway.Framing
import HftExchange.Protocol.Digits

set_option autoImplicit false

namespace HftExchange

open Base

structure ValidEnter (req : OuchEnterOrder) : Prop where
  digits : req.orderToken.length = 14 ∧ ∀ c ∈ req.orderToken, isDigit c = true
  token : digitsValue req.orderToken < maxClientOrders
  shares : 1 ≤ req.shares ∧ req.shares ≤ 1000000
  price : 1 ≤ req.price ∧ req.price ≤ 10000000
  notional : req.price * req.shares ≤ 10000000000
  symbol : decodeSymbol req.stock < maxInstruments

theorem token_accepted_iff (token : Bytes) (length : token.length = 14) :
    decodeOrderToken token < maxClientOrders ↔ (∀ c ∈ token, isDigit c = true) ∧
    digitsValue token < maxClientOrders := by
  have whole : token.take 14 = token := List.take_of_length_le length.le
  rw [decodeOrderToken, whole]
  by_cases all : ∀ c ∈ token, isDigit c = true
  · have bound := digits_fold_bound token all 0
    rw [length] at bound
    rw [decode_loop_digits token all 0 (Nat.lt_trans bound (by norm_num))]
    exact ⟨fun small => ⟨all, small⟩, And.right⟩
  · have bad : ∃ c ∈ token, isDigit c = false := by simpa using all
    rw [decode_loop_invalid token 0 bad]
    exact ⟨fun small => absurd small (by decide), fun good => absurd good.1 all⟩

theorem risk_accepted_iff (req : OuchEnterOrder) (inst : Nat) :
    riskEngine.checkPreTrade req inst = true ↔
    (1 ≤ req.shares ∧ req.shares ≤ 1000000) ∧ (1 ≤ req.price ∧ req.price ≤ 10000000) ∧
    req.price * req.shares ≤ 10000000000 ∧
      inst < maxInstruments := by
  unfold RiskEngine.checkPreTrade riskEngine
  by_cases shares : req.shares = 0 ∨ 1000000 < req.shares
  · rw [if_pos shares]
    refine ⟨nofun, fun rules => ?_⟩
    omega
  rw [if_neg shares]
  by_cases price : req.price = 0 ∨ 10000000 < req.price
  · rw [if_pos price]
    refine ⟨nofun, fun rules => ?_⟩
    omega
  rw [if_neg price]
  have product : req.price * req.shares ≤ 10000000 * 1000000 := Nat.mul_le_mul (by omega) (by omega)
  rw [Nat.mod_eq_of_lt (show req.price * req.shares < 2 ^ 64 by omega)]
  by_cases notional : 10000000000 < req.price * req.shares
  · rw [if_pos notional]
    refine ⟨nofun, fun rules => ?_⟩
    omega
  rw [if_neg notional]
  by_cases known : maxInstruments ≤ inst
  · rw [if_pos known]
    refine ⟨nofun, fun rules => ?_⟩
    omega
  rw [if_neg known]
  refine ⟨fun _ => ?_, fun _ => rfl⟩
  omega

theorem safe_to_admit_iff (req : OuchEnterOrder) (complete : req.raw.length = OuchEnterOrder.size) :
    safeToAdmit req = true ↔ ValidEnter req := by
  have length : req.orderToken.length = 14 := by
    simp [OuchEnterOrder.orderToken, complete, OuchEnterOrder.size]
  rw [safeToAdmit, Bool.and_eq_true, decide_eq_true_eq, token_accepted_iff _ length, risk_accepted_iff]
  constructor
  · rintro ⟨⟨digits, token⟩, shares, price, notional, symbol⟩
    exact ⟨⟨length, digits⟩, token, shares, price, notional, symbol⟩
  · rintro ⟨digits, token, shares, price, notional, symbol⟩
    exact ⟨⟨digits.2, token⟩, shares, price, notional, symbol⟩

theorem valid_enter_token (req : OuchEnterOrder) (valid : ValidEnter req) :
    decodeOrderToken req.orderToken = digitsValue req.orderToken := by
  obtain ⟨length, digits⟩ := valid.digits
  have bound := digits_fold_bound req.orderToken digits 0
  rw [length] at bound
  rw [decodeOrderToken, List.take_of_length_le length.le,
    decode_loop_digits _ digits 0 (Nat.lt_trans bound (by norm_num))]
  rfl

structure EnterAhead (st : Inbound) : Prop where
  whole : st.readPos + OuchEnterOrder.size ≤ st.writePos
  bound : st.writePos ≤ inBufferSize
  kind : st.buffer st.readPos = ascii 'O'

def frameAhead (st : Inbound) : OuchEnterOrder := ⟨block st.buffer st.readPos OuchEnterOrder.size⟩

theorem parse_enter {ω : Type} (gateway : Gateway ω) (c : Connection ω)
    (ahead : EnterAhead c.inbound) (fuel : Nat) :
    c.parseLoop gateway (fuel + 1) =
      (c.consume gateway (.enter (frameAhead c.inbound)) OuchEnterOrder.size).parseLoop gateway fuel := by
  have whole := ahead.whole
  have bound := ahead.bound
  have size : OuchEnterOrder.size = 81 := rfl
  have limit : inBufferSize = 16384 := rfl
  have available : sizeSub c.inbound.writePos c.inbound.readPos = c.inbound.writePos - c.inbound.readPos :=
    size_sub_eq _ _ (by omega) (by omega)
  have some_ : 1 ≤ c.inbound.writePos - c.inbound.readPos := by omega
  have enough : ¬ c.inbound.writePos - c.inbound.readPos < OuchEnterOrder.size := by omega
  have kind : messageSize (ascii 'O') = some OuchEnterOrder.size := rfl
  have inside : c.inbound.readPos + OuchEnterOrder.size ≤ inBufferSize := by omega
  rw [Connection.parseLoop, available, if_pos some_, fetch_ok _ _ _ (by omega), checked_bind_ok,
    ahead.kind, kind]
  simp only [if_neg enough, if_true, load_block_ok _ _ _ _ inside, checked_bind_ok, handle_enter_consumes]
  rfl

end HftExchange
