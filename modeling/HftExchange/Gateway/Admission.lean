import HftExchange.Book.OrderBook
import HftExchange.Gateway.SessionManager

set_option autoImplicit false

namespace HftExchange

structure RiskEngine where
  maxOrderQty : Nat
  maxPrice : Nat
  maxNotional : Nat

def riskEngine : RiskEngine := ⟨1000000, 10000000, 10000000000⟩

def RiskEngine.checkPreTrade (risk : RiskEngine) (req : OuchEnterOrder) (mappedInst : Nat) : Bool :=
  if req.shares = 0 ∨ risk.maxOrderQty < req.shares then false
  else if req.price = 0 ∨ risk.maxPrice < req.price then false
  else if risk.maxNotional < req.price * req.shares % 2 ^ 64 then false
  else if maxInstruments ≤ mappedInst then false
  else true

def sideOf (side : Byte) : Side := if side = ascii 'B' then .buy else .sell

-- A token outside the session map could never be canceled, so it is refused
-- together with whatever the risk engine refuses.
def safeToAdmit (req : OuchEnterOrder) : Bool :=
  decodeOrderToken req.orderToken < maxClientOrders && riskEngine.checkPreTrade req (decodeSymbol req.stock)

-- The order as the pool constructs it; its handle is set once its slot is
-- known.
def orderOf (req : OuchEnterOrder) (clientId workerId : Nat) : Order :=
  { internalId := 0
    clientOrderId := decodeOrderToken req.orderToken
    price := req.price
    quantity := req.shares
    clientId := clientId
    instrumentId := decodeSymbol req.stock
    workerId := workerId
    side := sideOf req.side }

-- The report of a refused order. A malformed token is reported as 0.
def rejectOf (req : OuchEnterOrder) : DropCopyMessage :=
  let token := decodeOrderToken req.orderToken
  { clientOrderId := if token = invalidOrderToken then 0 else token
    internalId := 0
    price := req.price
    quantity := req.shares
    instrumentId := decodeSymbol req.stock
    state := .rejected
    side := sideOf req.side }

theorem admitted_order (req : OuchEnterOrder) (clientId workerId : Nat) (safe : safeToAdmit req = true) :
    (orderOf req clientId workerId).clientOrderId < maxClientOrders ∧
      (orderOf req clientId workerId).instrumentId < maxInstruments ∧
      0 < (orderOf req clientId workerId).quantity := by
  simp only [safeToAdmit, Bool.and_eq_true, decide_eq_true_eq] at safe
  obtain ⟨token, risk⟩ := safe
  unfold RiskEngine.checkPreTrade at risk
  split at risk
  · cases risk
  · rename_i shares
    split at risk
    · cases risk
    · split at risk
      · cases risk
      · split at risk
        · cases risk
        · rename_i known
          exact ⟨token, Nat.lt_of_not_le known, Nat.pos_of_ne_zero fun zero => shares (.inl zero)⟩

end HftExchange
