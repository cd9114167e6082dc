import HftExchange.Firm.BookBuilder

set_option autoImplicit false

namespace HftExchange

open Base

section
variable {F : Type} (ops : FloatOps F)

-- The fields of signals that are not valid are not set, and nothing reads them.
def noSignals : AlphaSignals F := ⟨ops.ofUInt32 0, ops.ofUInt32 0, ops.ofUInt32 0, 0, false⟩

-- Sums, differences and products are formed in 32-bit arithmetic, then
-- converted.
def computeSignals (snap : BookSnapshot) : AlphaSignals F :=
  if snap.bestBid = 0 ∨ snap.bestAsk = 100000 then noSignals ops
  else if snap.bidQty = 0 ∧ snap.askQty = 0 then noSignals ops
  else
    let totalQty := ops.ofUInt32 ((snap.bidQty + snap.askQty) % 2 ^ 32)
    { midPrice := ops.div (ops.ofUInt32 ((snap.bestBid + snap.bestAsk) % 2 ^ 32)) (ops.ofUInt32 2)
      microPrice := ops.div
        (ops.ofUInt32 ((snap.bestBid * snap.askQty + snap.bestAsk * snap.bidQty) % 2 ^ 32)) totalQty
      imbalance := ops.div (ops.ofUInt32 ((snap.bidQty + 2 ^ 32 - snap.askQty) % 2 ^ 32)) totalQty
      spread := (snap.bestAsk + 2 ^ 32 - snap.bestBid) % 2 ^ 32
      valid := true }

end

-- Arithmetic without rounding. A division by zero gives no number, and neither
-- does an operation on none. The conversion to an integer truncates.
def exactOps : FloatOps (Option ℚ) where
  ofUInt32 n := some n
  half := some (1 / 2)
  add x y := do pure ((← x) + (← y))
  sub x y := do pure ((← x) - (← y))
  div x y := do
    let divisor ← y
    if divisor = 0 then none else pure ((← x) / divisor)
  neg x := x.map fun q => -q
  less
    | some p, some q => decide (p < q)
    | _, _ => false
  toUInt32
    | some q => ⌊q⌋.toNat % 2 ^ 32
    | none => 0

end HftExchange
