import HftExchange.Base.Words
import HftExchange.Protocol.Messages

set_option autoImplicit false

namespace HftExchange

open Base

def maxClientOrders : Nat := 50000000

structure OrderSessionData where
  internalId : Nat
  instrumentId : Nat
  clientId : Nat
deriving DecidableEq, Repr

-- The token-indexed array of SessionManager. Each cell is one atomic word:
-- bits 0-7 the instrument, bits 8-27 the pool slot, bits 32-63 the client.
abbrev SessionMap := Nat → Base.Word

def packSession (clientId internalId instrumentId : Nat) : Base.Word :=
  (BitVec.ofNat 64 clientId <<< 32) ||| (BitVec.ofNat 64 internalId <<< 8) ||| BitVec.ofNat 64 instrumentId

def unpackSession (packed : Base.Word) : OrderSessionData :=
  { internalId := ((packed >>> 8) &&& BitVec.ofNat 64 (2 ^ 20 - 1)).toNat
    instrumentId := (packed &&& BitVec.ofNat 64 (2 ^ 8 - 1)).toNat % 2 ^ 16
    clientId := (packed >>> 32).toNat % 2 ^ 32 }

namespace SessionMap

def init : SessionMap := fun _ => 0

def recordOrder (map : SessionMap) (clientOrderId internalId instrumentId clientId : Nat) : SessionMap :=
  if clientOrderId < maxClientOrders then
    Function.update map clientOrderId (packSession clientId internalId instrumentId)
  else map

def lookupData (map : SessionMap) (clientOrderId : Nat) : OrderSessionData :=
  if clientOrderId < maxClientOrders then unpackSession (map clientOrderId) else ⟨0, 0, 0⟩

end SessionMap

theorem pack_session_nat (client id inst : Nat) (clientFits : client < 2 ^ 32)
    (idFits : id < 2 ^ 20) (instFits : inst < 2 ^ 8) :
    (packSession client id inst).toNat = client * 2 ^ 32 + (id * 2 ^ 8 + inst) := by
  have clientRoom : client <<< 32 < 2 ^ 64 := by rw [Nat.shiftLeft_eq]; omega
  have idRoom : id <<< 8 < 2 ^ 64 := by rw [Nat.shiftLeft_eq]; omega
  have low : id <<< 8 ||| inst = id <<< 8 + inst := (Nat.shiftLeft_add_eq_or_of_lt instFits id).symm
  have lowRoom : id <<< 8 + inst < 2 ^ 32 := by rw [Nat.shiftLeft_eq]; omega
  have high := (Nat.shiftLeft_add_eq_or_of_lt lowRoom client).symm
  simp only [packSession, BitVec.toNat_or, BitVec.toNat_shiftLeft, BitVec.toNat_ofNat,
    Nat.mod_eq_of_lt (show client < 2 ^ 64 by omega),
    Nat.mod_eq_of_lt (show id < 2 ^ 64 by omega), Nat.mod_eq_of_lt (show inst < 2 ^ 64 by omega),
      Nat.mod_eq_of_lt clientRoom,
    Nat.mod_eq_of_lt idRoom]
  rw [Nat.or_assoc, low, high, Nat.shiftLeft_eq, Nat.shiftLeft_eq]

theorem unpack_session_nat (packed : Base.Word) :
    unpackSession packed =
    ⟨packed.toNat / 2 ^ 8 % 2 ^ 20, packed.toNat % 2 ^ 8, packed.toNat / 2 ^ 32⟩ := by
  have bound := packed.isLt
  have mask : ∀ x bits, bits < 64 → x &&& ((2 ^ bits - 1) % 2 ^ 64) = x % 2 ^ bits := by
    intro x bits small
    have less : 2 ^ bits - 1 < 2 ^ 64 := Nat.lt_of_lt_of_le (Nat.sub_lt (Nat.two_pow_pos bits) Nat.one_pos)
      (Nat.pow_le_pow_right (by decide) (Nat.le_of_lt small))
    rw [Nat.mod_eq_of_lt less, Nat.and_two_pow_sub_one_eq_mod]
  simp only [unpackSession, BitVec.toNat_and, BitVec.toNat_ushiftRight, BitVec.toNat_ofNat,
    Nat.shiftRight_eq_div_pow,
    mask _ 20 (by decide), mask _ 8 (by decide), OrderSessionData.mk.injEq, true_and]
  omega

theorem unpack_pack (client id inst : Nat) (clientFits : client < 2 ^ 32) (idFits : id < 2 ^ 20)
    (instFits : inst < 2 ^ 8) :
    unpackSession (packSession client id inst) = ⟨id, inst, client⟩ := by
  rw [unpack_session_nat, pack_session_nat client id inst clientFits idFits instFits,
    OrderSessionData.mk.injEq]
  omega

theorem unpack_zero : unpackSession 0 = ⟨0, 0, 0⟩ := by
  decide

end HftExchange
