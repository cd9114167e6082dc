import HftExchange.Gateway.SessionManager

set_option autoImplicit false

namespace HftExchange

structure RecordCall where
  clientOrderId : Nat
  internalId : Nat
  instrumentId : Nat
  clientId : Nat
deriving DecidableEq, Repr

namespace RecordCall

structure Fits (call : RecordCall) : Prop where
  internalId : call.internalId < 2 ^ 20
  instrumentId : call.instrumentId < 2 ^ 8
  clientId : call.clientId < 2 ^ 32

def data (call : RecordCall) : OrderSessionData := ⟨call.internalId, call.instrumentId, call.clientId⟩

def record (map : SessionMap) (call : RecordCall) : SessionMap :=
  map.recordOrder call.clientOrderId call.internalId call.instrumentId call.clientId

end RecordCall

def recordAll (calls : List RecordCall) : SessionMap := calls.foldl RecordCall.record .init

-- The map as a register for each token: the last call for it wins.
def lastRecord (calls : List RecordCall) (token : Nat) : Option RecordCall :=
  (calls.filter fun call => call.clientOrderId = token).getLast?

theorem record_all_snoc (calls : List RecordCall) (call : RecordCall) :
    recordAll (calls ++ [call]) = call.record (recordAll calls) := by
  rw [recordAll, List.foldl_append]
  rfl

theorem last_record_snoc (calls : List RecordCall) (call : RecordCall) (token : Nat) :
    lastRecord (calls ++ [call]) token = if call.clientOrderId = token then some call
      else lastRecord calls token := by
  rw [lastRecord, List.filter_append]
  by_cases own : call.clientOrderId = token
  · rw [if_pos own, List.filter_cons_of_pos (by simpa using own), List.filter_nil,
      List.getLast?_append, List.getLast?_singleton]
    rfl
  · rw [if_neg own, List.filter_cons_of_neg (by simpa using own), List.filter_nil, List.append_nil]
    rfl

theorem last_record_some (calls : List RecordCall) (token : Nat) (call : RecordCall)
    (last : lastRecord calls token = some call) :
    call ∈ calls ∧ call.clientOrderId = token := by
  have member := List.mem_of_getLast? last
  rw [List.mem_filter, decide_eq_true_eq] at member
  exact member

theorem record_all_cell (calls : List RecordCall) (token : Nat) (inside : token < maxClientOrders) :
    recordAll calls token =
    match lastRecord calls token with
    | some call => packSession call.clientId call.internalId call.instrumentId
    | none => 0 := by
  induction calls using List.reverseRecOn with
  | nil => rfl
  | append_singleton calls call ih =>
      rw [record_all_snoc, last_record_snoc]
      by_cases own : call.clientOrderId = token
      · subst own
        simp only [RecordCall.record, SessionMap.recordOrder, inside, if_true, Function.update_self]
      · rw [if_neg own, ← ih, RecordCall.record, SessionMap.recordOrder]
        split
        · exact Function.update_of_ne (Ne.symm own) ..
        · rfl

theorem lookup_last (calls : List RecordCall) (fits : ∀ call ∈ calls, call.Fits) (token : Nat)
    (inside : token < maxClientOrders) :
    (recordAll calls).lookupData token = ((lastRecord calls token).map RecordCall.data).getD ⟨0, 0, 0⟩ := by
  rw [SessionMap.lookupData, if_pos inside, record_all_cell calls token inside]
  cases last : lastRecord calls token with
  | none => exact unpack_zero
  | some call =>
      obtain ⟨internalId, instrumentId, clientId⟩ := fits call (last_record_some calls token call last).1
      exact unpack_pack call.clientId call.internalId call.instrumentId clientId internalId instrumentId

theorem lookup_outside (map : SessionMap) (token : Nat) (outside : ¬ token < maxClientOrders) :
    map.lookupData token = ⟨0, 0, 0⟩ :=
  if_neg outside

theorem session_map_exact (calls : List RecordCall) (fits : ∀ call ∈ calls, call.Fits) (token : Nat) :
    (token < maxClientOrders → ∀ call, lastRecord calls token = some call →
      (recordAll calls).lookupData token = call.data) ∧
    (lastRecord calls token = none ∨ maxClientOrders ≤ token →
      ((recordAll calls).lookupData token).internalId = 0) ∧
    (∀ before call after, calls = before ++ call :: after → call.clientOrderId = token →
      token < maxClientOrders →
      (∀ later ∈ call :: after, later.clientOrderId = token → 1 ≤ later.internalId) →
      ((recordAll calls).lookupData token).internalId ≠ 0) ∧
    ∀ before call after, calls = before ++ call :: after → call.clientOrderId ≠ token →
      (recordAll calls).lookupData token = (recordAll (before ++ after)).lookupData token := by
  refine ⟨fun inside call last => ?_, ?_, fun before call after split own inside live => ?_,
    fun before call after split other => ?_⟩
  · rw [lookup_last calls fits token inside, last]
    rfl
  · rintro (absent | outside)
    · by_cases inside : token < maxClientOrders
      · rw [lookup_last calls fits token inside, absent]
        rfl
      · rw [lookup_outside _ _ inside]
    · rw [lookup_outside _ _ (Nat.not_lt.mpr outside)]
  · have found : lastRecord calls token = ((call :: after).filter fun call => call.clientOrderId =
        token).getLast? := by
      rw [lastRecord, split, List.filter_append, List.getLast?_append,
        List.filter_cons_of_pos (by simpa using own), List.getLast?_cons]
      rfl
    cases last : lastRecord calls token with
    | none =>
        rw [last, List.filter_cons_of_pos (by simpa using own), List.getLast?_cons] at found
        cases found
    | some final =>
        rw [last] at found
        have member := List.mem_of_mem_filter (List.mem_of_getLast? found.symm)
        have one := live final member (last_record_some calls token final last).2
        rw [lookup_last calls fits token inside, last]
        exact Nat.ne_of_gt one
  · have same : lastRecord calls token = lastRecord (before ++ after) token := by
      rw [lastRecord, lastRecord, split, List.filter_append, List.filter_append,
        List.filter_cons_of_neg (by simpa using other)]
    have rest : ∀ call ∈ before ++ after, call.Fits := fun later member => fits later (by
      rw [split]
      rcases List.mem_append.mp member with here | there
      · exact List.mem_append_left _ here
      · exact List.mem_append_right _ (List.mem_cons_of_mem _ there))
    by_cases inside : token < maxClientOrders
    · rw [lookup_last calls fits token inside, lookup_last (before ++ after) rest token inside, same]
    · rw [lookup_outside _ _ inside, lookup_outside _ _ inside]

theorem full_fields_recorded :
    (recordAll [⟨4242, 500000, 255, 0xDEADBEEF⟩, ⟨1, 2 ^ 20 - 1, 255, 0xFFFFFFFF⟩,
      ⟨4242, 7, 0, 1⟩]).lookupData 1 =
    ⟨2 ^ 20 - 1, 255, 0xFFFFFFFF⟩ :=
  (session_map_exact _ (by
    intro call member
    simp only [List.mem_cons, List.not_mem_nil, or_false] at member
    rcases member with rfl | rfl | rfl <;> exact ⟨by decide, by decide, by decide⟩) 1).1 (by decide)
      ⟨1, 2 ^ 20 - 1, 255, 0xFFFFFFFF⟩ (by decide)

end HftExchange
