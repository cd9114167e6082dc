import HftExchange.Firm.AckReceiver
import HftExchange.Firm.Quotes

set_option autoImplicit false

namespace HftExchange

open Base

-- The connector has its own copy of the bound of the session map.
def connectorMaxClientOrders : Nat := 50000000
def maxFirms : Nat := 16
def tokenSlice : Nat := connectorMaxClientOrders / maxFirms

-- std::strtoull of a C string: 0 without a digit, the largest value when the
-- number does not fit, and a minus sign negates the unsigned value.
def strtoull (chars : Bytes) : Nat :=
  let text := (chars.takeWhile (· ≠ 0)).dropWhile isSpace
  let negative := text.head? = some (ascii '-')
  let digits := (if negative ∨ text.head? = some (ascii '+') then text.drop 1 else text).takeWhile isDigit
  let value := digitsValue digits
  if 2 ^ 64 ≤ value then 2 ^ 64 - 1 else if negative then (2 ^ 64 - value) % 2 ^ 64 else value

def tokenBaseOf : Option Bytes → Nat
  | none => 0
  | some chars => strtoull chars

-- The check of TOKEN_BASE in initialize. The sum is a 64-bit word.
def initializeTokenBase (tokenBaseEnv : Option Bytes) : Option Nat :=
  let tokenBase := tokenBaseOf tokenBaseEnv
  if connectorMaxClientOrders < (tokenBase + tokenSlice) % 2 ^ 64 then none else some tokenBase

def toChars (value : Nat) : Bytes :=
  if value < 10 then [ascii '0' + UInt8.ofNat value] else toChars (value / 10) ++
    [ascii '0' + UInt8.ofNat (value % 10)]

-- The token field of a message: '0' bytes, with the digits copied over its end.
-- The buffer for the digits has 14 bytes; what it holds when they do not fit is
-- unspecified.
def TokenField (value : Nat) (field : Bytes) : Prop :=
  field.length = 14 ∧
    ((toChars value).length ≤ 14 →
    field = List.replicate (14 - (toChars value).length) (ascii '0') ++ toChars value)

def FirmRun {F : Type} (ops : FloatOps F) (strategy : MakerParams F ⊕ TakerParams F) (inputs : List (Input F))
    (history : List NormalizedOrderAction) : Prop :=
  match strategy with
  | .inl params => ∃ maker, StrategyRun (MarketMaker.onTick ops params) .init inputs (maker, history)
  | .inr params => ∃ taker, StrategyRun (Taker.onTick ops params) .init inputs (taker, history)

def TokensInSlice (tokenBase : Nat) (history : List NormalizedOrderAction) : Prop :=
  ∀ a ∈ history, ∀ field, TokenField (orderTokenOf tokenBase a) field → tokenBase ≤ decodeOrderToken field ∧
    decodeOrderToken field < tokenBase + tokenSlice ∧ decodeOrderToken field < maxClientOrders

def WithinSlice (tokenBase : Nat) (history : List NormalizedOrderAction) : Prop :=
  history = [] ∨ tokenBase + tokenSlice ≤ connectorMaxClientOrders ∧ history.length < tokenSlice

theorem encode_digits_zero (width : Nat) : encodeDigits width 0 = List.replicate width (ascii '0') := by
  induction width with
  | zero => rfl
  | succ width ih =>
      rw [encodeDigits, ih, List.replicate_succ']
      rfl

theorem padded_digits (width value : Nat) (small : value < 10 ^ (width + 1)) :
    (toChars value).length ≤ width + 1 ∧
    List.replicate (width + 1 - (toChars value).length) (ascii '0') ++ toChars value = encodeDigits
    (width + 1) value := by
  induction width generalizing value with
  | zero =>
      have one : value < 10 := by simpa using small
      rw [toChars, if_pos one]
      exact ⟨by simp, by simp [encodeDigits, Nat.mod_eq_of_lt one]⟩
  | succ width ih =>
      rw [toChars]
      split
      · rename_i one
        refine ⟨by simp, ?_⟩
        rw [encodeDigits, Nat.div_eq_of_lt one, encode_digits_zero, Nat.mod_eq_of_lt one]
        rfl
      · obtain ⟨short, same⟩ := ih (value / 10) (by rw [Nat.pow_succ] at small; omega)
        rw [List.length_append, List.length_singleton, encodeDigits, ← same]
        exact ⟨by omega, by rw [Nat.add_sub_add_right, List.append_assoc]⟩

theorem to_chars_large (width value : Nat) (large : 10 ^ width ≤ value) : width < (toChars value).length := by
  induction width generalizing value with
  | zero =>
      rw [toChars]
      split <;> simp
  | succ width ih =>
      have ten : ¬ value < 10 := by
        have : 1 ≤ 10 ^ width := Nat.one_le_pow _ _ (by decide)
        rw [Nat.pow_succ] at large
        omega
      rw [toChars, if_neg ten, List.length_append, List.length_singleton]
      have := ih (value / 10) (by rw [Nat.pow_succ] at large; omega)
      omega

section
variable (value : Nat) (field : Bytes)

theorem token_field_small (small : value < 10 ^ 14) :
    TokenField value field ↔ field = encodeOrderToken value := by
  obtain ⟨short, same⟩ := padded_digits 13 value small
  constructor
  · rintro ⟨_, written⟩
    rw [written short, same]
    rfl
  · rintro rfl
    exact ⟨encode_digits_length 14 value, fun _ => same.symm⟩

theorem token_field_large (large : 10 ^ 14 ≤ value) (length : field.length = 14) : TokenField value field :=
  ⟨length, fun short => absurd short (by have := to_chars_large 14 value large; omega)⟩

end

theorem token_base_word (tokenBaseEnv : Option Bytes) : tokenBaseOf tokenBaseEnv < 2 ^ 64 := by
  cases tokenBaseEnv with
  | none => exact Nat.two_pow_pos 64
  | some chars =>
      unfold tokenBaseOf strtoull
      dsimp only
      generalize digitsValue (List.takeWhile isDigit _) = value
      split
      · omega
      · split
        · exact Nat.mod_lt _ (Nat.two_pow_pos 64)
        · omega

theorem accepted_base (tokenBaseEnv : Option Bytes) (tokenBase : Nat)
    (accepted : initializeTokenBase tokenBaseEnv = some tokenBase) :
    tokenBase < 2 ^ 64 ∧ (tokenBase + tokenSlice ≤ connectorMaxClientOrders ∨
      2 ^ 64 ≤ tokenBase + tokenSlice) := by
  have word := token_base_word tokenBaseEnv
  unfold initializeTokenBase at accepted
  dsimp only at accepted
  split at accepted
  · cases accepted
  · rename_i fits
    rw [Option.some.inj accepted] at fits word
    refine ⟨word, ?_⟩
    by_cases wraps : 2 ^ 64 ≤ tokenBase + tokenSlice
    · exact .inr wraps
    · rw [Nat.mod_eq_of_lt (Nat.lt_of_not_le wraps)] at fits
      exact .inl (Nat.le_of_not_lt fits)

theorem firm_run_numbered {F : Type} (ops : FloatOps F) (strategy : MakerParams F ⊕ TakerParams F)
    (inputs : List (Input F))
    (history : List NormalizedOrderAction) (run : FirmRun ops strategy inputs history) :
    Numbered 1 history := by
  cases strategy with
  | inl params =>
      obtain ⟨maker, run⟩ := run
      exact (strategy_run_numbered _ _ (makerNumbering ops params) inputs _ run).1
  | inr params =>
      obtain ⟨taker, run⟩ := run
      exact (strategy_run_numbered _ _ (takerNumbering ops params) inputs _ run).1

section
variable (tokenBase : Nat) (history : List NormalizedOrderAction) (ids : Numbered 1 history)

include ids

theorem within_slice_token (within : WithinSlice tokenBase history) (a : NormalizedOrderAction)
    (member : a ∈ history) (field : Bytes)
    (written : TokenField (orderTokenOf tokenBase a) field) :
    tokenBase ≤ decodeOrderToken field ∧ decodeOrderToken field < tokenBase + tokenSlice := by
  obtain ⟨i, found⟩ := List.mem_iff_getElem?.mp member
  obtain ⟨bound, _⟩ := List.getElem?_eq_some_iff.mp found
  have id := ids i a found
  rcases within with rfl | ⟨top, short⟩
  · cases member
  · have slice : tokenSlice = 3125000 := rfl
    have all : connectorMaxClientOrders = 50000000 := rfl
    have token : orderTokenOf tokenBase a = tokenBase + (1 + i) := by
      rw [orderTokenOf, id, Nat.mod_eq_of_lt (by omega), Nat.mod_eq_of_lt (by omega)]
    rw [token, token_field_small _ _ (by omega)] at written
    rw [written, decode_encode_token _ (by omega)]
    omega

theorem tokens_in_slice_iff (small : tokenBase < 2 ^ 64)
    (checked : tokenBase + tokenSlice ≤ connectorMaxClientOrders ∨ 2 ^ 64 ≤ tokenBase + tokenSlice) :
    TokensInSlice tokenBase history ↔ WithinSlice tokenBase history := by
  have slice : tokenSlice = 3125000 := rfl
  have all : connectorMaxClientOrders = 50000000 := rfl
  have session : maxClientOrders = 50000000 := rfl
  constructor
  · intro inSlice
    by_contra outside
    obtain ⟨nonempty, far⟩ := not_or.mp outside
    rcases checked with fits | wraps
    · -- The token with the number of the slice's length is one too many.
      have long : tokenSlice - 1 < history.length := by
        by_contra short
        exact far ⟨fits, by omega⟩
      have found := List.getElem?_eq_getElem long
      have id := ids _ _ found
      have token : orderTokenOf tokenBase history[tokenSlice - 1] = tokenBase + tokenSlice := by
        rw [orderTokenOf, id, Nat.mod_eq_of_lt (by omega), Nat.mod_eq_of_lt (by omega)]
        omega
      have written := (token_field_small (tokenBase + tokenSlice) _ (by omega)).mpr rfl
      have bounds := inSlice _ (List.getElem_mem long) (encodeOrderToken (tokenBase + tokenSlice))
        (by rw [token]; exact written)
      rw [decode_encode_token _ (by omega)] at bounds
      omega
    · -- A wrapped sum was accepted: already the first token is outside.
      obtain ⟨a, rest, rfl⟩ := List.exists_cons_of_ne_nil nonempty
      have id := ids 0 a rfl
      have member : a ∈ a :: rest := List.mem_cons_self
      have zero : decodeOrderToken (encodeOrderToken 0) = 0 := by decide
      have written : TokenField (orderTokenOf tokenBase a) (encodeOrderToken 0) := by
        rw [orderTokenOf, id]
        by_cases last : tokenBase + 1 = 2 ^ 64
        · rw [show (tokenBase + (1 + 0) % 2 ^ 64) % 2 ^ 64 = 0 by omega]
          exact (token_field_small 0 _ (by decide)).mpr rfl
        · exact token_field_large _ _ (by omega) rfl
      have bounds := inSlice a member _ written
      rw [zero] at bounds
      omega
  · intro within a member field written
    obtain ⟨low, high⟩ := within_slice_token tokenBase history ids within a member field written
    refine ⟨low, high, ?_⟩
    rcases within with rfl | ⟨top, _⟩
    · cases member
    · omega

end

theorem slices_apart (first second : Nat) (one two : List NormalizedOrderAction)
    (idsOne : Numbered 1 one) (idsTwo : Numbered 1 two)
    (sliceOne : tokenSlice ∣ first) (sliceTwo : tokenSlice ∣ second) (different : first ≠ second)
    (inOne : WithinSlice first one)
    (inTwo : WithinSlice second two) (a b : NormalizedOrderAction) (fromOne : a ∈ one)
    (fromTwo : b ∈ two) (fieldA fieldB : Bytes)
    (writtenA : TokenField (orderTokenOf first a) fieldA)
    (writtenB : TokenField (orderTokenOf second b) fieldB) :
    decodeOrderToken fieldA ≠ decodeOrderToken fieldB := by
  obtain ⟨lowA, highA⟩ := within_slice_token first one idsOne inOne a fromOne fieldA writtenA
  obtain ⟨lowB, highB⟩ := within_slice_token second two idsTwo inTwo b fromTwo fieldB writtenB
  obtain ⟨k, rfl⟩ := sliceOne
  obtain ⟨m, rfl⟩ := sliceTwo
  intro same
  rcases Nat.lt_or_gt_of_ne (fun equal : k = m => different (equal ▸ rfl)) with less | more
  · have gap := Nat.mul_le_mul_left tokenSlice (Nat.succ_le_of_lt less)
    rw [Nat.mul_succ] at gap
    omega
  · have gap := Nat.mul_le_mul_left tokenSlice (Nat.succ_le_of_lt more)
    rw [Nat.mul_succ] at gap
    omega

theorem token_partition_iff {F : Type} (ops : FloatOps F) (strategy : MakerParams F ⊕ TakerParams F)
    (tokenBaseEnv : Option Bytes)
    (tokenBase : Nat) (accepted : initializeTokenBase tokenBaseEnv = some tokenBase) (inputs : List (Input F))
    (history : List NormalizedOrderAction) (run : FirmRun ops strategy inputs history) :
    (TokensInSlice tokenBase history ↔ WithinSlice tokenBase history) ∧
      ∀ (strategy' : MakerParams F ⊕ TakerParams F) (env' : Option Bytes) (base' : Nat)
      (inputs' : List (Input F))
        (history' : List NormalizedOrderAction), initializeTokenBase env' = some base' →
        FirmRun ops strategy' inputs' history' →
        tokenSlice ∣ tokenBase → tokenSlice ∣ base' → tokenBase ≠ base' →
        WithinSlice tokenBase history → WithinSlice base' history' →
        ∀ a ∈ history, ∀ b ∈ history', ∀ fieldA fieldB, TokenField (orderTokenOf tokenBase a) fieldA →
          TokenField (orderTokenOf base' b) fieldB → decodeOrderToken fieldA ≠ decodeOrderToken fieldB := by
  have ids := firm_run_numbered ops strategy inputs history run
  obtain ⟨small, checked⟩ := accepted_base tokenBaseEnv tokenBase accepted
  refine ⟨tokens_in_slice_iff tokenBase history ids small checked, ?_⟩
  intro strategy' env' base' inputs' history' _ run' slice slice' different within within' a member
    b member' fieldA fieldB
  exact slices_apart tokenBase base' history history' ids
    (firm_run_numbered ops strategy' inputs' history' run') slice slice' different
    within within' a b member member' fieldA fieldB

def takerDefaults : TakerParams Int := ⟨1, 100⟩

def pressure : Input Int := (⟨7, 0, 0, true, false, 0, 0⟩, ⟨100, 100, 2, 2, true⟩)

def movingSignals : List (Input Int) :=
  [signalAt 100, signalAt 110, (⟨8, 0, 0, true, false, 0, 0⟩, ⟨50, 50, 0, 2, true⟩), signalAt 100]

theorem two_firms_apart :
    ∃ made taken, FirmRun wholeOps (.inl makerDefaults) movingSignals made ∧
    FirmRun wholeOps (.inr takerDefaults) [pressure, pressure, pressure] taken ∧
    made.length = 12 ∧ taken.length = 3 ∧ TokensInSlice 0 made ∧
    ∀ a ∈ made, ∀ b ∈ taken, ∀ fieldA fieldB, TokenField (orderTokenOf 0 a) fieldA →
      TokenField (orderTokenOf 3125000 b) fieldB →
      decodeOrderToken fieldA ≠ decodeOrderToken fieldB := by
  have quotes : (execute (fun _ _ => True) (strategyStep (MarketMaker.onTick wholeOps makerDefaults))
      (.init, []) movingSignals).map (·.2.length) = some 12 := by decide
  have crosses : (execute (fun _ _ => True) (strategyStep (Taker.onTick wholeOps takerDefaults))
      (.init, []) [pressure, pressure, pressure]).map (·.2.length) = some 3 := by decide
  obtain ⟨⟨maker, made⟩, makerEnds, long⟩ := Option.map_eq_some_iff.mp quotes
  obtain ⟨⟨taker, taken⟩, takerEnds, short⟩ := Option.map_eq_some_iff.mp crosses
  have makerRun : FirmRun wholeOps (.inl makerDefaults) movingSignals made :=
    ⟨maker, execute_run _ _ _ _ _ makerEnds⟩
  have takerRun : FirmRun wholeOps (.inr takerDefaults) [pressure, pressure, pressure] taken :=
    ⟨taker, execute_run _ _ _ _ _ takerEnds⟩
  have accepted : initializeTokenBase (some (encodeDigits 7 3125000)) = some 3125000 := by decide
  have within : WithinSlice 0 made := .inr ⟨by decide, by
    rw [show made.length = 12 from long]
    decide⟩
  have within' : WithinSlice 3125000 taken := .inr ⟨by decide, by
    rw [show taken.length = 3 from short]
    decide⟩
  obtain ⟨inSlice, apart⟩ := token_partition_iff wholeOps (.inl makerDefaults) none 0 (by decide)
    movingSignals made makerRun
  exact ⟨made, taken, makerRun, takerRun, long, short, inSlice.mpr within,
    apart (.inr takerDefaults) _ 3125000 _ taken accepted takerRun (Nat.dvd_zero _) (by decide)
      (by decide) within within'⟩

theorem crosses_counted (n : Nat) :
    ∃ s, StrategyRun (Taker.onTick wholeOps takerDefaults) .init (List.replicate n pressure) s ∧
    s.2.length = n := by
  induction n with
  | zero => exact ⟨_, .start, rfl⟩
  | succ n ih =>
      obtain ⟨⟨taker, history⟩, run, length⟩ := ih
      refine ⟨(⟨nextOrderId taker.localOrderCounter⟩,
        history ++ [MarketMaker.action pressure.1 100 true false taker.localOrderCounter 101]),
        ?_, by rw [List.length_append, length]; rfl⟩
      rw [List.replicate_succ']
      exact .snoc _ pressure _ _ run ⟨trivial, rfl⟩

-- A taker with the default base that has seen 3125000 signals under pressure
-- sends the first token of the next firm.
theorem counter_leaves_slice :
    ¬ ∀ (tokenBaseEnv : Option Bytes) (tokenBase : Nat) (inputs : List (Input Int))
    (history : List NormalizedOrderAction), initializeTokenBase tokenBaseEnv = some tokenBase →
    FirmRun wholeOps (.inr takerDefaults) inputs history → TokensInSlice tokenBase history := by
  intro always
  obtain ⟨⟨taker, history⟩, run, length⟩ := crosses_counted tokenSlice
  have inSlice := always none 0 _ history (by decide) ⟨taker, run⟩
  have ids := (strategy_run_numbered _ _ (takerNumbering wholeOps takerDefaults) _ _ run).1
  rcases (tokens_in_slice_iff 0 history ids (by decide) (.inl (by decide))).mp inSlice with rfl | ⟨_, short⟩
  · rw [List.length_nil] at length
    exact absurd length (by decide)
  · exact absurd length (Nat.ne_of_lt short)

end HftExchange
