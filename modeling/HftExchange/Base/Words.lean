import HftExchange.Base.Checked

set_option autoImplicit false

namespace Base

abbrev Word := BitVec 64

def lowest (word : Word) : Option Nat := (List.range 64).find? fun i => word.getLsbD i

def highest (word : Word) : Option Nat := ((List.range 64).find? fun i => word.getLsbD (63 - i)).map (63 - ·)

-- Shifts by the word width and scans of a zero word are undefined in C.
def shiftLeft (word : Word) (amount : Nat) : Checked Word :=
  if amount < 64 then .ok (word <<< amount) else .error .shiftWidth

def shiftRight (word : Word) (amount : Nat) : Checked Word :=
  if amount < 64 then .ok (word >>> amount) else .error .shiftWidth

def trailingZeros (word : Word) : Checked Nat :=
  match lowest word with
  | some i => .ok i
  | none => .error .zeroScan

def leadingZeros (word : Word) : Checked Nat :=
  match highest word with
  | some i => .ok (63 - i)
  | none => .error .zeroScan

theorem word_zero_iff (word : Word) : word = 0#64 ↔ ∀ i, word.getLsbD i = false := by
  constructor
  · rintro rfl i
    simp
  · intro clear
    apply BitVec.eq_of_getLsbD_eq
    intro i _
    simp [clear i]

theorem word_ne_zero_iff (word : Word) : word ≠ 0#64 ↔ ∃ i, i < 64 ∧ word.getLsbD i = true := by
  rw [Ne, word_zero_iff]
  constructor
  · intro some
    push Not at some
    obtain ⟨i, bit⟩ := some
    have bit : word.getLsbD i = true := by simpa using bit
    exact ⟨i, BitVec.lt_of_getLsbD bit, bit⟩
  · rintro ⟨i, _, bit⟩ clear
    simp [clear i] at bit

theorem lowest_some (word : Word) (i : Nat) :
    lowest word = some i ↔ word.getLsbD i = true ∧ ∀ j < i, word.getLsbD j = false := by
  rw [lowest, List.find?_range_eq_some]
  constructor
  · rintro ⟨bit, _, below⟩
    exact ⟨bit, fun j less => by simpa using below j less⟩
  · rintro ⟨bit, below⟩
    exact ⟨bit, List.mem_range.mpr (BitVec.lt_of_getLsbD bit), fun j less => by simp [below j less]⟩

theorem lowest_exists (word : Word) (nonzero : word ≠ 0#64) : ∃ i, i < 64 ∧ lowest word = some i := by
  cases found : lowest word with
  | some i =>
      have bit := ((lowest_some word i).mp found).1
      exact ⟨i, BitVec.lt_of_getLsbD bit, rfl⟩
  | none =>
      rw [lowest, List.find?_range_eq_none] at found
      obtain ⟨i, bound, bit⟩ := (word_ne_zero_iff word).mp nonzero
      have clear := found i bound
      simp [bit] at clear

theorem highest_some (word : Word) (i : Nat) :
    highest word = some i ↔ word.getLsbD i = true ∧ ∀ j, i < j → word.getLsbD j = false := by
  simp only [highest, Option.map_eq_some_iff, List.find?_range_eq_some, List.mem_range]
  constructor
  · rintro ⟨k, ⟨bit, bound, above⟩, rfl⟩
    refine ⟨bit, fun j less => ?_⟩
    by_cases wide : j < 64
    · have clear := above (63 - j) (by omega)
      have same : 63 - (63 - j) = j := by omega
      simpa [same] using clear
    · exact BitVec.getLsbD_of_ge word j (by omega)
  · rintro ⟨bit, above⟩
    have bound := BitVec.lt_of_getLsbD bit
    have same : 63 - (63 - i) = i := by omega
    refine ⟨63 - i, ⟨by simpa [same] using bit, by omega, fun j less => ?_⟩, same⟩
    simp [above (63 - j) (by omega)]

theorem highest_exists (word : Word) (nonzero : word ≠ 0#64) : ∃ i, i < 64 ∧ highest word = some i := by
  cases found : highest word with
  | some i =>
      have bit := ((highest_some word i).mp found).1
      exact ⟨i, BitVec.lt_of_getLsbD bit, rfl⟩
  | none =>
      rw [highest, Option.map_eq_none_iff, List.find?_range_eq_none] at found
      obtain ⟨i, bound, bit⟩ := (word_ne_zero_iff word).mp nonzero
      have clear := found (63 - i) (by omega)
      have same : 63 - (63 - i) = i := by omega
      simp [same, bit] at clear

theorem trailing_zeros_ok (word : Word) (i : Nat) (found : lowest word = some i) :
    trailingZeros word = .ok i := by
  simp [trailingZeros, found]

theorem leading_zeros_ok (word : Word) (i : Nat) (found : highest word = some i) :
    leadingZeros word = .ok (63 - i) := by
  simp [leadingZeros, found]

@[simp] theorem shift_left_ok (word : Word) (amount : Nat) (bound : amount < 64) :
    shiftLeft word amount = .ok (word <<< amount) := if_pos bound

@[simp] theorem shift_right_ok (word : Word) (amount : Nat) (bound : amount < 64) :
    shiftRight word amount = .ok (word >>> amount) := if_pos bound

theorem mask_from (amount i : Nat) :
    (BitVec.allOnes 64 <<< amount).getLsbD i = (decide (amount ≤ i) && decide (i < 64)) := by
  rw [Bool.eq_iff_iff]
  simp only [BitVec.getLsbD_shiftLeft, BitVec.getLsbD_allOnes, Bool.and_eq_true, Bool.not_eq_true',
    decide_eq_true_eq,
    decide_eq_false_iff_not]
  omega

theorem mask_upto (amount i : Nat) : (BitVec.allOnes 64 >>> amount).getLsbD i = decide (amount + i < 64) := by
  rw [BitVec.getLsbD_ushiftRight, BitVec.getLsbD_allOnes]

theorem single_bit (amount i : Nat) (bound : amount < 64) :
    ((1#64) <<< amount).getLsbD i = decide (i = amount) := by
  rw [Bool.eq_iff_iff]
  simp only [BitVec.getLsbD_shiftLeft, BitVec.getLsbD_one, Bool.and_eq_true, Bool.not_eq_true',
    decide_eq_true_eq,
    decide_eq_false_iff_not]
  omega

theorem insert_bit (word : Word) (amount i : Nat) (bound : amount < 64) :
    (word ||| (1#64) <<< amount).getLsbD i = (word.getLsbD i || decide (i = amount)) := by
  rw [BitVec.getLsbD_or, single_bit amount i bound]

theorem erase_bit (word : Word) (amount i : Nat) (bound : amount < 64) :
    (word &&& ~~~((1#64) <<< amount)).getLsbD i = (word.getLsbD i && decide (i ≠ amount)) := by
  rw [BitVec.getLsbD_and, BitVec.getLsbD_not, single_bit amount i bound]
  by_cases wide : i < 64
  · simp [wide]
  · simp [BitVec.getLsbD_of_ge word i (by omega)]

end Base
