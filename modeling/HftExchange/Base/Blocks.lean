import HftExchange.Base.Checked

set_option autoImplicit false

namespace Base

section
variable {α : Type}

def block (array : Nat → α) (start : Nat) : Nat → List α
  | 0 => []
  | count + 1 => array start :: block array (start + 1) count

def loadBlock (size : Nat) (array : Nat → α) (start count : Nat) : Checked (List α) :=
  if start + count ≤ size then .ok (block array start count) else .error .outOfBounds

def patch (array : Nat → α) (start : Nat) (values : List α) (index : Nat) : α :=
  if start ≤ index then values.getD (index - start) (array index) else array index

def storeBlock (size : Nat) (array : Nat → α) (start : Nat) (values : List α) : Checked (Nat → α) :=
  if start + values.length ≤ size then .ok (patch array start values) else .error .outOfBounds

def moveBlock (size : Nat) (array : Nat → α) (target source count : Nat) : Checked (Nat → α) := do
  let values ← loadBlock size array source count
  storeBlock size array target values

@[simp] theorem load_block_ok (size : Nat) (array : Nat → α) (start count : Nat)
    (bound : start + count ≤ size) :
    loadBlock size array start count = .ok (block array start count) := if_pos bound

@[simp] theorem store_block_ok (size : Nat) (array : Nat → α) (start : Nat) (values : List α)
    (bound : start + values.length ≤ size) :
    storeBlock size array start values = .ok (patch array start values) := if_pos bound

@[simp] theorem block_length (array : Nat → α) (start count : Nat) :
    (block array start count).length = count := by
  induction count generalizing start with
  | zero => rfl
  | succ count ih => simp [block, ih]

@[simp] theorem move_block_ok (size : Nat) (array : Nat → α) (target source count : Nat)
    (bound : source + count ≤ size)
    (room : target + count ≤ size) :
    moveBlock size array target source count = .ok
    (patch array target (block array source count)) := by
  simp [moveBlock, bound, room]

theorem block_append (array : Nat → α) (start first second : Nat) :
    block array start (first + second) = block array start first ++ block array (start + first) second := by
  induction first generalizing start with
  | zero => simp [block]
  | succ first ih =>
      rw [Nat.add_right_comm, block, ih, block, List.cons_append, Nat.add_assoc, Nat.add_comm 1 first]

theorem block_congr (first second : Nat → α) (start count : Nat)
    (same : ∀ index, start ≤ index → index < start + count → first index = second index) :
    block first start count = block second start count := by
  induction count generalizing start with
  | zero => rfl
  | succ count ih =>
      rw [block, block, same start (Nat.le_refl _) (by omega), ih (start + 1) fun index low high =>
        same index (by omega) (by omega)]

theorem block_patch_before (array : Nat → α) (place start count : Nat) (values : List α)
    (before : start + count ≤ place) :
    block (patch array place values) start count = block array start count := by
  refine block_congr _ _ start count fun index low high => ?_
  rw [patch, if_neg (by omega)]

theorem block_patch (array : Nat → α) (start : Nat) (values : List α) :
    block (patch array start values) start values.length = values := by
  induction values generalizing array start with
  | nil => rfl
  | cons value rest ih =>
      have later : block (patch array start (value :: rest)) (start + 1) rest.length = block
          (patch array (start + 1) rest) (start + 1) rest.length := by
        refine block_congr _ _ _ _ fun index low high => ?_
        obtain ⟨offset, rfl⟩ := Nat.exists_eq_add_of_le low
        simp [patch, show start ≤ start + 1 + offset by omega, show start + 1 + offset - start =
          offset + 1 by omega]
      rw [List.length_cons, block, later, ih]
      simp [patch]

theorem block_drop (array : Nat → α) (start count skip : Nat) (fits : skip ≤ count) :
    (block array start count).drop skip = block array (start + skip) (count - skip) := by
  obtain ⟨rest, rfl⟩ := Nat.exists_eq_add_of_le fits
  rw [block_append, List.drop_left' (block_length ..), Nat.add_sub_cancel_left]

theorem block_take (array : Nat → α) (start count keep : Nat) (fits : keep ≤ count) :
    (block array start count).take keep = block array start keep := by
  obtain ⟨rest, rfl⟩ := Nat.exists_eq_add_of_le fits
  rw [block_append, List.take_left' (block_length ..)]

end

def sizeSub (a b : Nat) : Nat := (a + 2 ^ 64 - b) % 2 ^ 64

theorem size_sub_eq (a b : Nat) (ordered : b ≤ a) (fits : a < 2 ^ 64) : sizeSub a b = a - b := by
  rw [sizeSub]
  omega

end Base
