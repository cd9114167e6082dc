import Mathlib

set_option autoImplicit false

namespace Base

section
variable {α : Type} (capacity : Nat)

-- What a ring of cells holds, from a position on. Positions count up and are
-- taken modulo the capacity.
def ringContents (cells : Nat → α) (start count : Nat) : List α := (List.range count).map fun i =>
    cells ((start + i) % capacity)

theorem ring_contents_length (cells : Nat → α) (start count : Nat) :
    (ringContents capacity cells start count).length = count := by
  rw [ringContents, List.length_map, List.length_range]

theorem ring_apart (start first second : Nat) (low : first < second) (high : second < first + capacity) :
    (start + first) % capacity ≠ (start + second) % capacity := by
  intro same
  have lap : capacity ∣ (start + second) - (start + first) := (Nat.modEq_iff_dvd' (by omega)).mp same
  have positive : 0 < (start + second) - (start + first) := by omega
  have whole := Nat.le_of_dvd positive lap
  omega

theorem ring_store (cells : Nat → α) (start count : Nat) (item : α) (room : count < capacity) :
    ringContents capacity (Function.update cells ((start + count) % capacity) item) start count =
      ringContents capacity cells start count := by
  refine List.map_congr_left fun i inside => Function.update_of_ne ?_ item cells
  have early := List.mem_range.mp inside
  exact ring_apart capacity start i count early (by omega)

theorem ring_push (cells : Nat → α) (start count : Nat) :
    ringContents capacity cells start (count + 1) = ringContents capacity cells start count ++
    [cells ((start + count) % capacity)] := by
  rw [ringContents, List.range_succ, List.map_append, List.map_singleton]
  rfl

theorem ring_pop (cells : Nat → α) (start count : Nat) :
    ringContents capacity cells start (count + 1) = cells (start % capacity) :: ringContents
      capacity cells (start + 1) count := by
  rw [ringContents, List.range_succ_eq_map, List.map_cons, List.map_map, Nat.add_zero]
  refine congrArg (cells (start % capacity) :: ·) (List.map_congr_left fun i _ => ?_)
  rw [Function.comp, Nat.succ_eq_add_one, Nat.add_comm i 1, ← Nat.add_assoc]

end

end Base
