import Mathlib

set_option autoImplicit false

namespace Base

-- A run-time outcome the language leaves undefined, or a loop that does not
-- come to an end. Machine code never reports these; a proof that a checked
-- computation returns .ok is a proof that none of them occurs.
inductive Fault where
  | outOfBounds
  | shiftWidth
  | zeroScan
  | nullPointer
  | stuck
deriving DecidableEq, Repr

abbrev Checked (α : Type) := Except Fault α

@[simp] theorem checked_bind_ok {α β : Type} (value : α) (rest : α → Checked β) :
    ((Except.ok value : Checked α) >>= rest) = rest value := rfl

@[simp] theorem checked_bind_error {α β : Type} (fault : Fault) (rest : α → Checked β) :
    ((Except.error fault : Checked α) >>= rest) = .error fault := rfl

@[simp] theorem checked_pure {α : Type} (value : α) : (pure value : Checked α) = .ok value := rfl

theorem checked_bind_eq_ok {α β : Type} (first : Checked α) (rest : α → Checked β) (result : β) :
    (first >>= rest) = .ok result ↔ ∃ value, first = .ok value ∧ rest value = .ok result := by
  cases first with
  | error fault => simp
  | ok value => simp

theorem checked_foldlM_iff {α σ : Type} (step : σ → α → Checked σ) (Safe : σ → Prop)
    (Good : α → Prop) (items : List α)
    (proceeds : ∀ state, ∀ item ∈ items, Safe state → Good item →
      ∃ next, step state item = .ok next ∧ Safe next)
    (stops : ∀ state, ∀ item ∈ items, Safe state → ¬ Good item →
      ∃ fault, step state item = .error fault) (state : σ) (safe : Safe state) :
    ((∀ item ∈ items, Good item) → ∃ next, items.foldlM step state = .ok next ∧ Safe next) ∧
      (¬ (∀ item ∈ items, Good item) → ∃ fault, items.foldlM step state = .error fault) := by
  induction items generalizing state with
  | nil => exact ⟨fun _ => ⟨state, rfl, safe⟩, fun bad => absurd (fun _ member => by cases member) bad⟩
  | cons item rest ih =>
      rw [List.forall_mem_cons, List.foldlM_cons]
      by_cases good : Good item
      · obtain ⟨middle, result, safe'⟩ := proceeds state item List.mem_cons_self safe good
        obtain ⟨all, some_⟩ :=
          ih (fun state other member => proceeds state other (List.mem_cons_of_mem _ member))
          (fun state other member => stops state other (List.mem_cons_of_mem _ member)) middle safe'
        rw [result, checked_bind_ok]
        exact ⟨fun both => all both.2, fun bad => some_ fun later => bad ⟨good, later⟩⟩
      · obtain ⟨fault, result⟩ := stops state item List.mem_cons_self safe good
        rw [result, checked_bind_error]
        exact ⟨fun both => absurd both.1 good, fun _ => ⟨fault, rfl⟩⟩

theorem checked_foldlM_keeps {α σ : Type} (step : σ → α → Checked σ) (Inv : σ → Prop) (items : List α)
    (keeps : ∀ state, ∀ item ∈ items, ∀ next, Inv state → step state item = .ok next → Inv next)
    (state final : σ) (inv : Inv state)
    (done : items.foldlM step state = .ok final) : Inv final := by
  induction items generalizing state with
  | nil =>
      cases done
      exact inv
  | cons item rest ih =>
      rw [List.foldlM_cons] at done
      obtain ⟨middle, first, later⟩ := (checked_bind_eq_ok _ _ _).mp done
      exact ih (fun state other member => keeps state other (List.mem_cons_of_mem _ member)) middle
        (keeps state item List.mem_cons_self middle inv first) later

-- Fixed-size arrays are total functions read and written through a bound.
def fetch {α : Type} (size : Nat) (array : Nat → α) (index : Nat) : Checked α :=
  if index < size then .ok (array index) else .error .outOfBounds

def store {α : Type} (size : Nat) (array : Nat → α) (index : Nat) (value : α) : Checked (Nat → α) :=
  if index < size then .ok (Function.update array index value) else .error .outOfBounds

@[simp] theorem fetch_ok {α : Type} (size : Nat) (array : Nat → α) (index : Nat) (bound : index < size) :
    fetch size array index = .ok (array index) := if_pos bound

@[simp] theorem store_ok {α : Type} (size : Nat) (array : Nat → α) (index : Nat) (value : α)
    (bound : index < size) :
    store size array index value = .ok (Function.update array index value) := if_pos bound

end Base
