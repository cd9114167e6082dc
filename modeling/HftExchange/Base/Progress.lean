import HftExchange.Base.Runs

set_option autoImplicit false

namespace Base

-- Properties of the moments of an infinite run, and what a moment with one
-- of them is followed by.
def LeadsTo (P Q : Nat → Prop) : Prop := ∀ n, P n → ∃ m, n ≤ m ∧ Q m

def Recurs (happens : Nat → Prop) : Prop := ∀ n, ∃ m, n ≤ m ∧ happens m

section
variable {P Q R : Nat → Prop}

theorem leads_trans (first : LeadsTo P Q) (second : LeadsTo Q R) : LeadsTo P R := by
  intro n here
  obtain ⟨m, later, there⟩ := first n here
  obtain ⟨k, last, final⟩ := second m there
  exact ⟨k, Nat.le_trans later last, final⟩

theorem leads_at_once (now : ∀ n, P n → Q n) : LeadsTo P Q := fun n here => ⟨n, Nat.le_refl n, now n here⟩

-- A property that is left only for Q, and is left when a recurring step is
-- taken.
theorem leads_by_step (happens : Nat → Prop) (recurs : Recurs happens)
    (stays : ∀ n, P n → P (n + 1) ∨ Q (n + 1))
    (acts : ∀ n, P n → happens n → Q (n + 1)) : LeadsTo P Q := by
  intro n here
  obtain ⟨m, later, step⟩ := recurs n
  -- up to moment m the property holds, or Q has held
  have until_ : ∀ d, (∃ k, n ≤ k ∧ Q k) ∨ P (n + d) := by
    intro d
    induction d with
    | zero => exact .inr here
    | succ d ih =>
        rcases ih with done | holds
        · exact .inl done
        · rcases stays (n + d) holds with holds | done
          · exact .inr holds
          · exact .inl ⟨n + d + 1, by omega, done⟩
  rcases until_ (m - n) with done | holds
  · exact done
  · rw [Nat.add_sub_cancel' later] at holds
    exact ⟨m + 1, by omega, acts m holds step⟩

end

-- Induction over a rank that falls until Q holds.
theorem leads_by_rank (P : Nat → Nat → Prop) (Q : Nat → Prop)
    (falls : ∀ rank, LeadsTo (P rank) fun n => Q n ∨ ∃ less, less < rank ∧ P less n) (rank : Nat) :
    LeadsTo (P rank) Q := by
  induction rank using Nat.strong_induction_on with
  | _ rank ih =>
      refine leads_trans (falls rank) ?_
      rintro n (done | ⟨less, smaller, here⟩)
      · exact ⟨n, Nat.le_refl n, done⟩
      · exact ih less smaller n here

def runStates {σ ι : Type} (step : σ → ι → Checked σ) (start : σ) (labels : Nat → ι) : Nat → σ
  | 0 => start
  | n + 1 =>
      match step (runStates step start labels n) (labels n) with
      | .ok next => next
      | .error _ => runStates step start labels n

theorem run_states_step {σ ι : Type} (step : σ → ι → Checked σ) (start : σ) (labels : Nat → ι)
    (Inv : σ → Prop) (initial : Inv start)
    (preserved : ∀ state label, Inv state → ∃ next, step state label = .ok next ∧ Inv next) (n : Nat) :
    Inv (runStates step start labels n) ∧
      step (runStates step start labels n) (labels n) = .ok (runStates step start labels (n + 1)) := by
  induction n with
  | zero =>
      obtain ⟨next, result, _⟩ := preserved start (labels 0) initial
      exact ⟨initial, by simp only [runStates, result]⟩
  | succ n ih =>
      obtain ⟨next, result, inv⟩ := preserved _ (labels n) ih.1
      have same : runStates step start labels (n + 1) = next := by simp only [runStates, result]
      obtain ⟨last, again, _⟩ := preserved next (labels (n + 1)) inv
      refine ⟨same ▸ inv, ?_⟩
      rw [same, again]
      simp only [runStates, result, again]

-- The operations of an abstract machine that the first steps stand for. A step
-- may stand for none.
section
variable {σ ι α ω : Type} (operation : σ → ι → Option ω) (states : Nat → σ) (labels : Nat → ι)

def operations (n : Nat) : List ω := (List.range n).filterMap fun k => operation (states k) (labels k)

theorem operations_succ (n : Nat) :
    operations operation states labels (n + 1) = operations operation states labels n ++
    (operation (states n) (labels n)).toList := by
  rw [operations, operations, List.range_succ, List.filterMap_append]
  cases found : operation (states n) (labels n) <;> simp [found]

-- A relation that each step keeps, with the operation that it stands for,
-- leads every moment to a run of the abstract machine.
theorem operations_simulate (Rel : σ → α → Prop) (Step : α → ω → α → Prop) (start : α)
    (initial : Rel (states 0) start)
    (follows : ∀ n abstract, Rel (states n) abstract → match operation (states n) (labels n) with
      | none => Rel (states (n + 1)) abstract
      | some op => ∃ next, Step abstract op next ∧ Rel (states (n + 1)) next) (n : Nat) :
    ∃ abstract, Run start Step (operations operation states labels n) abstract ∧ Rel (states n) abstract := by
  induction n with
  | zero => exact ⟨start, .start, initial⟩
  | succ n ih =>
      obtain ⟨abstract, run, related⟩ := ih
      have moved := follows n abstract related
      rw [operations_succ]
      split at moved
      · rename_i silent
        rw [silent, Option.toList_none, List.append_nil]
        exact ⟨abstract, run, moved⟩
      · rename_i op visible
        obtain ⟨next, step, related'⟩ := moved
        rw [visible, Option.toList_some]
        exact ⟨next, .snoc _ op abstract next run step, related'⟩

end

end Base
