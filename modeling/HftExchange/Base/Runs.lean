import HftExchange.Base.Checked

set_option autoImplicit false

namespace Base

inductive Run {σ ι : Type} (start : σ) (Step : σ → ι → σ → Prop) : List ι → σ → Prop where
  | start : Run start Step [] start
  | snoc (labels : List ι) (label : ι) (state next : σ)
      (previous : Run start Step labels state) (step : Step state label next) :
      Run start Step (labels ++ [label]) next

section
variable {σ ι : Type} {start : σ} {Step : σ → ι → σ → Prop}

theorem run_invariant (Inv : σ → Prop) (initial : Inv start)
    (preserved : ∀ state label next, Inv state → Step state label next → Inv next)
    (labels : List ι) (state : σ) (run : Run start Step labels state) : Inv state := by
  induction run with
  | start => exact initial
  | snoc labels label state next _ step ih => exact preserved state label next ih step

-- A relation to a deterministic reference machine that is driven by the same
-- labels is an invariant of the pair.
theorem run_simulates {α : Type} (Rel : σ → α → Prop) (reference : α) (advance : α → ι → α)
    (initial : Rel start reference)
    (simulates : ∀ state label next abstract, Rel state abstract → Step state label next →
      Rel next (advance abstract label))
    (labels : List ι) (state : σ) (run : Run start Step labels state) :
    Rel state (labels.foldl advance reference) := by
  induction run with
  | start => exact initial
  | snoc labels label state next _ step ih =>
      rw [List.foldl_append]
      exact simulates state label next _ ih step

theorem run_mono {Other : σ → ι → σ → Prop} (labels : List ι) (state : σ) (run : Run start Step labels state)
    (weaker : ∀ state label next, label ∈ labels → Step state label next → Other state label next) :
    Run start Other labels state := by
  induction run with
  | start => exact .start
  | snoc labels label state next _ step ih =>
      refine .snoc labels label state next (ih fun state label next inside => ?_)
        (weaker state label next (by simp) step)
      exact weaker state label next (List.mem_append_left _ inside)

theorem run_single (label : ι) (next : σ) (step : Step start label next) : Run start Step [label] next :=
  .snoc [] label start next .start step

theorem run_append (before after : List ι) (middle final : σ) (first : Run start Step before middle)
    (second : Run middle Step after final) : Run start Step (before ++ after) final := by
  induction second with
  | start => simpa using first
  | snoc labels label state next _ step ih =>
      rw [← List.append_assoc]
      exact .snoc _ label state next ih step

end

section
variable {σ ι : Type} (Allowed : σ → ι → Prop) (step : σ → ι → Checked σ)

def Guarded (state : σ) (label : ι) (next : σ) : Prop := Allowed state label ∧ step state label = .ok next

theorem guarded_run_unique (Other : σ → ι → Prop) (start : σ) (labels : List ι) (first second : σ)
    (one : Run start (Guarded Allowed step) labels first)
    (two : Run start (Guarded Other step) labels second) : first = second := by
  induction one generalizing second with
  | start =>
      generalize none_ : ([] : List ι) = empty at two
      cases two with
      | start => rfl
      | snoc => simp at none_
  | snoc labels label state next _ taken ih =>
      generalize whole : labels ++ [label] = other at two
      cases two with
      | start => simp at whole
      | snoc labels' label' state' next' previous' taken' =>
          obtain ⟨rfl, same⟩ := List.append_inj' whole rfl
          cases same
          cases ih state' previous'
          exact Except.ok.inj (taken.2.symm.trans taken'.2)

def execute [∀ state label, Decidable (Allowed state label)] (state : σ) : List ι → Option σ
  | [] => some state
  | label :: rest =>
      if Allowed state label then
        match step state label with
        | .ok next => execute next rest
        | .error _ => none
      else none

theorem execute_run [∀ state label, Decidable (Allowed state label)] (labels : List ι) (state final : σ)
    (result : execute Allowed step state labels = some final) :
    Run state (Guarded Allowed step) labels final := by
  induction labels generalizing state with
  | nil => exact Option.some.inj result ▸ .start
  | cons label rest ih =>
      rw [execute] at result
      split at result
      · rename_i allowed
        split at result
        · rename_i next taken
          exact run_append [label] rest next final
            (.snoc [] label state next .start ⟨allowed, taken⟩) (ih next result)
        · cases result
      · cases result

theorem execute_last [∀ state label, Decidable (Allowed state label)] (labels : List ι) (label : ι)
    (start state final : σ)
    (before : execute Allowed step start labels = some state)
    (after : execute Allowed step start (labels ++ [label]) = some final) :
    Guarded Allowed step state label final := by
  induction labels generalizing start with
  | nil =>
      cases before
      simp only [List.nil_append, execute] at after
      split at after
      · rename_i allowed
        split at after
        · rename_i taken
          exact ⟨allowed, Option.some.inj after ▸ taken⟩
        · cases after
      · cases after
  | cons first rest ih =>
      simp only [List.cons_append, execute] at before after
      split at before
      · rename_i allowed
        rw [if_pos allowed] at after
        cases taken : step start first with
        | error fault => simp [taken] at before
        | ok next => exact ih next (by simpa [taken] using before) (by simpa [taken] using after)
      · cases before

end

end Base
